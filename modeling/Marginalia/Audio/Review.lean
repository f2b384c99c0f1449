import Marginalia.Audio.Grouping
import Marginalia.Audio.Player
import Marginalia.Decimal.Natural

/-!
The review of a recording: one player, or two where two revisions are compared. A block of
comments is shown on the player of its revision, and waits until that player has loaded.
-/

namespace Marginalia.Audio

open Attachment (Anchor AnchorError AudioAnchor BlockId Comment Event RegionId Reviewable TimeSpan)

/-- The revisions that are compared. -/
inductive Revision where
  | earlier
  | later
deriving DecidableEq, Repr

def revisionOf (a : AudioAnchor) : Revision := if a.earlier then .earlier else .later

structure Options where
  url : String
  /-- The recording that it is compared with. -/
  earlierUrl : Option String
  /-- Whether the two are of kinds that cannot be compared. -/
  mismatch : Bool
  spectrogram : Bool
  /-- The ids of all revisions, the oldest first. -/
  revisions : List UInt64
  settings : Settings
deriving Repr

/-- Where to go for a revision, or for two of them compared. Revisions count from one; a later one
of zero stands for none, and an earlier one of zero for no comparison. -/
def revisionUrl? (ids : List UInt64) (base tip : Nat) : Option String := do
  if tip = 0 then none
  let tipId ← ids[tip - 1]?
  if base = 0 then return "../" ++ Decimal.text tipId.toNat ++ "/"
  let baseId ← ids[base - 1]?
  return "../" ++ Decimal.text baseId.toNat ++ "-" ++ Decimal.text tipId.toNat ++ "/"

structure Review (W : Type := Waveform) where
  reviewable : Reviewable
  options : Options
  earlier : Option (Player W)
  later : Option (Player W)
  /-- The blocks whose player has not loaded yet, in the order in which they came. -/
  pending : List BlockId

namespace Review

variable {W : Type}

def new (r : Reviewable) (o : Options) : Review W := ⟨r, o, none, none, []⟩

def player (v : Review W) : Revision → Option (Player W)
  | .earlier => v.earlier
  | .later => v.later

def setPlayer (v : Review W) (p : Player W) : Revision → Review W
  | .earlier => { v with earlier := some p }
  | .later => { v with later := some p }

def newPlayer [WaveformPlayer W] (o : Options) (url : String) : Player W :=
  { (Player.new { o.settings with url := url } : Player W).render with
    spectrogramVisible := o.spectrogram }

/-- What is said about revisions that cannot be compared. -/
def mismatchMessage : String :=
  "These revisions cannot be compared because they are different file types."

/-- Makes the players and begins to load; `none` where the revisions cannot be compared. -/
def renderContent? [WaveformPlayer W] (v : Review W) : Option (Review W) :=
  if v.options.mismatch then none
  else
    let v := match v.options.earlierUrl with
      | some url => { v with earlier := some (newPlayer v.options url) }
      | none => v
    some { v with later := some (newPlayer v.options v.options.url) }

def setSpectrogram (v : Review W) (visible : Bool) : Review W :=
  let set (p : Player W) : Player W := { p with spectrogramVisible := visible }
  { v with
    options := { v.options with spectrogram := visible }
    earlier := v.earlier.map set
    later := v.later.map set }

/-- The anchor of a block on the recording. -/
def anchor? (v : Review W) (id : BlockId) : Option AudioAnchor :=
  (v.reviewable.find? id).bind fun b =>
    match b.anchor with
    | .audio a => some a
    | _ => none

/-- Shows a block on its player, or lets it wait for that. -/
def showBlock [WaveformPlayer W] (v : Review W) (id : BlockId) : Review W :=
  match v.anchor? id with
  | none => v
  | some a =>
    let waiting :=
      if v.pending.contains id then v else { v with pending := v.pending ++ [id] }
    match v.player (revisionOf a) with
    | none => waiting
    | some p =>
      if p.loaded then v.setPlayer (p.addComment id a).2 (revisionOf a) else waiting

/-- Makes a block of each group of comments and shows it. The first group that cannot be read
ends it; the blocks before it stay. -/
def loadGroups [WaveformPlayer W] (v : Review W) :
    List CommentGroup → Except AnchorError Nat × Review W
  | [] => (.ok 0, v)
  | g :: gs =>
    match v.reviewable.add g.comments with
    | .error e => (.error e, v)
    | .ok (none, r) => loadGroups { v with reviewable := r } gs
    | .ok (some id, r) =>
      let (count, v) := ({ v with reviewable := r }.showBlock id).loadGroups gs
      (count.map (· + 1), v)

/-- Makes blocks of comments, one for each anchor as it was kept, and counts them. -/
def loadComments [WaveformPlayer W] (v : Review W) (cs : List Comment) :
    Except AnchorError Nat × Review W :=
  v.loadGroups (groupComments cs)

/-- A player has loaded: the blocks that wait for it are shown. -/
def fileLoaded [WaveformPlayer W] (v : Review W) (side : Revision) : List Event × Review W :=
  match v.player side with
  | none => ([], v)
  | some p =>
    let (events, p) := p.fileLoaded
    let isReady (id : BlockId) := (v.anchor? id).any fun a => revisionOf a = side
    let (ready, waiting) := v.pending.partition isReady
    (events, ready.foldl showBlock { v.setPlayer p side with pending := waiting })

/-- A region was drawn: a block is made for it. -/
def regionDrawn [WaveformPlayer W] (v : Review W) (side : Revision) (id : RegionId)
    (span : TimeSpan) : List Event × Review W :=
  match v.player side with
  | none => ([], v)
  | some p =>
    let (events, p) := p.regionDrawn id span
    let v := v.setPlayer p side
    if events.isEmpty then ([], v)
    else
      match v.reviewable.create (.audio ⟨some span.start, some span.stop, side = .earlier⟩) with
      | .error _ => (events, v)
      | .ok (b, r) => (events ++ [.commentCreated b], { v with reviewable := r }.showBlock b)

/-- Takes a block away with its region. -/
def removeBlock [WaveformPlayer W] (v : Review W) (id : BlockId) : List Event × Review W :=
  match v.reviewable.remove id with
  | none => ([], v)
  | some (b, r) =>
    let v := { v with reviewable := r, pending := v.pending.filter fun i => i ≠ id }
    let v := match b.anchor with
      | .audio a =>
        match v.player (revisionOf a) with
        | some p => v.setPlayer (p.removeComment id) (revisionOf a)
        | none => v
      | _ => v
    ([.commentRemoved id], v)

/-- A revision was chosen, or two of them. -/
def revisionSelected (v : Review W) (base tip : Nat) : Option Event :=
  (revisionUrl? v.options.revisions base tip).map .redirect

end Review

end Marginalia.Audio
