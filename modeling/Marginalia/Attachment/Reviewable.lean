import Marginalia.Attachment.Comment
import Marginalia.Attachment.Reader

/-!
An attachment under review and the blocks of comments on it, each with one anchor.
-/

namespace Marginalia.Attachment

/-- The name of a block, which no other block of the attachment has had. -/
structure BlockId where
  number : Nat
deriving DecidableEq, Repr

structure Block where
  id : BlockId
  attachment : UInt64
  anchor : Anchor
  comments : List Comment

def Block.hasDraft (b : Block) : Bool := b.comments.any Comment.isDraft

structure Reviewable where
  medium : Medium
  info : Info
  blocks : List Block
  /-- The number of the next new block. -/
  next : Nat

namespace Reviewable

def new (m : Medium) (info : Info) : Reviewable := ⟨m, info, [], 1⟩

def find? (r : Reviewable) (id : BlockId) : Option Block := r.blocks.find? fun b => b.id = id

/-- A new block behind the others. -/
def push (r : Reviewable) (a : Anchor) (cs : List Comment) : BlockId × Reviewable :=
  let id : BlockId := ⟨r.next⟩
  (id, { r with blocks := r.blocks ++ [⟨id, r.info.attachment, a, cs⟩], next := r.next + 1 })

/-- Makes one block of comments with a common anchor, which is read from the first of them.
There is none without comments. -/
def add (r : Reviewable) (cs : List Comment) :
    Except AnchorError (Option BlockId × Reviewable) :=
  match cs with
  | [] => .ok (none, r)
  | c :: _ =>
    (Anchor.ofFields r.medium c.fields).map fun a =>
      let (id, r) := r.push a cs
      (some id, r)

/-- Makes blocks of batches of comments and counts them. The first batch that cannot be read
ends it; the blocks before it stay. -/
def load (r : Reviewable) : List (List Comment) → Except AnchorError Nat × Reviewable
  | [] => (.ok 0, r)
  | cs :: batches =>
    match r.add cs with
    | .error e => (.error e, r)
    | .ok (id, r) =>
      let (count, r) := r.load batches
      (count.map fun n => if id.isSome then n + 1 else n, r)

/-- Makes a block without comments. -/
def create (r : Reviewable) (a : Anchor) : Except AnchorError (BlockId × Reviewable) :=
  if a.medium = r.medium then .ok (r.push a []) else .error (.wrongMedium r.medium a.medium)

/-- Takes a block away. -/
def remove (r : Reviewable) (id : BlockId) : Option (Block × Reviewable) :=
  (r.find? id).map fun b => (b, { r with blocks := r.blocks.eraseP fun b => b.id = id })

end Reviewable

end Marginalia.Attachment
