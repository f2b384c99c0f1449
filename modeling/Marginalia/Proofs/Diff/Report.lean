import Marginalia.Diff.Replay
import Marginalia.Proofs.Diff.Answer

/-! The report of a replay. The answers that are left are those of the script without as many about
each chunk as requests were made about it, so the place of a request among those about its chunk
tells its answer. -/

namespace Marginalia.Diff

/-! ### Answers -/

/-- The answers about a chunk, in the order of the script. -/
def answersAbout (chunk : UInt64) (answers : List Answer) : List Answer :=
  answers.filter fun a => a.chunk == chunk

/-- How many of some requests are about a chunk. -/
def countAbout (chunk : UInt64) (requests : List Request) : Nat :=
  requests.countP fun r => r.chunk == chunk

/-- What a script holds for a request that is made after others: of the answers about its chunk,
the one that has as many before it as earlier requests were about the chunk. -/
def scripted (answers : List Answer) (earlier : List Request) (r : Request) : FetchResult :=
  match (answersAbout r.chunk answers)[countAbout r.chunk earlier]? with
  | some a => a.result
  | none => .error (.chunkNotFound r.chunk)

/-- Of the answers about each chunk, the first ones went to the requests about it. -/
def LeftAfter (answers left : List Answer) (earlier : List Request) : Prop :=
  ∀ chunk, answersAbout chunk left = (answersAbout chunk answers).drop (countAbout chunk earlier)

section Answers

variable {answers left rest : List Answer} {earlier : List Request} {a : Answer} {r : Request}
  {chunk : UInt64}

theorem takeAnswer_eq_none (h : takeAnswer chunk left = none) : answersAbout chunk left = [] := by
  induction left with
  | nil => rfl
  | cons b left ih =>
    rw [takeAnswer] at h
    split at h
    · cases h
    · next hb =>
      rw [answersAbout, List.filter_cons_of_neg (by simpa using hb)]
      exact ih (Option.map_eq_none_iff.mp h)

/-- The first answer about a chunk is taken, and those about other chunks stay. -/
theorem takeAnswer_eq_some (h : takeAnswer chunk left = some (a, rest)) :
    answersAbout chunk left = a :: answersAbout chunk rest ∧
      ∀ other, other ≠ chunk → answersAbout other rest = answersAbout other left := by
  induction left generalizing rest with
  | nil => cases h
  | cons b left ih =>
    rw [takeAnswer] at h
    split at h
    · next hb =>
      obtain ⟨rfl, rfl⟩ := Prod.mk.inj (Option.some.inj h)
      refine ⟨List.filter_cons_of_pos (by simpa using hb), fun other hne => ?_⟩
      have hother : ¬ b.chunk = other := fun he => hne (he.symm.trans hb)
      exact (List.filter_cons_of_neg (by simpa using hother)).symm
    · next hb =>
      obtain ⟨⟨a', rest'⟩, htake, he⟩ := Option.map_eq_some_iff.mp h
      obtain ⟨rfl, rfl⟩ := Prod.mk.inj he
      obtain ⟨hfirst, hothers⟩ := ih htake
      constructor
      · rw [answersAbout, answersAbout, List.filter_cons_of_neg (by simpa using hb),
          List.filter_cons_of_neg (by simpa using hb)]
        exact hfirst
      · intro other hne
        rw [answersAbout, answersAbout, List.filter_cons, List.filter_cons]
        split
        · exact congrArg (b :: ·) (hothers other hne)
        · exact hothers other hne

theorem countAbout_concat (chunk : UInt64) (earlier : List Request) (r : Request) :
    countAbout chunk (earlier ++ [r]) =
      countAbout chunk earlier + if r.chunk = chunk then 1 else 0 := by
  simp [countAbout, List.countP_append]

/-- A request gets what the script holds for it, and the answers left after it are those after one
more request. -/
theorem LeftAfter.answer (h : LeftAfter answers left earlier) (r : Request) :
    (answer r left).1 = scripted answers earlier r ∧
      LeftAfter answers (answer r left).2 (earlier ++ [r]) := by
  have hhead : (answersAbout r.chunk answers)[countAbout r.chunk earlier]? =
      (answersAbout r.chunk left).head? := by
    rw [h r.chunk, List.head?_drop]
  unfold Diff.answer scripted
  rw [hhead]
  cases htake : takeAnswer r.chunk left with
  | none =>
    rw [takeAnswer_eq_none htake]
    refine ⟨rfl, fun chunk => ?_⟩
    change answersAbout chunk left = _
    rw [countAbout_concat]
    split
    · next hc =>
      subst hc
      have hnone := h r.chunk
      rw [takeAnswer_eq_none htake, eq_comm, List.drop_eq_nil_iff] at hnone
      rw [takeAnswer_eq_none htake, eq_comm, List.drop_eq_nil_iff]
      omega
    · exact h chunk
  | some p =>
    obtain ⟨a, rest⟩ := p
    obtain ⟨hfirst, hothers⟩ := takeAnswer_eq_some htake
    rw [hfirst]
    refine ⟨rfl, fun chunk => ?_⟩
    change answersAbout chunk rest = _
    rw [countAbout_concat]
    split
    · next hc =>
      subst hc
      rw [← List.drop_drop, ← h r.chunk, hfirst, List.drop_one, List.tail_cons]
    · next hc => exact (hothers chunk (Ne.symm hc)).trans (h chunk)

end Answers

/-! ### Requests -/

/-- The events that open a comment or an editor for one. -/
def Event.opens : Event → Bool
  | .openEditor _ _ | .openExisting _ _ _ => true
  | .requestFragment _ | .expansionChanged => false

/-- A request with the next number, whose target the table has, and the counter after it. -/
structure RequestCounter.Asks (c : RequestCounter) (t : Table) (c' : RequestCounter)
    (r : Request) : Prop where
  counted : c'.issued = c.issued + 1
  number : r.id = c.issued + 1
  target : ∃ position, t.target? r = some position

theorem RequestCounter.collapse_cases (c : RequestCounter) (t : Table) (chunk : UInt64) :
    (∃ e, c.collapse t chunk = .error e) ∨
      ∃ c' r, c.collapse t chunk = .ok (c', r) ∧ c.Asks t c' r := by
  unfold collapse
  cases hp : t.collapsible? chunk with
  | none => exact Or.inl ⟨_, rfl⟩
  | some position => exact Or.inr ⟨_, _, rfl, rfl, rfl, position, hp⟩

theorem RequestCounter.expand_cases (c : RequestCounter) (t : Table) (chunk : UInt64)
    (reveal : Reveal) :
    (∃ e, c.expand t chunk reveal = .error e) ∨
      ∃ c' r, c.expand t chunk reveal = .ok (c', r) ∧ c.Asks t c' r := by
  unfold expand
  split
  · exact c.collapse_cases t chunk
  · next hreveal =>
    cases hp : t.placeholder? chunk with
    | none => exact Or.inl ⟨_, rfl⟩
    | some position =>
      refine Or.inr ⟨_, _, rfl, rfl, rfl, position, ?_⟩
      have hshow : (reveal.extent == .hidden) = false := by
        cases reveal with
        | hide => exact absurd rfl hreveal
        | whole | above | below | toHeader => rfl
      simpa [Table.target?, Request.isCollapse, issue, hshow] using hp

namespace Session

/-- All that an action can lead to: nothing, one opening, or one request with the next number,
which finds its target in the table. -/
inductive Leads (s : Session) : Session × List Event → Prop where
  | nowhere {s' : Session} (h : s'.requests = s.requests) : Leads s (s', [])
  | opening {s' : Session} {e : Event} (h : s'.requests = s.requests) (he : e.opens = true) :
    Leads s (s', [e])
  | request {c : RequestCounter} {r : Request} (h : s.requests.Asks s.table c r) :
    Leads s ({ s with requests := c }, [.requestFragment r])

theorem leads_send {s : Session} {x : Except ExpansionError (RequestCounter × Request)}
    (hx : (∃ e, x = .error e) ∨ ∃ c r, x = .ok (c, r) ∧ s.requests.Asks s.table c r) :
    s.Leads (s.send x) := by
  obtain ⟨e, rfl⟩ | ⟨c, r, rfl, hasks⟩ := hx
  · exact .nowhere rfl
  · exact .request hasks

theorem leads_handle (s : Session) (a : Action) : s.Leads (s.handle a) := by
  cases a with
  | pointerEnter c => exact .nowhere rfl
  | pointerLeave c onto => exact .nowhere rfl
  | pointerDown c => exact .nowhere rfl
  | pointerUp c =>
    rw [handle]
    cases s.selector.release? s.table c with
    | none => exact .nowhere rfl
    | some release => cases release <;> exact .opening rfl rfl
  | expand chunk reveal => exact leads_send (s.requests.expand_cases s.table chunk reveal)
  | collapse chunk => exact leads_send (s.requests.collapse_cases s.table chunk)

theorem asks_handle {s s' : Session} {a : Action} {r : Request}
    (h : s.handle a = (s', [.requestFragment r])) :
    s'.table = s.table ∧ s.requests.Asks s.table s'.requests r := by
  have hleads := s.leads_handle a
  rw [h] at hleads
  cases hleads with
  | opening _ he => cases he
  | request hasks => exact ⟨rfl, hasks⟩

theorem requests_handle {s s' : Session} {a : Action} {es : List Event}
    (h : s.handle a = (s', es)) (hes : ∀ r, .requestFragment r ∉ es) :
    s'.requests = s.requests := by
  have hleads := s.leads_handle a
  rw [h] at hleads
  cases hleads with
  | nowhere hsame => exact hsame
  | opening hsame => exact hsame
  | request => exact absurd List.mem_cons_self (hes _)

/-- The answer to a request whose target the table has is worked in, or refused for want of groups
or because none were fetched. -/
theorem applyFragment_present {s : Session} {r : Request} {position : Nat}
    (h : s.table.target? r = some position) (result : FetchResult) :
    (∃ s', s.applyFragment r result = .ok (s', [.expansionChanged]) ∧ s'.requests = s.requests) ∨
      ∃ cause, s.applyFragment r result = .error cause ∧
        (cause = .emptyFragment r.chunk ∨ ∃ e, cause = .fetch r.chunk e) := by
  obtain ⟨e, -, he⟩ | ⟨f, -, hnone, -⟩ | ⟨f, A, g, C, -, -, -, he⟩ | ⟨f, A, g, C, -, -, -, he⟩ :=
    s.applyFragment_cases r result
  · exact Or.inr ⟨_, he, Or.inr ⟨e, rfl⟩⟩
  · rw [Table.target?_eq, List.findIdx?_eq_none_iff.mpr hnone] at h
    cases h
  · exact Or.inr ⟨_, he, Or.inl rfl⟩
  · exact Or.inl ⟨_, he, rfl⟩

theorem requests_applyFragment {s : Session} {r : Request} {result : FetchResult}
    {p : Session × List Event} (h : s.applyFragment r result = .ok p) :
    p.1.requests = s.requests := by
  unfold applyFragment at h
  split at h
  · obtain rfl := Except.ok.inj h
    rfl
  · cases h

end Session

/-! ### Lines -/

def Line.request? : Line → Option Request
  | .event (.requestFragment r) => some r
  | _ => none

def Line.isFailure : Line → Bool
  | .failed _ _ => true
  | .event _ => false

/-- Whether a line says what came of a request. -/
def Line.TellsOf (r : Request) : Line → Prop
  | .event e => e = .expansionChanged
  | .failed q _ => q = r

/-- The requests that a report shows, in order. -/
def requested (ls : List Line) : List Request := ls.filterMap Line.request?

/-- A line that says what came of a request stands behind each request, and nowhere else. -/
inductive Paired : List Line → Prop where
  | nil : Paired []
  | opening {e : Event} {ls : List Line} (he : e.opens = true) (h : Paired ls) :
    Paired (.event e :: ls)
  | exchange {r : Request} {l : Line} {ls : List Line} (hl : l.TellsOf r) (h : Paired ls) :
    Paired (.event (.requestFragment r) :: l :: ls)

theorem Paired.append {ls ms : List Line} (h : Paired ls) (hm : Paired ms) :
    Paired (ls ++ ms) := by
  induction h with
  | nil => exact hm
  | opening he _ ih => exact .opening he ih
  | exchange hl _ ih => exact .exchange hl ih

theorem requested_append (ls ms : List Line) :
    requested (ls ++ ms) = requested ls ++ requested ms :=
  List.filterMap_append

theorem requested_opening {e : Event} (he : e.opens = true) : requested [.event e] = [] := by
  cases e <;> first | rfl | cases he

/-- Requests are numbered from one, in machine words. -/
def Numbered (rs : List Request) : Prop :=
  ∀ k (r : Request), rs[k]? = some r → r.id = .ofNat (k + 1)

theorem Numbered.concat {rs : List Request} {r : Request} (h : Numbered rs)
    (hr : r.id = .ofNat (rs.length + 1)) : Numbered (rs ++ [r]) := by
  intro k r' hk
  rcases Nat.lt_or_ge k rs.length with hlt | hge
  · rw [List.getElem?_append_left hlt] at hk
    exact h k r' hk
  · rw [List.getElem?_append_right hge] at hk
    obtain ⟨hzero, rfl⟩ : k - rs.length = 0 ∧ r = r' := by
      simpa [List.getElem?_singleton] using hk
    obtain rfl : k = rs.length := by omega
    exact hr

/-- A message begins with the first letter of its first part. -/
theorem head?_toList_append {u v : String} {c : Char} (h : u.toList.head? = some c) :
    (u ++ v).toList.head? = some c := by
  rw [String.toList_append, List.head?_append, h]
  rfl

/-- What is said of a missing answer or of one without groups is not what is said of a target that
has gone. -/
theorem message_ne_gone {cause : ExpansionError} {chunk : UInt64}
    (h : cause = .emptyFragment chunk ∨ ∃ e, cause = .fetch chunk e) (other : UInt64) :
    cause.message ≠ (ExpansionError.gone other).message := by
  have hgone : (ExpansionError.gone other).message.toList.head? = some 'C' :=
    head?_toList_append (head?_toList_append (by decide))
  intro he
  rw [← he] at hgone
  obtain rfl | ⟨e, rfl⟩ := h
  · have hempty : (ExpansionError.emptyFragment chunk).message.toList.head? = some 'E' :=
      head?_toList_append (by decide)
    rw [hempty] at hgone
    simp at hgone
  · have hfetch : (ExpansionError.fetch chunk e).message.toList.head? = some 'F' :=
      head?_toList_append (head?_toList_append (head?_toList_append (by decide)))
    rw [hfetch] at hgone
    simp at hgone

namespace Replay

variable {answers : List Answer} {p : Replay} {s : Session} {a : Action} {ls : List Line}

/-- What one action comes to in a replay: the session after it and the lines that it adds. A
request is answered with what the script holds for it after the requests that were reported. -/
inductive Turn (answers : List Answer) (p : Replay) (a : Action) : Session → List Line → Prop where
  | silent {s : Session} (h : p.session.handle a = (s, [])) : Turn answers p a s []
  | opening {s : Session} {e : Event} (h : p.session.handle a = (s, [e])) (he : e.opens = true) :
    Turn answers p a s [.event e]
  | shown {s s' : Session} {r : Request} (h : p.session.handle a = (s, [.requestFragment r]))
    (hr : s.applyFragment r (scripted answers (requested p.lines) r) =
      .ok (s', [.expansionChanged])) :
    Turn answers p a s' [.event (.requestFragment r), .event .expansionChanged]
  | refused {s : Session} {r : Request} {cause : ExpansionError}
    (h : p.session.handle a = (s, [.requestFragment r]))
    (hr : s.applyFragment r (scripted answers (requested p.lines) r) = .error cause) :
    Turn answers p a s [.event (.requestFragment r), .failed r cause]

/-- The counts and the lines of a replay after an action that adds some lines. -/
structure Grows (p q : Replay) (ls : List Line) : Prop where
  lines : q.lines = p.lines ++ ls
  actions : q.actions = p.actions + 1
  events : q.events = p.events + ls.countP fun l => !l.isFailure
  failures : q.failures = p.failures + ls.countP Line.isFailure

/-- Each action takes its turn, and the answers left after it are told by the report. -/
theorem turn_act (h : LeftAfter answers p.answers (requested p.lines)) (a : Action) :
    ∃ ls, Turn answers p a (p.act a).session ls ∧ Grows p (p.act a) ls ∧
      LeftAfter answers (p.act a).answers (requested (p.lines ++ ls)) := by
  have hleads := p.session.leads_handle a
  generalize hs : p.session.handle a = handled at hleads
  cases hleads with
  | @nowhere s =>
    have hact : p.act a = { p with session := s, actions := p.actions + 1 } := by
      rw [act, hs]
      rfl
    rw [hact]
    exact ⟨[], .silent hs, ⟨(List.append_nil _).symm, rfl, rfl, rfl⟩, by simpa using h⟩
  | @opening s e _ he =>
    have hact : p.act a =
        ({ p with session := s, actions := p.actions + 1 } : Replay).report e := by
      rw [act, hs]
      cases e <;> first | rfl | cases he
    rw [hact]
    refine ⟨[.event e], .opening hs he, ⟨rfl, rfl, rfl, rfl⟩, ?_⟩
    rw [requested_append, requested_opening he, List.append_nil]
    exact h
  | @request c r hasks =>
    obtain ⟨hresult, hleft⟩ := h.answer r
    obtain ⟨position, htarget⟩ := hasks.target
    obtain ⟨s', hok, -⟩ | ⟨cause, herror, -⟩ := Session.applyFragment_present
        (s := { p.session with requests := c }) htarget (answer r p.answers).1
    · have hact : p.act a =
          { p with
            session := s', answers := (answer r p.answers).2,
            lines := p.lines ++ [.event (.requestFragment r), .event .expansionChanged],
            actions := p.actions + 1, events := p.events + 2 } := by
        simp only [act, hs, List.foldl_cons, List.foldl_nil, follow, deliver, report, hok,
          List.append_assoc, List.cons_append, List.nil_append]
      rw [hresult] at hok
      rw [hact]
      refine ⟨_, .shown hs hok, ⟨rfl, rfl, rfl, rfl⟩, ?_⟩
      rw [requested_append]
      exact hleft
    · have hact : p.act a =
          { p with
            session := { p.session with requests := c }, answers := (answer r p.answers).2,
            lines := p.lines ++ [.event (.requestFragment r), .failed r cause],
            actions := p.actions + 1, events := p.events + 1, failures := p.failures + 1 } := by
        simp only [act, hs, List.foldl_cons, List.foldl_nil, follow, deliver, report, herror,
          List.append_assoc, List.cons_append, List.nil_append]
      rw [hresult] at herror
      rw [hact]
      refine ⟨_, .refused hs herror, ⟨rfl, rfl, rfl, rfl⟩, ?_⟩
      rw [requested_append]
      exact hleft

theorem Turn.paired (h : Turn answers p a s ls) : Paired ls := by
  cases h with
  | silent => exact .nil
  | opening _ he => exact .opening he .nil
  | shown => exact .exchange rfl .nil
  | refused => exact .exchange rfl .nil

/-- A turn without a request leaves the count of requests as it was. A request has the next
number. -/
theorem Turn.asks (h : Turn answers p a s ls) :
    (requested ls = [] ∧ s.requests = p.session.requests) ∨
      ∃ r, requested ls = [r] ∧ p.session.requests.Asks p.session.table s.requests r := by
  cases h with
  | silent h => exact Or.inl ⟨rfl, Session.requests_handle h (by simp)⟩
  | @opening s e h he =>
    refine Or.inl ⟨requested_opening he, Session.requests_handle h fun r hr => ?_⟩
    obtain rfl := List.mem_singleton.mp hr
    cases he
  | shown h hr =>
    refine Or.inr ⟨_, rfl, ?_⟩
    rw [Session.requests_applyFragment hr]
    exact (Session.asks_handle h).2
  | refused h => exact Or.inr ⟨_, rfl, (Session.asks_handle h).2⟩

/-- The target of a request is still there when its answer is worked in. -/
theorem Turn.causes (h : Turn answers p a s ls) {r : Request} {cause : ExpansionError}
    (hf : .failed r cause ∈ ls) :
    cause = .emptyFragment r.chunk ∨ ∃ e, cause = .fetch r.chunk e := by
  cases h with
  | silent => cases hf
  | opening => simp at hf
  | shown => simp at hf
  | refused h hr =>
    obtain ⟨rfl, rfl⟩ : r = _ ∧ cause = _ := by simpa using hf
    obtain ⟨htable, hasks⟩ := Session.asks_handle h
    obtain ⟨position, htarget⟩ := hasks.target
    rw [← htable] at htarget
    obtain ⟨s', hok, -⟩ | ⟨cause', herror, hcause⟩ :=
      Session.applyFragment_present htarget (scripted answers (requested p.lines) r)
    · rw [hok] at hr
      cases hr
    · rw [herror] at hr
      cases hr
      exact hcause

/-- A replay whose report tells the answers left, the number of the last request and the counts. -/
structure Tallied (answers : List Answer) (p : Replay) : Prop where
  left : LeftAfter answers p.answers (requested p.lines)
  issued : p.session.requests.issued = .ofNat (requested p.lines).length
  numbered : Numbered (requested p.lines)
  few : (requested p.lines).length ≤ p.actions
  paired : Paired p.lines
  causes : ∀ r cause, .failed r cause ∈ p.lines →
    cause = .emptyFragment r.chunk ∨ ∃ e, cause = .fetch r.chunk e
  events : p.events = p.lines.countP fun l => !l.isFailure
  failures : p.failures = p.lines.countP Line.isFailure

theorem tallied_start (hs : s.requests = .zero) (answers : List Answer) :
    Tallied answers (start s answers) where
  left _ := rfl
  issued := congrArg RequestCounter.issued hs
  numbered k r hk := by cases hk
  few := Nat.zero_le _
  paired := .nil
  causes r cause h := by cases h
  events := rfl
  failures := rfl

theorem tallied_act (h : Tallied answers p) (a : Action) : Tallied answers (p.act a) := by
  obtain ⟨ls, hturn, hgrows, hleft⟩ := turn_act h.left a
  have hrequested : requested (p.act a).lines = requested p.lines ++ requested ls := by
    rw [hgrows.lines, requested_append]
  have hasked : (p.act a).session.requests.issued =
        .ofNat (requested p.lines ++ requested ls).length ∧
      Numbered (requested p.lines ++ requested ls) ∧ (requested ls).length ≤ 1 := by
    obtain ⟨hnone, hsame⟩ | ⟨r, hone, hasks⟩ := hturn.asks
    · rw [hnone, hsame, List.append_nil]
      exact ⟨h.issued, h.numbered, Nat.zero_le _⟩
    · rw [hone, List.length_append, List.length_singleton, UInt64.ofNat_add, ← h.issued]
      refine ⟨hasks.counted, h.numbered.concat ?_, le_rfl⟩
      rw [hasks.number, h.issued, UInt64.ofNat_add]
      rfl
  obtain ⟨hissued, hnumbered, hfew⟩ := hasked
  refine ⟨?_, ?_, ?_, ?_, ?_, fun r cause hf => ?_, ?_, ?_⟩
  · rwa [hgrows.lines]
  · rwa [hrequested]
  · rwa [hrequested]
  · rw [hrequested, List.length_append, hgrows.actions]
    exact Nat.add_le_add h.few hfew
  · rw [hgrows.lines]
    exact h.paired.append hturn.paired
  · rw [hgrows.lines] at hf
    rcases List.mem_append.mp hf with hf | hf
    · exact h.causes r cause hf
    · exact hturn.causes hf
  · rw [hgrows.events, hgrows.lines, List.countP_append, h.events]
  · rw [hgrows.failures, hgrows.lines, List.countP_append, h.failures]

theorem run_concat (s : Session) (answers : List Answer) (actions : List Action) (a : Action) :
    run s answers (actions ++ [a]) = (run s answers actions).act a := by
  simp [run]

theorem tallied_run (hs : s.requests = .zero) (answers : List Answer) (actions : List Action) :
    Tallied answers (run s answers actions) ∧
      (run s answers actions).actions = actions.length := by
  induction actions using List.reverseRecOn with
  | nil => exact ⟨tallied_start hs answers, rfl⟩
  | append_singleton actions a ih =>
    obtain ⟨hrun, hlength⟩ := ih
    obtain ⟨ls, -, hgrows, -⟩ := turn_act hrun.left a
    rw [run_concat]
    exact ⟨tallied_act hrun a, by rw [hgrows.actions, hlength, List.length_append]; rfl⟩

/-- What a replay makes of a script's actions and answers. -/
structure Reported (s : Session) (answers : List Answer) (actions : List Action) (p : Replay) :
    Prop where
  /-- Each action takes its turn, where each request is answered by its place among those about its
  chunk. -/
  turns : ∀ before a after, actions = before ++ a :: after →
    ∃ ls, Turn answers (run s answers before) a (run s answers (before ++ [a])).session ls ∧
      (run s answers (before ++ [a])).lines = (run s answers before).lines ++ ls
  numbered : Numbered (requested p.lines)
  /-- Fewer actions than there are machine words have all numbers in full. -/
  numbers : actions.length < UInt64.size →
    ∀ k (r : Request), (requested p.lines)[k]? = some r → r.id.toNat = k + 1
  paired : Paired p.lines
  /-- No request fails because its target has gone. -/
  present : ∀ r cause, .failed r cause ∈ p.lines →
    ∀ chunk, cause.message ≠ (ExpansionError.gone chunk).message
  actions : p.actions = actions.length
  events : p.events = p.lines.countP fun l => !l.isFailure
  failures : p.failures = p.lines.countP Line.isFailure

/-- From a session that has made no requests, whatever is done in it and however few answers the
script holds. -/
theorem reported_run (file : File) (groups : List Group) (answers : List Answer)
    (actions : List Action) :
    let s := Session.new file (.ofGroups groups)
    Reported s answers actions (run s answers actions) := by
  intro s
  have hstart : s.requests = .zero := rfl
  obtain ⟨htallied, hactions⟩ := tallied_run hstart answers actions
  refine ⟨fun before a after _ => ?_, htallied.numbered, fun hsize k r hk => ?_, htallied.paired,
    fun r cause hf => message_ne_gone (htallied.causes r cause hf), hactions, htallied.events,
    htallied.failures⟩
  · have hleft := (tallied_run hstart answers before).1.left
    obtain ⟨ls, hturn, hgrows, -⟩ := turn_act hleft a
    rw [run_concat]
    exact ⟨ls, hturn, hgrows.lines⟩
  · obtain ⟨hlt, -⟩ := List.getElem?_eq_some_iff.mp hk
    have hfew := htallied.few
    rw [htallied.numbered k r hk]
    exact UInt64.toNat_ofNat_of_lt' (by omega)

/-- Requests about two chunks in turns: each chunk has its own order of answers, until there are no
more. -/
example :
    let s := Session.new (.new 0 0 0)
      (.ofGroups [.placeholder 0 1 [.whole], .new 1 .delete [.bare 2], .placeholder 2 1 [.whole]])
    let answers : List Answer :=
      [⟨2, [], some "late"⟩, ⟨2, [], none⟩, ⟨0, [.shown 0 [.bare 1]], none⟩]
    let actions : List Action :=
      [.expand 2 .whole, .expand 0 .whole, .expand 2 .whole, .expand 2 .whole]
    (run s answers actions).lines =
      [.event (.requestFragment ⟨1, 2, .whole⟩),
        .failed ⟨1, 2, .whole⟩ (.fetch 2 (.network "late")),
        .event (.requestFragment ⟨2, 0, .whole⟩), .event .expansionChanged,
        .event (.requestFragment ⟨3, 2, .whole⟩), .failed ⟨3, 2, .whole⟩ (.emptyFragment 2),
        .event (.requestFragment ⟨4, 2, .whole⟩),
        .failed ⟨4, 2, .whole⟩ (.fetch 2 (.chunkNotFound 2))] := by
  decide

end Replay

end Marginalia.Diff
