import Mathlib.Data.List.Nodup
import Marginalia.Json.Record

/-! Objects whose keys are distinct say the same in whatever order their members stand. A settled
value is such a rearrangement of the value it comes from. -/

namespace Marginalia.Json

variable {ms ms' : List (String × Json)} {k : String} {v : Json}

/-! ### The order of members -/

theorem insertMember_perm (h : k ∉ ms.map Prod.fst) :
    (insertMember k v ms).Perm ((k, v) :: ms) := by
  induction ms with
  | nil => exact .refl _
  | cons m ms ih =>
    obtain ⟨k', v'⟩ := m
    simp only [List.map_cons, List.mem_cons, not_or] at h
    obtain ⟨hne, hrest⟩ := h
    rw [insertMember]
    split
    · exact .refl _
    · exact ((ih hrest).cons (k', v')).trans (.swap (k, v) (k', v') ms)

/-- Sorting keeps every member where no key comes twice. -/
theorem sortMembers_perm (h : (ms.map Prod.fst).Nodup) : (sortMembers ms).Perm ms := by
  -- The fold starts from the members inserted so far, so the induction carries them along.
  suffices hfold : ∀ acc : List (String × Json), ((acc ++ ms).map Prod.fst).Nodup →
      (ms.foldl (fun acc m => insertMember m.1 m.2 acc) acc).Perm (acc ++ ms) by
    exact hfold [] h
  clear h
  induction ms with
  | nil =>
    intro acc _
    rw [List.append_nil]
    exact .refl acc
  | cons m ms ih =>
    intro acc hacc
    have hm : m.1 ∉ acc.map Prod.fst := by
      rw [List.map_append, List.nodup_append] at hacc
      intro hmem
      exact hacc.2.2 _ hmem m.1 (by simp) rfl
    have hins : (insertMember m.1 m.2 acc ++ ms).Perm (acc ++ m :: ms) :=
      ((insertMember_perm hm).append_right ms).trans List.perm_middle.symm
    rw [List.foldl_cons]
    exact (ih _ ((hins.map Prod.fst).nodup_iff.mpr hacc)).trans hins

theorem lookup_eq_some_iff (h : (ms.map Prod.fst).Nodup) :
    lookup k ms = some v ↔ (k, v) ∈ ms := by
  induction ms with
  | nil => simp [lookup]
  | cons m ms ih =>
    obtain ⟨k', v'⟩ := m
    rw [List.map_cons, List.nodup_cons] at h
    by_cases hk : k' = k
    · subst hk
      have hrest : (k', v) ∉ ms := fun hm => h.1 (List.mem_map.mpr ⟨_, hm, rfl⟩)
      simp [lookup, hrest, eq_comm]
    · have hne : k ≠ k' := fun he => hk he.symm
      have hrest := ih h.2
      simp only [lookup, List.find?_cons, beq_eq_false_iff_ne.mpr hk] at hrest ⊢
      simp [hrest, hne]

/-- Where no key comes twice, the order of the members does not tell what a key stands for. -/
theorem lookup_of_perm (h : (ms.map Prod.fst).Nodup) (hp : ms'.Perm ms) (k : String) :
    lookup k ms' = lookup k ms := by
  have h' : (ms'.map Prod.fst).Nodup := (hp.map Prod.fst).nodup_iff.mpr h
  apply Option.ext
  intro v
  rw [lookup_eq_some_iff h', lookup_eq_some_iff h, hp.mem_iff]

theorem lookup_sortMembers (h : (ms.map Prod.fst).Nodup) (k : String) :
    lookup k (sortMembers ms) = lookup k ms :=
  lookup_of_perm h (sortMembers_perm h) k

/-- A field of a record is looked up among all members of the object. -/
theorem lookup_fields {names : List String} {r : Record}
    (h : record? names (.object ms) = some r) (hk : k ∈ names) :
    lookup k r.fields = lookup k ms := by
  rw [record?] at h
  split at h
  · obtain rfl := Option.some.inj h
    rw [lookup, lookup, List.find?_filter]
    congr 2
    funext m
    by_cases hm : m.1 = k
    · simp [hm, hk]
    · simp [hm]
  · cases h

/-- A record is read off the members with its names, in any order. -/
theorem record?_of_perm {names : List String} (hk : ms.map Prod.fst = names) (hn : names.Nodup)
    (hp : ms'.Perm ms) :
    ∃ r, record? names (.object ms') = some r ∧ ∀ k, lookup k r.fields = lookup k ms := by
  subst hk
  have hknown : (ms'.filter fun m => (ms.map Prod.fst).contains m.1) = ms' := by
    rw [List.filter_eq_self]
    intro m hm
    rw [List.contains_iff_mem]
    exact List.mem_map_of_mem (hp.mem_iff.mp hm)
  refine ⟨⟨false, ms'⟩, ?_, lookup_of_perm hn hp⟩
  rw [record?, hknown]
  exact if_pos ((hp.map Prod.fst).nodup_iff.mpr hn)

/-- The member that tells a record apart is found among the others, and the others are left. -/
theorem tagged?_of_perm {tag name : String} (h : tag ∉ ms.map Prod.fst)
    (hp : ms'.Perm ((tag, .text name) :: ms)) :
    ∃ body, tagged? tag (.object ms') = some (name, .object body) ∧ body.Perm ms := by
  have hne : ∀ m ∈ ms, m.1 ≠ tag := fun m hm he => h (he ▸ List.mem_map_of_mem hm)
  have htag : (ms'.filter fun m => m.1 == tag) = [(tag, .text name)] := by
    apply List.perm_singleton.mp
    refine (hp.filter _).trans ?_
    rw [List.filter_cons_of_pos (by simp), List.filter_eq_nil_iff.mpr (by simpa using hne)]
  have hbody : (ms'.filter fun m => m.1 != tag).Perm ms := by
    refine (hp.filter _).trans ?_
    rw [List.filter_cons_of_neg (by simp), List.filter_eq_self.mpr (by simpa using hne)]
  refine ⟨_, ?_, hbody⟩
  rw [tagged?, htag]

/-! ### Values in another order -/

/-- A change of order: no member is lost, and none comes in. -/
def Reorders (f : List (String × Json) → List (String × Json)) : Prop :=
  ∀ ms, (ms.map Prod.fst).Nodup → (f ms).Perm ms

theorem reorders_id : Reorders id := fun _ _ => .refl _

theorem reorders_sortMembers : Reorders sortMembers := fun _ => sortMembers_perm

mutual
/-- A value with the members of all its objects in another order. -/
def arrange (f : List (String × Json) → List (String × Json)) : Json → Json
  | .array xs => .array (arrangeItems f xs)
  | .object ms => .object (f (arrangeMembers f ms))
  | .null => .null
  | .bool b => .bool b
  | .int i => .int i
  | .real x => .real x
  | .text s => .text s
  | .unreadable => .unreadable
def arrangeItems (f : List (String × Json) → List (String × Json)) : List Json → List Json
  | [] => []
  | x :: xs => arrange f x :: arrangeItems f xs
def arrangeMembers (f : List (String × Json) → List (String × Json)) :
    List (String × Json) → List (String × Json)
  | [] => []
  | (k, v) :: ms => (k, arrange f v) :: arrangeMembers f ms
end

theorem arrangeItems_eq (f : List (String × Json) → List (String × Json)) (xs : List Json) :
    arrangeItems f xs = xs.map (arrange f) := by
  induction xs with
  | nil => rfl
  | cons x xs ih => rw [arrangeItems, ih, List.map_cons]

theorem arrangeMembers_eq (f : List (String × Json) → List (String × Json))
    (ms : List (String × Json)) :
    arrangeMembers f ms = ms.map fun m => (m.1, arrange f m.2) := by
  induction ms with
  | nil => rfl
  | cons m ms ih => rw [arrangeMembers, ih, List.map_cons]

theorem arrangeMembers_keys (f : List (String × Json) → List (String × Json))
    (ms : List (String × Json)) : (arrangeMembers f ms).map Prod.fst = ms.map Prod.fst := by
  rw [arrangeMembers_eq, List.map_map]
  rfl

theorem lookup_arrangeMembers (f : List (String × Json) → List (String × Json))
    (ms : List (String × Json)) (k : String) :
    lookup k (arrangeMembers f ms) = (lookup k ms).map (arrange f) := by
  rw [arrangeMembers_eq, lookup, lookup, List.find?_map, Option.map_map, Option.map_map]
  rfl

section Reordered

variable {f : List (String × Json) → List (String × Json)}

theorem arrange_object (hf : Reorders f) (ms : List (String × Json))
    (hn : (ms.map Prod.fst).Nodup) :
    ∃ ms', arrange f (.object ms) = .object ms' ∧ ms'.Perm (arrangeMembers f ms) :=
  ⟨_, rfl, hf _ (by rw [arrangeMembers_keys]; exact hn)⟩

/-- An object with one member has one order. -/
theorem arrange_single (hf : Reorders f) (k : String) (v : Json) :
    arrange f (.object [(k, v)]) = .object [(k, arrange f v)] := by
  have hp : (f (arrangeMembers f [(k, v)])).Perm [(k, arrange f v)] :=
    hf _ (List.nodup_singleton k)
  rw [arrange, List.perm_singleton.mp hp]

/-- A record has the fields `ms`, their values in another order. -/
def Record.Shows (r : Record) (f : List (String × Json) → List (String × Json))
    (ms : List (String × Json)) : Prop :=
  ∀ k, lookup k r.fields = (lookup k ms).map (arrange f)

variable {α : Type} {r : Record} {names : List String}

theorem Record.Shows.field? {read : Json → Option α} {a : α} (h : r.Shows f ms) (k : String)
    (hk : lookup k ms = some v) (hv : read (arrange f v) = some a) :
    r.field? k read = some a := by
  rw [Record.field?, h, hk]
  exact hv

theorem Record.Shows.fieldOr? {read : Json → Option α} {a d : α} (h : r.Shows f ms) (k : String)
    (hk : lookup k ms = some v) (hv : read (arrange f v) = some a) :
    r.fieldOr? k d read = some a := by
  rw [Record.fieldOr?, h, hk]
  exact hv

theorem record?_of_perm_arranged (hk : ms.map Prod.fst = names) (hn : names.Nodup)
    (hp : ms'.Perm (arrangeMembers f ms)) :
    ∃ r, record? names (.object ms') = some r ∧ r.Shows f ms := by
  obtain ⟨r, hr, hfields⟩ := record?_of_perm ((arrangeMembers_keys f ms).trans hk) hn hp
  refine ⟨r, hr, ?_⟩
  intro k
  rw [hfields, lookup_arrangeMembers]

theorem record?_arrange (hf : Reorders f) (hk : ms.map Prod.fst = names) (hn : names.Nodup) :
    ∃ r, record? names (arrange f (.object ms)) = some r ∧ r.Shows f ms := by
  obtain ⟨ms', hms, hp⟩ := arrange_object hf ms (hk ▸ hn)
  rw [hms]
  exact record?_of_perm_arranged hk hn hp

end Reordered

/-- A value of words, flags and texts: it is written and read without loss. -/
inductive Plain : Json → Prop
  | null : Plain .null
  | bool (b : Bool) : Plain (.bool b)
  | word {n : Nat} (h : n < UInt64.size) : Plain (.int n)
  | text (s : String) : Plain (.text s)
  | array {xs : List Json} (h : ∀ x ∈ xs, Plain x) : Plain (.array xs)
  | object {ms : List (String × Json)} (h : ∀ m ∈ ms, Plain m.2) : Plain (.object ms)

attribute [simp] Plain.null Plain.bool Plain.text

theorem arrange_id {j : Json} (h : Plain j) : arrange id j = j := by
  induction h with
  | null => rfl
  | bool b => rfl
  | word h => rfl
  | text s => rfl
  | array h ih =>
    rw [arrange, arrangeItems_eq, List.map_congr_left ih, List.map_id']
  | @object ms h ih =>
    have hms : ms.map (fun m => (m.1, arrange id m.2)) = ms.map id := by
      apply List.map_congr_left
      intro m hm
      rw [ih m hm]
      rfl
    rw [arrange, arrangeMembers_eq, hms, List.map_id, id_eq]

/-- Settling a plain value sorts the members of its objects, and does nothing else. -/
theorem settled?_of_plain {j : Json} (h : Plain j) : settled? j = some (arrange sortMembers j) := by
  induction h with
  | null => rfl
  | bool b => rfl
  | word h => rfl
  | text s => rfl
  | @array xs h ih =>
    have hitems : settledItems? xs = some (arrangeItems sortMembers xs) := by
      clear h
      induction xs with
      | nil => rfl
      | cons x xs ihxs =>
        have hx := ih x List.mem_cons_self
        have hxs := ihxs fun y hy => ih y (List.mem_cons_of_mem x hy)
        simp [settledItems?, arrangeItems, hx, hxs]
    rw [settled?, hitems, arrange, Option.map_some]
  | @object ms h ih =>
    have hmembers : settledMembers? ms = some (arrangeMembers sortMembers ms) := by
      clear h
      induction ms with
      | nil => rfl
      | cons m ms ihms =>
        have hm := ih m List.mem_cons_self
        have hms := ihms fun y hy => ih y (List.mem_cons_of_mem m hy)
        simp [settledMembers?, arrangeMembers, hm, hms]
    rw [settled?, hmembers, arrange, Option.map_some]

/-! ### Fields -/

section Fields

variable {α β : Type} {f : List (String × Json) → List (String × Json)} {write : α → Json}

theorem uint32?_ofUInt32 (n : UInt32) : uint32? (ofUInt32 n) = some n := by
  have hn := n.toNat_lt
  have hrange : 0 ≤ (n.toNat : Int) ∧ (n.toNat : Int) < UInt32.size := by
    simp only [UInt32.size]
    omega
  simp only [ofUInt32, uint32?]
  rw [if_pos hrange, Int.toNat_natCast, UInt32.ofNat_toNat]

theorem uint64?_ofUInt64 (n : UInt64) : uint64? (ofUInt64 n) = some n := by
  have hn := n.toNat_lt
  have hrange : 0 ≤ (n.toNat : Int) ∧ (n.toNat : Int) < UInt64.size := by
    simp only [UInt64.size]
    omega
  simp only [ofUInt64, uint64?]
  rw [if_pos hrange, Int.toNat_natCast, UInt64.ofNat_toNat]

theorem uint32?_arrange (n : UInt32) : uint32? (arrange f (ofUInt32 n)) = some n := by
  rw [ofUInt32, arrange]
  exact uint32?_ofUInt32 n

theorem uint64?_arrange (n : UInt64) : uint64? (arrange f (ofUInt64 n)) = some n := by
  rw [ofUInt64, arrange]
  exact uint64?_ofUInt64 n

/-- An optional field is told from null where no value is read off null. -/
theorem nullable?_arrange {read : Json → Option α} (hn : read .null = none)
    (h : ∀ a, read (arrange f (write a)) = some a) (a : Option α) :
    nullable? read (arrange f (ofOption write a)) = some a := by
  cases a with
  | none => rfl
  | some a =>
    have hne : arrange f (write a) ≠ .null := by
      intro he
      have ha := h a
      rw [he, hn] at ha
      cases ha
    rw [ofOption, nullable?, h a]
    · rfl
    · exact hne

theorem items?_arrange {read : Json → Option β} {g : α → β} {xs : List α}
    (h : ∀ x ∈ xs, read (arrange f (write x)) = some (g x)) :
    items? read (arrange f (.array (xs.map write))) = some (xs.map g) := by
  rw [arrange, arrangeItems_eq, items?, List.map_map]
  induction xs with
  | nil => rfl
  | cons x xs ih =>
    have hx := h x List.mem_cons_self
    have hxs := ih fun y hy => h y (List.mem_cons_of_mem x hy)
    simp only [List.map_cons, List.mapM_cons, Function.comp_apply, hx, hxs, Option.bind_eq_bind,
      Option.bind_some, Option.pure_def]

@[simp] theorem plain_ofUInt32 (n : UInt32) : Plain (ofUInt32 n) := by
  have hn := n.toNat_lt
  exact .word (by simp only [UInt64.size]; omega)

@[simp] theorem plain_ofUInt64 (n : UInt64) : Plain (ofUInt64 n) := .word n.toNat_lt

theorem plain_ofOption (h : ∀ a, Plain (write a)) (a : Option α) : Plain (ofOption write a) := by
  cases a with
  | none => exact .null
  | some a => exact h a

end Fields

end Marginalia.Json
