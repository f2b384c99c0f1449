import Marginalia.Config
import Marginalia.Proofs.Text.Utf8

/-! Which file the configuration comes from. The first file decides alone, whatever is in it, unless
it is no text and there are other files behind it. -/

namespace Marginalia.Config

open Text.Utf8 (decode? encode)

variable {α : Type} {read read' : α → Option (List UInt8)} {before paths later : List α} {p q : α}
  {bytes : List UInt8} {cs : List Char}

/-- The first file at some paths, and the paths behind it. -/
structure FirstFile (read : α → Option (List UInt8)) (paths : List α) (p : α)
    (bytes : List UInt8) (later : List α) : Prop where
  place : ∃ before, paths = before ++ p :: later ∧ ∀ q ∈ before, read q = none
  found : read p = some bytes

/-- Two file systems that have files at the same of some paths, and the same first file. -/
structure SameFirst (read read' : α → Option (List UInt8)) (paths : List α) : Prop where
  exist : ∀ q ∈ paths, (read q).isSome = (read' q).isSome
  first : ∀ p bytes later, FirstFile read paths p bytes later → read' p = some bytes

/-- The configuration that the bytes of a file hold. -/
def ofBytes? (bytes : List UInt8) : Option Config :=
  (decode? bytes).bind fun cs => parse? (String.ofList cs)

/-- The first file decides alone: another file system with the same first file has the same
configuration, and a first file without a configuration gives the default one. -/
structure DecidedByFirst (read : α → Option (List UInt8)) (paths : List α) : Prop where
  alone : ∀ read', SameFirst read read' paths → load read' paths = load read paths
  invalid : ∀ p bytes later, FirstFile read paths p bytes later → ofBytes? bytes = none →
    load read paths = default

theorem load_nil : load read ([] : List α) = default := rfl

theorem load_cons_none (hp : (read p).bind decode? = none) :
    load read (p :: paths) = load read paths := by
  rw [load, load, firstText?, hp]

theorem load_cons_some (hp : (read p).bind decode? = some cs) :
    load read (p :: paths) = (parse? (String.ofList cs)).getD default := by
  rw [load, firstText?, hp]

/-- Paths without a text are passed over. -/
theorem load_past (hb : ∀ q ∈ before, (read q).bind decode? = none) :
    load read (before ++ paths) = load read paths := by
  induction before with
  | nil => rfl
  | cons q before ih =>
    obtain ⟨hq, hb⟩ := List.forall_mem_cons.mp hb
    rw [List.cons_append, load_cons_none hq, ih hb]

theorem load_no_text (h : ∀ q ∈ paths, (read q).bind decode? = none) :
    load read paths = default := by
  have hpast : load read (paths ++ []) = load read [] := load_past h
  rwa [List.append_nil, load_nil] at hpast

theorem load_no_file (h : ∀ q ∈ paths, read q = none) : load read paths = default := by
  refine load_no_text fun q hq => ?_
  rw [h q hq]
  rfl

theorem FirstFile.load_eq (h : FirstFile read paths p bytes later) :
    load read paths = load read (p :: later) := by
  obtain ⟨before, rfl, hb⟩ := h.place
  refine load_past fun q hq => ?_
  rw [hb q hq]
  rfl

/-- A first file that is a text decides. -/
theorem FirstFile.load_text (h : FirstFile read paths p bytes later)
    (ht : decode? bytes = some cs) : load read paths = (parse? (String.ofList cs)).getD default := by
  rw [h.load_eq]
  refine load_cons_some ?_
  rw [h.found]
  exact ht

/-- A first file that is no text is passed over. -/
theorem FirstFile.load_no_text (h : FirstFile read paths p bytes later)
    (ht : decode? bytes = none) : load read paths = load read later := by
  rw [h.load_eq]
  refine load_cons_none ?_
  rw [h.found]
  exact ht

theorem exists_firstFile (read : α → Option (List UInt8)) (paths : List α) :
    (∀ q ∈ paths, read q = none) ∨ ∃ p bytes later, FirstFile read paths p bytes later := by
  induction paths with
  | nil => exact Or.inl (by simp)
  | cons q paths ih =>
    cases hq : read q with
    | some bytes => exact Or.inr ⟨q, bytes, paths, ⟨[], rfl, by simp⟩, hq⟩
    | none =>
      rcases ih with hnone | ⟨p, bytes, later, ⟨before, rfl, hb⟩, hp⟩
      · exact Or.inl (List.forall_mem_cons.mpr ⟨hq, hnone⟩)
      · exact Or.inr ⟨p, bytes, later, ⟨q :: before, rfl, List.forall_mem_cons.mpr ⟨hq, hb⟩⟩, hp⟩

theorem FirstFile.mem_of_later (h : FirstFile read paths p bytes later) (hq : q ∈ later) :
    q ∈ paths := by
  obtain ⟨before, rfl, -⟩ := h.place
  exact List.mem_append_right before (List.mem_cons_of_mem p hq)

theorem FirstFile.find? (h : FirstFile read paths p bytes later) :
    paths.find? (fun q => (read q).isSome) = some p := by
  obtain ⟨before, rfl, hb⟩ := h.place
  have hbefore : before.find? (fun q => (read q).isSome) = none := by
    rw [List.find?_eq_none]
    intro q hq
    rw [hb q hq]
    simp
  have hp : (read p).isSome = true := by
    rw [h.found]
    rfl
  rw [List.find?_append, hbefore, Option.none_or]
  exact List.find?_cons_of_pos hp

theorem SameFirst.eq_none (h : SameFirst read read' paths) (hq : q ∈ paths)
    (hnone : read q = none) : read' q = none := by
  have hexist := h.exist q hq
  rw [hnone] at hexist
  exact Option.isNone_iff_eq_none.mp (Option.isSome_eq_false_iff.mp hexist.symm)

/-- The first file stays the first one in a file system with the same first file. -/
theorem SameFirst.firstFile (h : SameFirst read read' paths)
    (hp : FirstFile read paths p bytes later) : FirstFile read' paths p bytes later where
  place := by
    obtain ⟨before, hpaths, hb⟩ := hp.place
    refine ⟨before, hpaths, fun q hq => ?_⟩
    have hmem : q ∈ paths := hpaths ▸ List.mem_append_left _ hq
    exact h.eq_none hmem (hb q hq)
  found := h.first p bytes later hp

/-! ### Files behind the first -/

/-- Where all texts are the same one, that one decides. -/
theorem load_one_text
    (hall : ∀ q ∈ paths, (read q).bind decode? = none ∨ (read q).bind decode? = some cs)
    (hsome : ∃ q ∈ paths, (read q).bind decode? = some cs) :
    load read paths = (parse? (String.ofList cs)).getD default := by
  induction paths with
  | nil => simp at hsome
  | cons q paths ih =>
    obtain ⟨hq, hall⟩ := List.forall_mem_cons.mp hall
    rcases hq with hq | hq
    · rw [load_cons_none hq]
      refine ih hall ?_
      obtain ⟨q', hq', htext⟩ := hsome
      rcases List.mem_cons.mp hq' with rfl | hq'
      · rw [hq] at htext
        cases htext
      · exact ⟨q', hq', htext⟩
    · exact load_cons_some hq

open Classical in
/-- The file system in which all files but the one at a path have been overwritten by a text. -/
noncomputable def overwritten (read : α → Option (List UInt8)) (p : α) (s : String) :
    α → Option (List UInt8) :=
  fun q => if q = p then read p else (read q).map fun _ => encode s

theorem overwritten_self (read : α → Option (List UInt8)) (p : α) (s : String) :
    overwritten read p s p = read p := if_pos rfl

theorem overwritten_of_ne (h : q ≠ p) (s : String) :
    overwritten read p s q = (read q).map fun _ => encode s := if_neg h

theorem sameFirst_overwritten (h : FirstFile read paths p bytes later) (s : String) :
    SameFirst read (overwritten read p s) paths where
  exist q _ := by
    by_cases hq : q = p
    · rw [hq, overwritten_self]
    · rw [overwritten_of_ne hq, Option.isSome_map]
  first p' bytes' later' h' := by
    obtain rfl : p = p' := Option.some.inj (h.find?.symm.trans h'.find?)
    rw [overwritten_self]
    exact h'.found

theorem load_overwritten (h : FirstFile read paths p bytes later) (ht : decode? bytes = none)
    (hq : q ∈ later) (hfile : (read q).isSome = true) (hne : q ≠ p) (s : String) :
    load (overwritten read p s) paths = (parse? s).getD default := by
  have htext (q : α) (hne : q ≠ p) (hfile : (read q).isSome = true) :
      (overwritten read p s q).bind decode? = some s.toList := by
    obtain ⟨bytes, hbytes⟩ := Option.isSome_iff_exists.mp hfile
    rw [overwritten_of_ne hne, hbytes, Option.map_some, Option.bind_some,
      Text.Utf8.decode?_encode]
  have hall : ∀ q' ∈ later, (overwritten read p s q').bind decode? = none ∨
      (overwritten read p s q').bind decode? = some s.toList := by
    intro q' _
    by_cases hq' : q' = p
    · rw [hq', overwritten_self, h.found]
      exact Or.inl ht
    · cases hfile' : read q' with
      | none =>
        rw [overwritten_of_ne hq', hfile']
        exact Or.inl rfl
      | some bytes' => exact Or.inr (htext q' hq' (by rw [hfile']; rfl))
  rw [((sameFirst_overwritten h s).firstFile h).load_no_text ht,
    load_one_text hall ⟨q, hq, htext q hne hfile⟩, String.ofList_toList]

/-- Files behind a first one that is no text are not told apart by that one. -/
theorem eq_of_decidedByFirst (hd : DecidedByFirst read paths)
    (h : FirstFile read paths p bytes later) (ht : decode? bytes = none) (hq : q ∈ later)
    (hfile : (read q).isSome = true) : q = p := by
  apply Classical.byContradiction
  intro hne
  have hload (s : String) : (parse? s).getD default = load read paths := by
    rw [← hd.alone _ (sameFirst_overwritten h s), load_overwritten h ht hq hfile hne]
  have hlines := congrArg revealLines
    ((hload "expand_context_lines = 1").trans (hload "expand_context_lines = 2").symm)
  revert hlines
  decide +kernel

theorem decidedByFirst_of_text (h : FirstFile read paths p bytes later)
    (ht : (decode? bytes).isSome = true) : DecidedByFirst read paths := by
  obtain ⟨cs, hcs⟩ := Option.isSome_iff_exists.mp ht
  refine ⟨fun read' hsame => ?_, fun p' bytes' later' h' hinvalid => ?_⟩
  · rw [(hsame.firstFile h).load_text hcs, h.load_text hcs]
  · obtain rfl : p = p' := Option.some.inj (h.find?.symm.trans h'.find?)
    obtain rfl : bytes = bytes' := Option.some.inj (h.found.symm.trans h'.found)
    rw [ofBytes?, hcs, Option.bind_some] at hinvalid
    rw [h.load_text hcs, hinvalid, Option.getD_none]

/-- A first file with no other one behind it, which is no text. -/
theorem load_only_file (h : FirstFile read paths p bytes later) (ht : decode? bytes = none)
    (honly : ∀ q ∈ later, (read q).isSome = true → q = p) : load read paths = default := by
  rw [h.load_no_text ht]
  refine load_no_text fun q hq => ?_
  cases hbytes : read q with
  | none => rfl
  | some bytes' =>
    obtain rfl := honly q hq (by rw [hbytes]; rfl)
    obtain rfl : bytes = bytes' := Option.some.inj (h.found.symm.trans hbytes)
    exact ht

theorem decidedByFirst_of_only_file (h : FirstFile read paths p bytes later)
    (ht : decode? bytes = none) (honly : ∀ q ∈ later, (read q).isSome = true → q = p) :
    DecidedByFirst read paths := by
  have hdefault := load_only_file h ht honly
  refine ⟨fun read' hsame => ?_, fun _ _ _ _ _ => hdefault⟩
  rw [hdefault]
  refine load_only_file (hsame.firstFile h) ht fun q hq hfile => ?_
  rw [← hsame.exist q (h.mem_of_later hq)] at hfile
  exact honly q hq hfile

theorem decidedByFirst_of_no_file (h : ∀ q ∈ paths, read q = none) :
    DecidedByFirst read paths := by
  refine ⟨fun read' hsame => ?_, fun _ _ _ _ _ => load_no_file h⟩
  rw [load_no_file h]
  exact load_no_file fun q hq => hsame.eq_none hq (h q hq)

/-- The first file decides alone exactly where it is a text or no other file is behind it. A text is
the configuration that it holds, and the default one where it holds none; a file that is no text
is passed over like a path without a file. -/
theorem decidedByFirst_iff (read : α → Option (List UInt8)) (paths : List α) :
    (DecidedByFirst read paths ↔ ∀ p bytes later, FirstFile read paths p bytes later →
      (decode? bytes).isSome = true ∨ ∀ q ∈ later, (read q).isSome = true → q = p) ∧
    (∀ p bytes later, FirstFile read paths p bytes later →
      load read paths = if (decode? bytes).isSome = true then (ofBytes? bytes).getD default
        else load read later) ∧
    ((∀ q ∈ paths, read q = none) → load read paths = default) := by
  refine ⟨⟨fun hd p bytes later h => ?_, fun h => ?_⟩, fun p bytes later h => ?_, fun h => ?_⟩
  · cases ht : decode? bytes with
    | none => exact Or.inr fun q hq hfile => eq_of_decidedByFirst hd h ht hq hfile
    | some cs => exact Or.inl rfl
  · rcases exists_firstFile read paths with hnone | ⟨p, bytes, later, hfirst⟩
    · exact decidedByFirst_of_no_file hnone
    · cases ht : decode? bytes with
      | none =>
        rcases h p bytes later hfirst with htext | honly
        · rw [ht] at htext
          cases htext
        · exact decidedByFirst_of_only_file hfirst ht honly
      | some cs => exact decidedByFirst_of_text hfirst (by rw [ht]; rfl)
  · cases ht : decode? bytes with
    | none => exact h.load_no_text ht
    | some cs =>
      rw [h.load_text ht, ofBytes?, ht]
      rfl
  · exact load_no_file h

/-- A file whose one byte is no character, and a configuration behind it, which is taken. By itself
the first file gives the default one. -/
theorem not_decidedByFirst_broken_text :
    let read (path : String) : Option (List UInt8) :=
      if path = ".diff-review.toml" then some [0xFF]
      else if path = "/home/.diff-review.toml" then some (encode "expand_context_lines = 5")
      else none
    let paths := [".diff-review.toml", "/home/.diff-review.toml"]
    ofBytes? [0xFF] = none ∧ (load read paths).revealLines = 5 ∧ default.revealLines = 20 ∧
      ¬ DecidedByFirst read paths := by
  intro read paths
  have hinvalid : ofBytes? [0xFF] = none := by
    have hbroken : decode? [0xFF] = none := by decide +kernel
    rw [ofBytes?, hbroken, Option.bind_none]
  have hlines : (load read paths).revealLines = 5 := by decide +kernel
  have hdefault : default.revealLines = 20 := rfl
  have hfirst : FirstFile read paths ".diff-review.toml" [0xFF] ["/home/.diff-review.toml"] :=
    ⟨⟨[], rfl, by simp⟩, rfl⟩
  refine ⟨hinvalid, hlines, hdefault, fun hd => ?_⟩
  rw [hd.invalid _ _ _ hfirst hinvalid, hdefault] at hlines
  exact absurd hlines (by decide)

end Marginalia.Config
