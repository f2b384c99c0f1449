import Marginalia.Text.Blank
import Marginalia.Proofs.Text.Runs

/-! Texts up to their white space: runs of it count as one space, and none counts at either end. -/

namespace Marginalia.Text

/-- The text without the spaces in front. -/
def dropGap (s : List Char) : List Char := s.dropWhile (· = ' ')

/-- Every run of white space as one space. -/
def squeeze : List Char → List Char
  | [] => []
  | c :: cs => if isBlank c then ' ' :: dropGap (squeeze cs) else c :: squeeze cs

/-- A text with runs of white space collapsed, and cut of it at both ends. -/
def collapse (s : List Char) : List Char := trim (squeeze s)

/-- Two texts differ in the length and the kind of their runs of white space alone. -/
def SameWords (s t : List Char) : Prop := squeeze s = squeeze t

def IsGap (w : List Char) : Prop := ∀ c ∈ w, isBlank c = true

variable {a a' b b' s t w : List Char} {c d : Char}

@[simp] theorem isGap_nil : IsGap [] := by simp [IsGap]

theorem IsGap.append (ha : IsGap a) (hb : IsGap b) : IsGap (a ++ b) :=
  List.forall_mem_append.mpr ⟨ha, hb⟩

@[simp] theorem isBlank_space : isBlank ' ' = true := by decide

theorem isBlank_of_isDigit (hc : isDigit c = true) : isBlank c = false := by
  simp only [isDigit, Bool.and_eq_true, decide_eq_true_eq, Char.le_def,
    UInt32.le_iff_toNat_le] at hc
  have hlow : 48 ≤ c.toNat := hc.1
  have hhigh : c.toNat ≤ 57 := hc.2
  simp [isBlank]
  omega

@[simp] theorem dropGap_space : dropGap (' ' :: s) = dropGap s := by simp [dropGap]

theorem dropGap_dropGap (s : List Char) : dropGap (dropGap s) = dropGap s := by
  induction s with
  | nil => rfl
  | cons c s ih =>
    by_cases hc : c = ' '
    · subst hc
      rw [dropGap_space, ih]
    · simp [dropGap, hc]

theorem squeeze_blank (hc : isBlank c = true) (s : List Char) :
    squeeze (c :: s) = ' ' :: dropGap (squeeze s) := by
  simp [squeeze, hc]

theorem squeeze_nonblank (hc : isBlank c = false) (s : List Char) :
    squeeze (c :: s) = c :: squeeze s := by
  simp [squeeze, hc]

namespace SameWords

theorem refl (s : List Char) : SameWords s s := rfl

theorem symm (h : SameWords s t) : SameWords t s := Eq.symm h

theorem trans {u : List Char} (h : SameWords s t) (h' : SameWords t u) : SameWords s u :=
  Eq.trans h h'

theorem cons (c : Char) (h : SameWords s t) : SameWords (c :: s) (c :: t) := by
  unfold SameWords at h ⊢
  rw [squeeze, squeeze, h]

theorem append_left (a : List Char) (h : SameWords b b') : SameWords (a ++ b) (a ++ b') := by
  induction a with
  | nil => exact h
  | cons c a ih => exact ih.cons c

end SameWords

theorem dropGap_squeeze_dropGap (a b : List Char) :
    dropGap (squeeze (dropGap a ++ b)) = dropGap (squeeze (a ++ b)) := by
  induction a with
  | nil => rfl
  | cons c a ih =>
    by_cases hc : c = ' '
    · subst hc
      rw [dropGap_space, ih, List.cons_append, squeeze_blank isBlank_space, dropGap_space,
        dropGap_dropGap]
    · simp [dropGap, hc]

theorem squeeze_squeeze_append (a b : List Char) : squeeze (squeeze a ++ b) = squeeze (a ++ b) := by
  induction a with
  | nil => rfl
  | cons c a ih =>
    cases hc : isBlank c with
    | true =>
      rw [squeeze_blank hc, List.cons_append, List.cons_append, squeeze_blank isBlank_space,
        squeeze_blank hc, dropGap_squeeze_dropGap, ih]
    | false =>
      rw [squeeze_nonblank hc, List.cons_append, List.cons_append, squeeze_nonblank hc,
        squeeze_nonblank hc, ih]

theorem SameWords.append (ha : SameWords a a') (hb : SameWords b b') :
    SameWords (a ++ b) (a' ++ b') := by
  have hleft : SameWords (a ++ b) (a' ++ b) := by
    unfold SameWords at ha ⊢
    rw [← squeeze_squeeze_append a, ← squeeze_squeeze_append a', ha]
  exact hleft.trans (hb.append_left a')

theorem squeeze_gap (hw : IsGap w) (hne : w ≠ []) : squeeze w = [' '] := by
  induction w with
  | nil => exact absurd rfl hne
  | cons c w ih =>
    rw [squeeze_blank (hw c List.mem_cons_self)]
    by_cases h : w = []
    · subst h
      rfl
    · rw [ih (fun d hd => hw d (List.mem_cons_of_mem c hd)) h]
      rfl

/-- Gaps that are not empty are alike. -/
theorem sameWords_gap (ha : IsGap a) (hb : IsGap b) (h : a ≠ [] ↔ b ≠ []) : SameWords a b := by
  unfold SameWords
  by_cases hne : a = []
  · have hnb : b = [] := by simpa [hne] using h
    rw [hne, hnb]
  · rw [squeeze_gap ha hne, squeeze_gap hb (h.mp hne)]

theorem trim_cons_space (s : List Char) : trim (' ' :: s) = trim s := by
  simp [trim, trimStart]

theorem trimStart_dropGap (s : List Char) : trimStart (dropGap s) = trimStart s := by
  induction s with
  | nil => rfl
  | cons c s ih =>
    by_cases hc : c = ' '
    · subst hc
      rw [dropGap_space, ih]
      simp [trimStart]
    · simp [dropGap, hc]

theorem trimEnd_append_space (s : List Char) : trimEnd (s ++ [' ']) = trimEnd s := by
  simp [trimEnd, dropEnd]

theorem trim_append_space (s : List Char) : trim (s ++ [' ']) = trim s := by
  have hstart : trimStart (s ++ [' ']) = trimStart s ++ [' '] ∨
      trimStart (s ++ [' ']) = [] ∧ trimStart s = [] := by
    induction s with
    | nil => exact Or.inr ⟨by simp [trimStart], rfl⟩
    | cons c s ih =>
      cases hc : isBlank c with
      | true => simpa [trimStart, hc] using ih
      | false => simp [trimStart, hc]
  unfold trim
  rcases hstart with h | ⟨h, h'⟩
  · rw [h, trimEnd_append_space]
  · rw [h, h']

theorem squeeze_append_gap (s : List Char) (hw : IsGap w) :
    squeeze (s ++ w) = squeeze s ∨ squeeze (s ++ w) = squeeze s ++ [' '] := by
  induction s with
  | nil =>
    by_cases h : w = []
    · exact Or.inl (by simp [h])
    · exact Or.inr (squeeze_gap hw h)
  | cons c s ih =>
    rw [List.cons_append]
    cases hc : isBlank c with
    | false =>
      rw [squeeze_nonblank hc, squeeze_nonblank hc]
      rcases ih with h | h
      · exact Or.inl (by rw [h])
      · exact Or.inr (by rw [h, List.cons_append])
    | true =>
      rw [squeeze_blank hc, squeeze_blank hc]
      rcases ih with h | h
      · exact Or.inl (by rw [h])
      · rw [h]
        unfold dropGap
        rw [List.dropWhile_append]
        split
        · next he =>
          have hnil : (squeeze s).dropWhile (· = ' ') = [] := by simpa using he
          exact Or.inl (by simp [hnil])
        · exact Or.inr rfl

/-- White space around a text does not count. -/
theorem collapse_between (ha : IsGap a) (hb : IsGap b) (s : List Char) :
    collapse (a ++ s ++ b) = collapse s := by
  have hend : collapse (a ++ s ++ b) = collapse (a ++ s) := by
    unfold collapse
    rcases squeeze_append_gap (a ++ s) hb with h | h
    · rw [h]
    · rw [h, trim_append_space]
  rw [hend]
  induction a with
  | nil => rfl
  | cons c a ih =>
    have hc := ha c List.mem_cons_self
    rw [← ih (fun d hd => ha d (List.mem_cons_of_mem c hd)) ?_]
    · unfold collapse
      rw [List.cons_append, squeeze_blank hc, trim_cons_space, trim, trimStart_dropGap, ← trim]
    · unfold collapse
      rcases squeeze_append_gap (a ++ s) hb with h | h
      · rw [h]
      · rw [h, trim_append_space]

theorem SameWords.collapse (h : SameWords s t) : Text.collapse s = Text.collapse t := by
  unfold Text.collapse
  rw [h]

theorem collapse_gap (hw : IsGap w) : collapse w = [] := by
  have h := collapse_between hw isGap_nil []
  rw [List.append_nil, List.append_nil] at h
  rw [h]
  rfl

theorem mem_squeeze (hc : c ∈ s) (hb : isBlank c = false) : c ∈ squeeze s := by
  have hdrop {u : List Char} (hu : c ∈ u) : c ∈ dropGap u := by
    induction u with
    | nil => cases hu
    | cons d u ih =>
      by_cases hd : d = ' '
      · subst hd
        rcases List.mem_cons.mp hu with rfl | hu
        · rw [isBlank_space] at hb
          cases hb
        · rw [dropGap_space]
          exact ih hu
      · simpa [dropGap, hd] using hu
  induction s with
  | nil => cases hc
  | cons d s ih =>
    cases hd : isBlank d with
    | true =>
      rw [squeeze_blank hd]
      rcases List.mem_cons.mp hc with rfl | hc
      · rw [hb] at hd
        cases hd
      · exact List.mem_cons_of_mem _ (hdrop (ih hc))
    | false =>
      rw [squeeze_nonblank hd]
      rcases List.mem_cons.mp hc with rfl | hc
      · exact List.mem_cons_self
      · exact List.mem_cons_of_mem d (ih hc)

/-- What is alike to a gap is one. -/
theorem SameWords.isGap (h : SameWords s w) (hw : IsGap w) : IsGap s := by
  intro c hc
  cases hb : isBlank c with
  | true => rfl
  | false =>
    have hm := mem_squeeze hc hb
    rw [h] at hm
    by_cases hne : w = []
    · subst hne
      cases hm
    · rw [squeeze_gap hw hne] at hm
      obtain rfl := List.mem_singleton.mp hm
      rw [isBlank_space] at hb
      cases hb

/-- A text is what is left between the white space cut off. -/
theorem trim_between (s : List Char) : ∃ a b, s = a ++ trim s ++ b ∧ IsGap a ∧ IsGap b := by
  have hstart : s = s.takeWhile isBlank ++ trimStart s := List.takeWhile_append_dropWhile.symm
  have hrev : (trimStart s).reverse =
      (trimStart s).reverse.takeWhile isBlank ++ (trimStart s).reverse.dropWhile isBlank :=
    List.takeWhile_append_dropWhile.symm
  have hend := congrArg List.reverse hrev
  rw [List.reverse_reverse, List.reverse_append] at hend
  refine ⟨s.takeWhile isBlank, ((trimStart s).reverse.takeWhile isBlank).reverse, ?_, ?_, ?_⟩
  · rw [List.append_assoc]
    exact hstart.trans (congrArg _ hend)
  · exact List.all_eq_true.mp List.all_takeWhile
  · intro c hc
    exact List.all_eq_true.mp List.all_takeWhile c (List.mem_reverse.mp hc)

/-- White space around a text that neither begins nor ends with it is cut off. -/
theorem trim_surrounded (ha : IsGap a) (hb : IsGap b) (hs : Stops isBlank s)
    (he : Stops isBlank s.reverse) : trim (a ++ s ++ b) = s := by
  have hback : ∀ c ∈ b.reverse, isBlank c = true := fun c hc => hb c (List.mem_reverse.mp hc)
  unfold trim trimStart trimEnd dropEnd
  rw [List.append_assoc, List.dropWhile_append_of_pos ha]
  by_cases hne : s = []
  · have hnil := dropWhile_run hb stops_nil
    rw [List.append_nil] at hnil
    rw [hne, List.nil_append, hnil]
    rfl
  · rw [dropWhile_eq_self (stops_append hs hne), List.reverse_append, dropWhile_run hback he,
      List.reverse_reverse]

/-- Texts without white space stay as they are. -/
theorem trim_eq_self (h : ∀ c ∈ s, isBlank c = false) : trim s = s := by
  have hs : Stops isBlank s := fun c hc => h c (List.mem_of_mem_head? hc)
  have he : Stops isBlank s.reverse := fun c hc =>
    h c (List.mem_reverse.mp (List.mem_of_mem_head? hc))
  simpa using trim_surrounded isGap_nil isGap_nil hs he

theorem collapse_trim (s : List Char) : collapse (trim s) = collapse s := by
  obtain ⟨a, b, hs, ha, hb⟩ := trim_between s
  calc collapse (trim s) = collapse (a ++ trim s ++ b) := (collapse_between ha hb _).symm
    _ = collapse s := by rw [← hs]

end Marginalia.Text
