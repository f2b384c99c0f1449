import Marginalia.Notebook
import Mathlib.Data.List.Forall2

/-!
What the texts of a notebook can do to the markup of its lines. Between tags they are escaped and
add none. An image is one tag, with the media type and the data of a form in a quoted attribute
just as they are, so these can end it: two notebooks of one shape have the same markup exactly if
their images agree in brackets and quotes.
-/

namespace Marginalia

open List (Forall₂)
open Text (escapeChars escapeChar)

namespace Notebook

/-- The brackets of a text, which begin and end its tags. -/
def brackets (l : List Char) : List Char := l.filter fun c => c == '<' || c == '>'

def isImage (l : List Char) : Bool := Text.startsWith "<img ".toList l

/-- Two texts have the same brackets in a row, and equally many quotes. -/
structure SameMarks (k l : List Char) : Prop where
  brackets : brackets k = brackets l
  quotes : k.count '"' = l.count '"'

/-- Two lines have the same brackets in a row, and images also equally many quotes. -/
structure Alike (k l : List Char) : Prop where
  brackets : brackets k = brackets l
  quotes : isImage k → isImage l → k.count '"' = l.count '"'

/-- Two lines that can differ in their markup only if both are images. -/
structure Matched (k l : List Char) : Prop where
  image : isImage k = isImage l
  brackets : isImage k = false → brackets k = brackets l

/-- What an image takes from the forms of an output: the media type and the data. -/
def picture? (forms : List (String × Json)) : Option (List Char × List Char) :=
  (chosenForm? forms).bind fun (media, value) =>
    if Text.startsWith "image/".toList media.toList then
      some (media.toList, Text.trim (formText value))
    else none

/-- Two lists of forms are both empty or not, and both shown as an image or not. -/
structure SameForms (fs gs : List (String × Json)) : Prop where
  present : fs.isEmpty = gs.isEmpty
  pictured : (picture? fs).isSome = (picture? gs).isSome

/-- The line of an image. -/
def pictureLine (p : List Char × List Char) : List Char :=
  "<img src=\"data:".toList ++ p.1 ++ ";base64, ".toList ++ p.2 ++
    "\" alt=\"cell output\" />".toList

end Notebook

/-- Outputs of one kind, number and choice of an image, whatever their texts are. -/
inductive CellOutput.SameShape : CellOutput → CellOutput → Prop where
  | value {fs gs : List (String × Json)} {count : Option UInt64}
      (forms : Notebook.SameForms fs gs) : SameShape (.value fs count) (.value gs count)
  | shown {fs gs : List (String × Json)}
      (forms : Notebook.SameForms fs gs) : SameShape (.shown fs) (.shown gs)
  | stream {s t : NotebookText} : SameShape (.stream s) (.stream t)
  | failure {s t : String} : SameShape (.failure s) (.failure t)

/-- Cells of code or of plain text with equally many lines, and with outputs of one shape. -/
inductive NotebookCell.SameShape : NotebookCell → NotebookCell → Prop where
  | code {s t : NotebookText} {count : Option UInt64} {os ps : List CellOutput}
      (lines : s.lines.length = t.lines.length) (outputs : Forall₂ CellOutput.SameShape os ps) :
      SameShape (.code s count os) (.code t count ps)
  | raw {s t : NotebookText} (lines : s.lines.length = t.lines.length) :
      SameShape (.raw s) (.raw t)

def CellOutput.picture? : CellOutput → Option (List Char × List Char)
  | .value forms _ => Notebook.picture? forms
  | .shown forms => Notebook.picture? forms
  | _ => none

def NotebookCell.pictures : NotebookCell → List (List Char × List Char)
  | .code _ _ outputs => outputs.filterMap CellOutput.picture?
  | _ => []

namespace Notebook

/-- The media type and the data of all images, in the order of their lines. -/
def pictures (n : Notebook) : List (List Char × List Char) :=
  n.cells.flatMap NotebookCell.pictures

variable {k l : List Char} {fs gs : List (String × Json)} {o o' : CellOutput}
  {c d : NotebookCell}

/-! ### Brackets of a line -/

@[simp] theorem brackets_append (k l : List Char) :
    brackets (k ++ l) = brackets k ++ brackets l := List.filter_append ..

theorem brackets_escapeChar (c : Char) : brackets (escapeChar c) = [] := by
  unfold escapeChar
  split
  · rfl
  split
  · rfl
  split
  · rfl
  · next hless hgreater => simp [brackets, hless, hgreater]

@[simp] theorem brackets_escapeChars (l : List Char) : brackets (escapeChars l) = [] := by
  induction l with
  | nil => rfl
  | cons c l ih =>
    show brackets (escapeChar c ++ escapeChars l) = []
    rw [brackets_append, brackets_escapeChar, ih, List.append_nil]

theorem brackets_around (h : brackets k = brackets l) (a b : List Char) :
    brackets (a ++ k ++ b) = brackets (a ++ l ++ b) := by
  simp [h]

theorem brackets_escaped (k l : List Char) :
    brackets (escapeChars k) = brackets (escapeChars l) := by
  simp

/-! ### Lines that match -/

theorem Matched.refl (l : List Char) : Matched l l := ⟨rfl, fun _ => rfl⟩

theorem matched_of_brackets (hk : isImage k = false) (hl : isImage l = false)
    (h : brackets k = brackets l) : Matched k l := ⟨hk.trans hl.symm, fun _ => h⟩

theorem matched_inDiv_escaped (k l : List Char) :
    Matched (inDiv (escapeChars k)) (inDiv (escapeChars l)) :=
  matched_of_brackets rfl rfl (brackets_around (brackets_escaped k l) ..)

theorem brackets_spaced_escaped (k l : List Char) :
    brackets (spaced (escapeChars k)) = brackets (spaced (escapeChars l)) :=
  brackets_around (brackets_escaped k l) ..

theorem matched_spaced_escaped (k l : List Char) :
    Matched (spaced (escapeChars k)) (spaced (escapeChars l)) :=
  matched_of_brackets rfl rfl (brackets_spaced_escaped k l)

theorem matched_pictureLine (p q : List Char × List Char) :
    Matched (pictureLine p) (pictureLine q) := ⟨rfl, fun h => nomatch h⟩

/-- Lines that match are alike as soon as the images among them are. -/
theorem forall₂_alike_iff {ks ls : List (List Char)} (h : Forall₂ Matched ks ls) :
    Forall₂ Alike ks ls ↔ Forall₂ Alike (ks.filter isImage) (ls.filter isImage) := by
  induction h with
  | nil => simp
  | @cons k l ks ls hkl _ ih =>
    -- A pair that is no image is alike already, and drops out of both filtered lists at once.
    cases hk : isImage k with
    | false =>
      have hl : isImage l = false := by rw [← hkl.image, hk]
      have halike : Alike k l := ⟨hkl.brackets hk, fun h => absurd h (by simp [hk])⟩
      simp [hk, hl, halike, ih]
    | true =>
      have hl : isImage l = true := by rw [← hkl.image, hk]
      simp [hk, hl, ih]

theorem brackets_between {a b c : List Char} (ha : brackets a = ['<']) (hb : brackets b = [])
    (hc : brackets c = ['>']) (k l : List Char) :
    brackets (a ++ k ++ b ++ l ++ c) = '<' :: (brackets (k ++ l) ++ ['>']) := by
  simp [ha, hb, hc]

theorem brackets_pictureLine (p : List Char × List Char) :
    brackets (pictureLine p) = '<' :: (brackets (p.1 ++ p.2) ++ ['>']) :=
  brackets_between (by decide) (by decide) (by decide) p.1 p.2

theorem quotes_between {a b c : List Char} (ha : a.count '"' = 1) (hb : b.count '"' = 0)
    (hc : c.count '"' = 3) (k l : List Char) :
    (a ++ k ++ b ++ l ++ c).count '"' = (k ++ l).count '"' + 4 := by
  simp only [List.count_append, ha, hb, hc]
  omega

theorem quotes_pictureLine (p : List Char × List Char) :
    (pictureLine p).count '"' = (p.1 ++ p.2).count '"' + 4 :=
  quotes_between (by decide) (by decide) (by decide) p.1 p.2

theorem alike_pictureLine_iff (p q : List Char × List Char) :
    Alike (pictureLine p) (pictureLine q) ↔ SameMarks (p.1 ++ p.2) (q.1 ++ q.2) := by
  constructor
  · intro h
    have hsame := h.brackets
    have hcount := h.quotes rfl rfl
    rw [brackets_pictureLine, brackets_pictureLine] at hsame
    rw [quotes_pictureLine, quotes_pictureLine] at hcount
    exact ⟨List.append_cancel_right (List.cons.inj hsame).2, Nat.add_right_cancel hcount⟩
  · intro h
    refine ⟨?_, fun _ _ => ?_⟩
    · rw [brackets_pictureLine, brackets_pictureLine, h.brackets]
    · rw [quotes_pictureLine, quotes_pictureLine, h.quotes]

/-! ### Lines of an output -/

theorem picture?_of_chosen {media : String} {value : Json}
    (h : chosenForm? fs = some (media, value)) :
    picture? fs = if Text.startsWith "image/".toList media.toList then
      some (media.toList, Text.trim (formText value)) else none := by
  rw [picture?, h]
  rfl

theorem formLine_of_picture {p : List Char × List Char} (h : picture? fs = some p) :
    formLine fs = pictureLine p := by
  cases hchosen : chosenForm? fs with
  | none => simp [picture?, hchosen] at h
  | some f =>
    obtain ⟨media, value⟩ := f
    rw [picture?_of_chosen hchosen] at h
    split at h
    · next himage =>
      cases h
      rw [formLine, hchosen]
      exact if_pos himage
    · cases h

theorem formLine_of_not_picture (h : picture? fs = none) :
    ∃ l, formLine fs = inDiv (escapeChars l) := by
  cases hchosen : chosenForm? fs with
  | none =>
    rw [formLine, hchosen]
    exact ⟨[], rfl⟩
  | some f =>
    obtain ⟨media, value⟩ := f
    rw [picture?_of_chosen hchosen] at h
    split at h
    · cases h
    · next himage =>
      rw [formLine, hchosen]
      exact ⟨formText value, if_neg himage⟩

theorem SameForms.matched (h : SameForms fs gs) : Matched (formLine fs) (formLine gs) := by
  have hpictured := h.pictured
  cases hf : picture? fs with
  | none =>
    have hg : picture? gs = none := by simpa [hf] using hpictured.symm
    obtain ⟨k, hk⟩ := formLine_of_not_picture hf
    obtain ⟨l, hl⟩ := formLine_of_not_picture hg
    rw [hk, hl]
    exact matched_inDiv_escaped k l
  | some p =>
    obtain ⟨q, hg⟩ : ∃ q, picture? gs = some q := by
      rw [← Option.isSome_iff_exists, ← hpictured, hf, Option.isSome_some]
    rw [formLine_of_picture hf, formLine_of_picture hg]
    exact matched_pictureLine p q

theorem images_formLine (fs : List (String × Json)) :
    [formLine fs].filter isImage = (picture? fs).toList.map pictureLine := by
  cases hf : picture? fs with
  | none =>
    obtain ⟨l, hl⟩ := formLine_of_not_picture hf
    rw [hl]
    rfl
  | some p =>
    rw [formLine_of_picture hf]
    rfl

theorem images_outputLines (o : CellOutput) :
    (outputLines o).filter isImage = o.picture?.toList.map pictureLine := by
  cases o with
  | value forms count => exact images_formLine forms
  | shown forms => exact images_formLine forms
  | stream text => rfl
  | failure reason => rfl

theorem matched_outputLines (h : o.SameShape o') :
    Forall₂ Matched (outputLines o) (outputLines o') := by
  cases h with
  | value forms => exact .cons (.refl _) (.cons forms.matched .nil)
  | shown forms => exact .cons (.refl _) (.cons forms.matched .nil)
  | stream => exact .cons (.refl _) (.cons (matched_spaced_escaped _ _) .nil)
  | failure => exact .cons (.refl _) (.cons (matched_inDiv_escaped _ _) .nil)

/-! ### Lines of a cell -/

theorem images_map {f : List Char → List Char} (hf : ∀ l, isImage (f l) = false)
    (ls : List (List Char)) : (ls.map f).filter isImage = [] := by
  simp [List.filter_map, Function.comp_def, hf]

theorem matched_map {f : List Char → List Char} (hf : ∀ k l, Matched (f k) (f l))
    {ks ls : List (List Char)} (h : ks.length = ls.length) :
    Forall₂ Matched (ks.map f) (ls.map f) := by
  rw [List.forall₂_map_left_iff, List.forall₂_map_right_iff, List.forall₂_iff_zip]
  exact ⟨h, fun _ => hf _ _⟩

theorem images_outputs (os : List CellOutput) :
    (os.flatMap outputLines).filter isImage =
      (os.filterMap CellOutput.picture?).map pictureLine := by
  induction os with
  | nil => rfl
  | cons o os ih =>
    rw [List.flatMap_cons, List.filter_append, images_outputLines, ih]
    cases ho : o.picture? with
    | none => simp [ho]
    | some p => simp [ho]

theorem matched_outputs {os ps : List CellOutput} (h : Forall₂ CellOutput.SameShape os ps) :
    Forall₂ Matched (os.flatMap outputLines) (ps.flatMap outputLines) :=
  List.rel_flatMap h fun _ _ => matched_outputLines

theorem images_cellBody (c : NotebookCell) :
    (cellBody c).filter isImage = c.pictures.map pictureLine := by
  cases c with
  | markdown source => exact images_map (fun _ => rfl) _
  | raw source => exact images_map (fun _ => rfl) _
  | code source count outputs =>
    show (source.lines.map _ ++ outputs.flatMap outputLines).filter isImage = _
    rw [List.filter_append, images_map (fun _ => rfl), images_outputs]
    rfl

theorem matched_cellBody (h : c.SameShape d) : Forall₂ Matched (cellBody c) (cellBody d) := by
  cases h with
  | code hlines houtputs =>
    refine .cons (.refl _) (List.rel_append (matched_map (fun k l => ?_) hlines)
      (matched_outputs houtputs))
    exact matched_of_brackets rfl rfl (brackets_around (brackets_spaced_escaped k l) ..)
  | raw hlines => exact matched_map matched_inDiv_escaped hlines

theorem images_cellLines (i : Nat) (c : NotebookCell) :
    (cellLines i c).filter isImage = c.pictures.map pictureLine := by
  show (cellBody c ++ ["<hr />".toList]).filter isImage = _
  rw [List.filter_append, images_cellBody]
  exact List.append_nil _

theorem matched_cellLines (i : Nat) (h : c.SameShape d) :
    Forall₂ Matched (cellLines i c) (cellLines i d) := by
  have hkind : c.kind = d.kind := by cases h <;> rfl
  rw [cellLines, cellLines, hkind]
  exact .cons (.refl _) (List.rel_append (matched_cellBody h) (.cons (.refl _) .nil))

theorem images_linesFrom (i : Nat) (cs : List NotebookCell) :
    (linesFrom i cs).filter isImage = (cs.flatMap NotebookCell.pictures).map pictureLine := by
  induction cs generalizing i with
  | nil => rfl
  | cons c cs ih =>
    rw [linesFrom, List.filter_append, images_cellLines, ih, List.flatMap_cons, List.map_append]

theorem matched_linesFrom (i : Nat) {cs ds : List NotebookCell}
    (h : Forall₂ NotebookCell.SameShape cs ds) :
    Forall₂ Matched (linesFrom i cs) (linesFrom i ds) := by
  induction h generalizing i with
  | nil => exact .nil
  | cons hcd _ ih => exact List.rel_append (matched_cellLines i hcd) (ih (i + 1))

/-! ### Lines of a notebook -/

/-- Notebooks of one shape: cell by cell, and output by output. -/
def SameShape (n m : Notebook) : Prop := Forall₂ NotebookCell.SameShape n.cells m.cells

/-- The lines of two notebooks match one by one. -/
def LinesMatch (n m : Notebook) : Prop :=
  Forall₂ (fun k l : String => Matched k.toList l.toList) n.lines m.lines

/-- The lines of two notebooks are alike one by one. -/
def SameMarkup (n m : Notebook) : Prop :=
  Forall₂ (fun k l : String => Alike k.toList l.toList) n.lines m.lines

/-- The media type and the data of corresponding images have the same marks. -/
def SamePictureMarks (n m : Notebook) : Prop :=
  Forall₂ (fun p q => SameMarks (p.1 ++ p.2) (q.1 ++ q.2)) n.pictures m.pictures

variable {n m : Notebook}

theorem linesMatch_of_sameShape (h : n.SameShape m) : n.LinesMatch m := by
  rw [LinesMatch, lines, lines, List.forall₂_map_left_iff, List.forall₂_map_right_iff]
  simp only [String.toList_ofList]
  exact matched_linesFrom 1 h

theorem sameMarkup_iff_of_sameShape (h : n.SameShape m) :
    n.SameMarkup m ↔ n.SamePictureMarks m := by
  have hlines : n.SameMarkup m ↔ Forall₂ Alike (linesFrom 1 n.cells) (linesFrom 1 m.cells) := by
    rw [SameMarkup, lines, lines, List.forall₂_map_left_iff, List.forall₂_map_right_iff]
    simp only [String.toList_ofList]
  rw [hlines, forall₂_alike_iff (matched_linesFrom 1 h), images_linesFrom, images_linesFrom,
    List.forall₂_map_left_iff, List.forall₂_map_right_iff]
  simp only [alike_pictureLine_iff]
  rfl

/-- Outside images the texts of a notebook add no markup; in an image the media type and the data
add what brackets and quotes they have, and nothing else does. -/
theorem markup_of_sameShape (h : n.SameShape m) :
    n.LinesMatch m ∧ (n.SameMarkup m ↔ n.SamePictureMarks m) :=
  ⟨linesMatch_of_sameShape h, sameMarkup_iff_of_sameShape h⟩

/-- A notebook of one cell: a line of code, which wrote something and showed an image. -/
def plotted (line written data : String) : Notebook :=
  ⟨[.code (.parts [line]) (some 1)
    [.stream (.whole written), .shown [("image/png", .text data)]]]⟩

theorem sameShape_plotted (line line' written written' data data' : String) :
    (plotted line written data).SameShape (plotted line' written' data') :=
  .cons (.code rfl (.cons .stream (.cons (.shown ⟨rfl, rfl⟩) .nil))) .nil

theorem markup_of_sameShape_plotted :
    (plotted "a" "b" "aGk=").SameShape (plotted "<i>" "<script>" "aG8=") ∧
      (plotted "a" "b" "aGk=").LinesMatch (plotted "<i>" "<script>" "aG8=") ∧
      (plotted "a" "b" "aGk=").SameMarkup (plotted "<i>" "<script>" "aG8=") := by
  have hshape := sameShape_plotted "a" "<i>" "b" "<script>" "aGk=" "aG8="
  obtain ⟨hmatch, hiff⟩ := markup_of_sameShape hshape
  exact ⟨hshape, hmatch, hiff.2 (.cons ⟨by decide +kernel, by decide +kernel⟩ .nil)⟩

theorem not_sameMarkup_quoted_data :
    (plotted "a" "b" "aGk=").SameShape (plotted "a" "b" "\"><script>") ∧
      ¬ (plotted "a" "b" "aGk=").SameMarkup (plotted "a" "b" "\"><script>") := by
  have hshape := sameShape_plotted "a" "a" "b" "b" "aGk=" "\"><script>"
  refine ⟨hshape, fun h => ?_⟩
  obtain ⟨hmarks, -⟩ := List.forall₂_cons.1 ((sameMarkup_iff_of_sameShape hshape).1 h)
  exact absurd hmarks.quotes (by decide +kernel)

end Notebook

end Marginalia
