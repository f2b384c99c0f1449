import Marginalia.Text.Blank

/-!
Quoted texts of TOML: basic ones with escapes between double quotes, literal ones between single
quotes, and either over several lines between tripled quotes.
-/

namespace Marginalia.Toml

def isSpace (c : Char) : Bool := c == ' ' || c == '\t'

/-- The characters that may stand in a line: all but controls, and the tab. -/
def isPlain (c : Char) : Bool := c == '\t' || (0x20 ≤ c.toNat && c.toNat ≠ 0x7F)

/-- The rest after a line end. -/
def lineEnd? : List Char → Option (List Char)
  | '\n' :: r => some r
  | '\r' :: '\n' :: r => some r
  | _ => none

/-- The character of a short escape. -/
def shortEscape? : Char → Option Char
  | '"' => some '"'
  | '\\' => some '\\'
  | 'b' => some '\x08'
  | 'e' => some '\x1b'
  | 'f' => some '\x0c'
  | 'n' => some '\n'
  | 'r' => some '\r'
  | 't' => some '\t'
  | _ => none

/-- The character whose code point the hexadecimal digits write. -/
def codePoint? (ds : List Char) : Option Char := do
  let vs ← ds.mapM Text.hexValue?
  let n := vs.foldl (fun n v => n * 16 + v) 0
  if n.isValidChar then some (Char.ofNat n) else none

/-- A character before the text that was read after it. -/
def before (c : Char) (read : List Char × List Char) : List Char × List Char :=
  (c :: read.1, read.2)

/-- The text up to a double quote, and what follows it. -/
def basicText : List Char → Option (List Char × List Char)
  | '"' :: r => some ([], r)
  | '\\' :: 'x' :: a :: b :: r =>
    (codePoint? [a, b]).bind fun c => (basicText r).map (before c)
  | '\\' :: 'u' :: a :: b :: c :: d :: r =>
    (codePoint? [a, b, c, d]).bind fun c => (basicText r).map (before c)
  | '\\' :: 'U' :: a :: b :: c :: d :: e :: f :: g :: h :: r =>
    (codePoint? [a, b, c, d, e, f, g, h]).bind fun c => (basicText r).map (before c)
  | '\\' :: c :: r => (shortEscape? c).bind fun c => (basicText r).map (before c)
  | c :: r => if c ≠ '\\' ∧ isPlain c then (basicText r).map (before c) else none
  | [] => none

/-- Whether a backslash before this text joins lines: only blanks stand before the line end. -/
def joinsLines (cs : List Char) : Bool := (lineEnd? (cs.dropWhile isSpace)).isSome

/-- The text up to three double quotes, and what follows them; one or two more quotes before them
belong to the text. A backslash at the end of a line takes away all blanks and line ends after it;
`joining` tells that such a backslash came before. -/
def basicBlock (joining : Bool) : List Char → Option (List Char × List Char)
  | '"' :: '"' :: '"' :: '"' :: '"' :: r => some (['"', '"'], r)
  | '"' :: '"' :: '"' :: '"' :: r => some (['"'], r)
  | '"' :: '"' :: '"' :: r => some ([], r)
  | '\\' :: 'x' :: a :: b :: r =>
    (codePoint? [a, b]).bind fun c => (basicBlock false r).map (before c)
  | '\\' :: 'u' :: a :: b :: c :: d :: r =>
    (codePoint? [a, b, c, d]).bind fun c => (basicBlock false r).map (before c)
  | '\\' :: 'U' :: a :: b :: c :: d :: e :: f :: g :: h :: r =>
    (codePoint? [a, b, c, d, e, f, g, h]).bind fun c => (basicBlock false r).map (before c)
  | '\\' :: c :: r =>
    if joinsLines (c :: r) then basicBlock true (c :: r)
    else (shortEscape? c).bind fun c => (basicBlock false r).map (before c)
  | '\r' :: '\n' :: r =>
    if joining then basicBlock true r
    else (basicBlock false r).map (before '\r' ∘ before '\n')
  | c :: r =>
    if joining ∧ (isSpace c ∨ c = '\n') then basicBlock true r
    else if c ≠ '\\' ∧ (isPlain c ∨ c = '\n') then (basicBlock false r).map (before c)
    else none
  | [] => none

/-- The text up to a single quote, and what follows it. -/
def literalText : List Char → Option (List Char × List Char)
  | '\'' :: r => some ([], r)
  | c :: r => if isPlain c then (literalText r).map (before c) else none
  | [] => none

/-- The text up to three single quotes, and what follows them; one or two more quotes before them
belong to the text. -/
def literalBlock : List Char → Option (List Char × List Char)
  | '\'' :: '\'' :: '\'' :: '\'' :: '\'' :: r => some (['\'', '\''], r)
  | '\'' :: '\'' :: '\'' :: '\'' :: r => some (['\''], r)
  | '\'' :: '\'' :: '\'' :: r => some ([], r)
  | '\r' :: '\n' :: r => (literalBlock r).map (before '\r' ∘ before '\n')
  | c :: r => if isPlain c ∨ c = '\n' then (literalBlock r).map (before c) else none
  | [] => none

/-- A block without the line end right after its opening quotes. -/
def openBlock (cs : List Char) : List Char := (lineEnd? cs).getD cs

/-- A quoted text in any of its four forms; none as well where no quote opens one. -/
def quoted? : List Char → Option (List Char × List Char)
  | '"' :: '"' :: '"' :: r => basicBlock false (openBlock r)
  | '\'' :: '\'' :: '\'' :: r => literalBlock (openBlock r)
  | '"' :: r => basicText r
  | '\'' :: r => literalText r
  | _ => none

end Marginalia.Toml
