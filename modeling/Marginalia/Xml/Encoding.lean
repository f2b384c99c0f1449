import Marginalia.Text.Blank
import Marginalia.Text.Utf8
import Marginalia.Text.Utf16

/-!
The declaration at the front of an XML text, the encoding that it names, and the text of a file's
bytes.
-/

namespace Marginalia.Xml

/-- The declaration at the very start, empty where there is none. -/
def declaration (xml : List Char) : List Char :=
  if Text.startsWith "<?xml".toList xml then
    match Text.splitAt? "?>".toList xml with
    | some (inner, _) => inner ++ "?>".toList
    | none => []
  else []

/-- What an encoding's name is read from: nothing, a quote with what follows it, or a character
beyond ASCII, where reading breaks off. -/
inductive EncodingName where
  | named (name : List Char)
  | broken
deriving DecidableEq, Repr

def defaultEncoding : List Char := "ASCII".toList

/-- The encoding that a declaration names. -/
def encodingName (declaration : List Char) : EncodingName :=
  match Text.splitAt? "encoding=".toList declaration with
  | none => .named defaultEncoding
  | some (_, []) => .named defaultEncoding
  | some (_, q :: r) => if q.toNat < 0x80 then .named (r.takeWhile (· ≠ q)) else .broken

/-- Why bytes have no text: the encoding that they should have been in. -/
inductive DecodeError where
  | invalid (encoding : List Char)
  /-- The encoding's name cannot be read either. -/
  | broken
deriving DecidableEq, Repr

def DecodeError.message : DecodeError → String
  | .invalid e => "Content is not valid " ++ String.ofList e
  | .broken => ""

def decodeUnits (e : Text.Utf16.Endian) (bytes : List UInt8) : Except DecodeError (List Char) :=
  match Text.Utf16.decode? e bytes with
  | some cs => .ok cs
  | none => .error (.invalid "UTF-16".toList)

def decodeBytes (bytes : List UInt8) : Except DecodeError (List Char) :=
  match Text.Utf8.decode? bytes with
  | some cs => .ok cs
  | none =>
    match encodingName (declaration (Text.Utf8.decodeLossy (bytes.take 100))) with
    | .named e => .error (.invalid e)
    | .broken => .error .broken

/-- The text of a file. Sixteen-bit units are known by their mark or by the first `<`; anything
else is UTF-8, with or without a mark. -/
def decode : List UInt8 → Except DecodeError (List Char)
  | 0xFF :: 0xFE :: r => decodeUnits .little r
  | 0xFE :: 0xFF :: r => decodeUnits .big r
  | 0x3C :: 0x00 :: r => decodeUnits .little (0x3C :: 0x00 :: r)
  | 0x00 :: 0x3C :: r => decodeUnits .big (0x00 :: 0x3C :: r)
  | 0xEF :: 0xBB :: 0xBF :: r => decodeBytes r
  | bytes => decodeBytes bytes

end Marginalia.Xml
