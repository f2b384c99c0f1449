import Marginalia.Decimal.Natural
import Marginalia.Text.Quoted

/-!
How much of a hidden chunk is asked for. A control of the table offers a `Reveal`; the request
that goes out names an `Extent`.
-/

namespace Marginalia.Diff

/-- The lines of a chunk that a request asks to be shown. -/
inductive Extent where
  /-- All lines. -/
  | whole
  /-- None, which hides the chunk again. -/
  | hidden
  /-- Some lines at either end of the gap. -/
  | ends (above below : UInt32)
deriving DecidableEq, Repr

/-- What a control of the table offers. -/
inductive Reveal where
  | whole
  | above (lines : UInt32)
  | below (lines : UInt32)
  /-- All lines below the gap's start, down to the named header. -/
  | toHeader (lines : UInt32) (header : String)
  | hide
deriving DecidableEq, Repr

def Reveal.extent : Reveal → Extent
  | .whole => .whole
  | .above n => .ends n 0
  | .below n | .toHeader n _ => .ends 0 n
  | .hide => .hidden

def Reveal.isHide : Reveal → Bool
  | .hide => true
  | _ => false

namespace Extent

/-- The text of an extent: nothing, a zero, or two numbers with a comma. -/
def text : Extent → String
  | .whole => ""
  | .hidden => "0"
  | .ends a b => Decimal.text a.toNat ++ "," ++ Decimal.text b.toNat

/-- The parts before and after the first comma. -/
def splitComma (cs : List Char) : Option (List Char × List Char) :=
  Text.splitAt? [','] cs

/-- A text that is no extent, cut of white space. -/
structure Malformed where
  text : String
deriving DecidableEq, Repr

def Malformed.message (e : Malformed) : String :=
  "Invalid lines of context: " ++ Text.quoted e.text

/-- The extent of a list of characters without white space at its ends. -/
def ofChars? (cs : List Char) : Option Extent :=
  if cs = [] then some .whole
  else
    match splitComma cs with
    | none => if Decimal.readUInt32? cs = some 0 then some .hidden else none
    | some (a, b) => do
      let a ← Decimal.readUInt32? (Text.trim a)
      let b ← Decimal.readUInt32? (Text.trim b)
      return .ends a b

def parse (s : String) : Except Malformed Extent :=
  let cs := Text.trim s.toList
  match ofChars? cs with
  | some e => .ok e
  | none => .error ⟨String.ofList cs⟩

end Extent

end Marginalia.Diff
