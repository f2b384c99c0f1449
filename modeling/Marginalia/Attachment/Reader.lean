import Marginalia.Attachment.Anchor
import Marginalia.Decimal.Real
import Marginalia.Decimal.Shortest
import Marginalia.Json.Record

/-!
Reading anchors out of the fields kept with a comment. Numbers and flags may be kept as texts,
and one that cannot be read counts as unknown; a view mode has to be right.
-/

namespace Marginalia.Attachment

/-- Why an anchor cannot be read or used. -/
inductive AnchorError where
  /-- The view mode has a name that no view mode has. -/
  | unknownMode (medium : Medium) (name : String)
  /-- The view mode is no name at all. -/
  | unreadable (medium : Medium)
  /-- The anchor is one on another medium. -/
  | wrongMedium (expected actual : Medium)
deriving DecidableEq, Repr

def AnchorError.message : AnchorError → String
  | .unknownMode m name =>
    "Invalid " ++ m.name ++ " comment fields: unknown variant \x60" ++ name ++
      "\x60, expected \x60rendered\x60 or \x60source\x60"
  | .unreadable m => "Invalid " ++ m.name ++ " comment fields"
  | .wrongMedium expected actual =>
    "Expected " ++ expected.name ++ " comment fields, got " ++ actual.name

/-- A time in seconds, as a number or as the text of one. -/
def seconds? (j : Json) : Option Float :=
  let x := match j with
    | .text s => Decimal.readReal? (Text.trim s.toList)
    | j => j.float?
  x.filter Decimal.isFinite

/-- The number of a line, as a number or as the text of one. -/
def lineNumber? (j : Json) : Option UInt32 :=
  match j with
  | .text s => Decimal.readUInt32? (Text.trim s.toList)
  | j => j.uint32?

/-- A flag, as a truth value, as a text or as a number. -/
def flag (j : Json) : Bool :=
  match j with
  | .bool b => b
  | .text s => s.toList.map Text.lower == "true".toList
  | .int i => 0 < i
  | _ => false

/-- The view mode of an anchor; the source view where there is none. -/
def modeOf (m : Medium) (o : Json.Origin) (fields : Fields) : Except AnchorError ViewMode :=
  match Json.lookup "viewMode" fields with
  | none => .ok .source
  | some j =>
    match o.choice? ViewMode.choices j with
    | some mode => .ok mode
    | none =>
      match Json.variant? j with
      | some (name, _) =>
        if (ViewMode.parse? name).isSome then .error (.unreadable m)
        else .error (.unknownMode m name)
      | none => .error (.unreadable m)

def textAnchor (m : Medium) (o : Json.Origin) (fields : Fields) : Except AnchorError TextAnchor :=
  (modeOf m o fields).map fun mode =>
    ⟨(Json.lookup "beginLineNum" fields).bind lineNumber?,
      (Json.lookup "endLineNum" fields).bind lineNumber?, mode⟩

/-- The anchor on a medium that fields hold; other fields are left aside. -/
def Anchor.ofFields (m : Medium) (fields : Fields) : Except AnchorError Anchor :=
  match m with
  | .audio =>
    .ok <| .audio
      ⟨(Json.lookup "start" fields).bind seconds?, (Json.lookup "end" fields).bind seconds?,
        match Json.lookup "attachedToEarlierRevision" fields with
        | some j => flag j
        | none => true⟩
  | .text => (textAnchor .text .settled fields).map .text
  | .xml =>
    (textAnchor .xml .tagged fields).map fun lines =>
      .xml ⟨lines, ((Json.lookup "renderTextContentOnSameLine" fields).map flag).getD false⟩

end Marginalia.Attachment
