import Marginalia.Attachment.Anchor
import Marginalia.Decimal.Natural

/-!
The words of a command line read as options. Words are taken from first to last, and the first
fault ends the reading, as does a call for help or for the version.
-/

namespace Marginalia.CommandLine

open Attachment (ViewMode)

/-- The options that take a value. -/
inductive Setting where
  | diff
  | file
  | contextLines
  | attachment
  | viewMode
deriving DecidableEq, Repr

/-- The options that take none. -/
inductive Switch where
  | printTable
  | sameLine
  | printSettings
deriving DecidableEq, Repr

/-- What an option's name stands for. -/
inductive Named where
  | setting (s : Setting)
  | switch (s : Switch)
  | help
  | version
deriving DecidableEq, Repr

def Named.choices : List (String × Named) := [
  ("diff", .setting .diff), ("file", .setting .file), ("context-lines", .setting .contextLines),
  ("attachment", .setting .attachment), ("view-mode", .setting .viewMode),
  ("print-table", .switch .printTable), ("same-line", .switch .sameLine),
  ("print-settings", .switch .printSettings), ("help", .help), ("version", .version)]

/-- The name of an option as it is typed. -/
def Named.text (n : Named) : String :=
  "--" ++ ((Named.choices.find? fun c => c.2 == n).map Prod.fst).getD ""

/-- The options that one letter stands for. -/
def Named.ofLetter? : Char → Option Named
  | 'd' => some (.setting .diff)
  | 'h' => some .help
  | 'V' => some .version
  | _ => none

inductive UsageError where
  /-- A word that stands for no option, or that no place is left for. -/
  | unexpected (word : String)
  | missingValue (s : Setting)
  | unneededValue (n : Named)
  | repeated (n : Named)
  | invalidValue (s : Setting) (value : String)
  | emptyScript
  | conflict
  /-- Neither a script nor an attachment is named. -/
  | missingScript
deriving DecidableEq, Repr

def UsageError.message : UsageError → String
  | .unexpected word => "unexpected argument '" ++ word ++ "' found"
  | .missingValue s => "a value is required for '" ++ (Named.setting s).text ++ "' but none was supplied"
  | .unneededValue n => "unexpected value for '" ++ n.text ++ "' found; no more were expected"
  | .repeated n => "the argument '" ++ n.text ++ "' cannot be used multiple times"
  | .invalidValue s value => "invalid value '" ++ value ++ "' for '" ++ (Named.setting s).text ++ "'"
  | .emptyScript => "a value is required for '[SCRIPT]' but none was supplied"
  | .conflict => "the argument '--attachment' cannot be used with '[SCRIPT]'"
  | .missingScript => "the following required arguments were not provided: <SCRIPT>"

structure Options where
  script : Option String
  diff : Option String
  file : Option UInt64
  contextLines : Option UInt32
  attachment : Option String
  viewMode : Option ViewMode
  printTable : Bool
  sameLine : Bool
  printSettings : Bool
deriving DecidableEq, Repr

/-- What a command line asks for. -/
inductive Request where
  | run (o : Options)
  | help
  | version
deriving DecidableEq, Repr

/-- What a single word of a command line is. -/
inductive Word where
  /-- Not an option. -/
  | plain
  /-- The mark after which no word is an option. -/
  | mark
  | option (n : Named) (value : Option String)
  | unknown
deriving DecidableEq, Repr

namespace Word

/-- The name of a long option and the value behind an equals sign. -/
def ofLong (body : List Char) : Word :=
  let (name, value) := match Text.splitAt? ['='] body with
    | some (name, value) => (name, some (String.ofList value))
    | none => (body, none)
  match Named.choices.lookup (String.ofList name) with
  | some n => .option n value
  | none => .unknown

/-- A letter and the value behind it, with or without an equals sign between them. -/
def ofShort (c : Char) (rest : List Char) : Word :=
  match Named.ofLetter? c, rest with
  | none, _ => .unknown
  | some (.setting s), '=' :: value => .option (.setting s) (some (String.ofList value))
  | some (.setting s), c :: value => .option (.setting s) (some (String.ofList (c :: value)))
  | some n, _ => .option n none

def read (word : String) : Word :=
  match word.toList with
  | ['-', '-'] => .mark
  | '-' :: '-' :: body => ofLong body
  | '-' :: c :: rest => ofShort c rest
  | _ => .plain

end Word

namespace Options

def unset : Options := ⟨none, none, none, none, none, none, false, false, false⟩

/-- A value for an option that has none yet. -/
def fill {α : Type} (s : Setting) (old : Option α) (read : String → Option α) (value : String) :
    Except UsageError (Option α) :=
  if old.isSome then .error (.repeated (.setting s))
  else
    match read value with
    | some x => .ok (some x)
    | none => .error (.invalidValue s value)

def path? (s : String) : Option String := if s = "" then none else some s

/-- A number of lines; a minus sign may stand before zero. -/
def lines? (s : String) : Option UInt32 :=
  match s.toList with
  | '-' :: ds => if Decimal.readDigits? ds = some 0 then some 0 else none
  | cs => Decimal.readUInt32? cs

def put (o : Options) (s : Setting) (value : String) : Except UsageError Options :=
  match s with
  | .diff => do return { o with diff := ← fill s o.diff path? value }
  | .file => do
    return { o with file := ← fill s o.file (Decimal.readUInt64? ·.toList) value }
  | .contextLines => do return { o with contextLines := ← fill s o.contextLines lines? value }
  | .attachment => do return { o with attachment := ← fill s o.attachment path? value }
  | .viewMode => do return { o with viewMode := ← fill s o.viewMode ViewMode.parse? value }

def isOn (o : Options) : Switch → Bool
  | .printTable => o.printTable
  | .sameLine => o.sameLine
  | .printSettings => o.printSettings

def turnOn (o : Options) (s : Switch) : Except UsageError Options :=
  if o.isOn s then .error (.repeated (.switch s))
  else
    .ok <| match s with
      | .printTable => { o with printTable := true }
      | .sameLine => { o with sameLine := true }
      | .printSettings => { o with printSettings := true }

def putScript (o : Options) (path : String) : Except UsageError Options :=
  if o.script.isSome then .error (.unexpected path)
  else if path = "" then .error .emptyScript
  else .ok { o with script := some path }

/-- The request, once all words are read: either a script or an attachment. -/
def finish (o : Options) : Except UsageError Request :=
  match o.script, o.attachment with
  | some _, some _ => .error .conflict
  | none, none => .error .missingScript
  | _, _ => .ok (.run o)

/-- Reads the words after those that gave `o`. -/
def read (o : Options) : List String → Except UsageError Request
  | [] => o.finish
  | word :: rest =>
    match Word.read word with
    | .plain => o.putScript word >>= fun o => o.read rest
    | .mark => rest.foldlM putScript o >>= finish
    | .unknown => .error (.unexpected word)
    | .option .help none => .ok .help
    | .option .version none => .ok .version
    | .option (.switch s) none => o.turnOn s >>= fun o => o.read rest
    | .option (.setting s) (some value) => o.put s value >>= fun o => o.read rest
    | .option (.setting s) none =>
      match rest with
      | [] => .error (.missingValue s)
      | value :: rest =>
        if Word.read value = .plain then o.put s value >>= fun o => o.read rest
        else .error (.missingValue s)
    | .option n (some _) => .error (.unneededValue n)

end Options

/-- What the words of a command line ask for. -/
def Request.ofWords (words : List String) : Except UsageError Request := Options.unset.read words

/-- The paths of the files that a command line names. -/
def Request.paths (words : List String) : List String :=
  match Request.ofWords words with
  | .ok (.run o) => o.script.toList ++ o.diff.toList ++ o.attachment.toList
  | _ => []

end Marginalia.CommandLine
