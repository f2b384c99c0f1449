import Marginalia.Attachment.Preview
import Marginalia.CommandLine.Options
import Marginalia.Diff.Patch.Table
import Marginalia.Diff.Replay

/-!
What a command line does: it shows an attachment, or replays a script on a table of its own or of a
diff. What was printed before a failure stays printed.
-/

namespace Marginalia.CommandLine

open Attachment (Opening PreviewError)
open Diff (DiffError FileTable Script Table)

/-- How a run ends before it is done. -/
inductive Failure where
  | usage (cause : UsageError)
  /-- The configuration names no view. -/
  | openingMode
  | preview (cause : PreviewError)
  | unreadableScript (path : String)
  | invalidScript (path : String)
  | noTable
  | unreadableDiff (path : String)
  | diff (cause : DiffError)
  | noSuchFile (count : Nat) (file : UInt64)

namespace Failure

/-- The message; none where the run breaks off without one. -/
def message? : Failure → Option String
  | .usage cause => some cause.message
  | .openingMode => some "Invalid default_view_mode in config"
  | .preview (.encoding .broken) => none
  | .preview cause => some cause.message
  | .unreadableScript path => some ("Failed to read script " ++ path)
  | .invalidScript path => some ("Invalid script " ++ path)
  | .noTable => some "The script has no table; pass --diff to build one from a diff"
  | .unreadableDiff path => some ("Failed to read diff " ++ path)
  | .diff cause => cause.report?
  | .noSuchFile count file =>
    some ("The diff has " ++ Decimal.text count ++ " file(s), cannot review file " ++
      Decimal.text file.toNat)

def code (f : Failure) : UInt32 :=
  match f, f.message? with
  | .usage _, _ => 2
  | _, some _ => 1
  | _, none => 101

end Failure

/-- What a run prints, and how it fails, if it does. -/
structure Outcome where
  lines : List String
  failure : Option Failure

namespace Outcome

def code (o : Outcome) : UInt32 := (o.failure.map Failure.code).getD 0

/-- The outcome with lines printed before it. -/
def after (o : Outcome) (lines : List String) : Outcome := { o with lines := lines ++ o.lines }

def ofLines : Except Failure (List String) → Outcome
  | .ok lines => ⟨lines, none⟩
  | .error f => ⟨[], some f⟩

end Outcome

/-- Reads the file at a path. -/
abbrev Reader := String → Option (List UInt8)

def readText? (read : Reader) (path : String) : Option String :=
  ((read path).bind Text.Utf8.decode?).map String.ofList

def loadScript (read : Reader) (path : String) : Except Failure Script :=
  match readText? read path with
  | none => .error (.unreadableScript path)
  | some s =>
    match Script.parse? s with
    | some script => .ok script
    | none => .error (.invalidScript path)

/-- The table of a file of a diff. -/
def diffTable (read : Reader) (path : String) (contextLines : UInt32) (file : UInt64) :
    Except Failure Table :=
  match readText? read path with
  | none => .error (.unreadableDiff path)
  | some s =>
    match Diff.Patch.tables s contextLines with
    | .error cause => .error (.diff cause)
    | .ok files =>
      match files[file.toNat]? with
      | some f => .ok f.table
      | none => .error (.noSuchFile files.length file)

/-- The table that a replay begins with. -/
def firstTable (read : Reader) (c : Config) (o : Options) (s : Script) : Except Failure Table :=
  match o.diff with
  | some path => diffTable read path (o.contextLines.getD c.revealLines) (o.file.getD 0)
  | none => if s.groups.isEmpty then .error .noTable else .ok (.ofGroups s.groups)

/-- The lines that the replay of a script prints. -/
def replayLines (read : Reader) (c : Config) (o : Options) (path : String) :
    Except Failure (List String) := do
  let script ← loadScript read path
  let table ← firstTable read c o script
  let replay := Diff.Replay.run (.new script.file table) script.answers script.actions
  let groups : Json := .array (replay.session.table.groups.map Diff.Group.toJson)
  return replay.output ++ if o.printTable then [groups.compact] else []

/-- Runs what the options ask for, with the configuration in the first of `configFiles` that can be
read. -/
def run (read : Reader) (configFiles : List String) (o : Options) : Outcome :=
  let config := Config.load read configFiles
  match Opening.ofConfig? config with
  | none => ⟨[], some .openingMode⟩
  | some opening =>
    let settings := if o.printSettings then [opening.toJson.compact] else []
    let shown := match o.attachment, o.script with
      | some path, _ =>
        (Attachment.preview read path (o.viewMode.getD opening.mode) o.sameLine).mapError .preview
      | none, some path => replayLines read config o path
      | none, none => .error (.usage .missingScript)
    (Outcome.ofLines shown).after settings

def versionText : String := "diff-review-replay 0.1.0"

def helpLines : List String := [
  "Replay a recorded review session and print the emitted events as JSON lines",
  "",
  "Usage: diff-review-replay [OPTIONS] [SCRIPT]",
  "",
  "Arguments:",
  "  [SCRIPT]  Session script (JSON)",
  "",
  "Options:",
  "  -d, --diff <DIFF>                    Build the table from a unified diff instead of the script's groups",
  "      --file <FILE>                    File of the diff to review (0-based) [default: 0]",
  "      --context-lines <CONTEXT_LINES>  Lines revealed per expand control (defaults to the config value)",
  "      --print-table                    Print the final table as JSON after the events",
  "      --attachment <ATTACHMENT>        Preview an attachment file (XML, notebook or text) instead of replaying",
  "      --view-mode <VIEW_MODE>          Preview in this view mode instead of the configured default",
  "      --same-line                      Keep XML text content on the same line as its tags",
  "      --print-settings                 Print the attachment defaults from the config as a JSON line",
  "  -h, --help                           Print help",
  "  -V, --version                        Print version"]

/-- The outcome of a command line. -/
def answer (read : Reader) (configFiles : List String) (words : List String) : Outcome :=
  match Request.ofWords words with
  | .error cause => ⟨[], some (.usage cause)⟩
  | .ok .help => ⟨helpLines, none⟩
  | .ok .version => ⟨[versionText], none⟩
  | .ok (.run o) => run read configFiles o

end Marginalia.CommandLine
