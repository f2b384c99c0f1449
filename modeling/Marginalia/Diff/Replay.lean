import Marginalia.Diff.Script
import Marginalia.Json.Printer

/-!
Replaying a script: its actions in order, each request answered before the next action, and a
line for everything that comes of it.
-/

namespace Marginalia.Diff

/-- A line of the replay's report. -/
inductive Line where
  | event (e : Event)
  /-- A request whose answer was not worked in. -/
  | failed (request : Request) (cause : ExpansionError)
deriving DecidableEq, Repr

def Line.toJson : Line → Json
  | .event e => e.toJson
  | .failed r cause =>
    .object [("chunk_index", .ofUInt64 r.chunk), ("error", .text cause.message),
      ("request_id", .ofUInt64 r.id), ("type", .text "expansion_failed")]

/-- A replay so far: the session, the answers left, the lines of the report, and counts of the
actions, of the events and of the requests that failed. -/
structure Replay where
  session : Session
  answers : List Answer
  lines : List Line
  actions : Nat
  events : Nat
  failures : Nat
deriving DecidableEq, Repr

namespace Replay

def start (session : Session) (answers : List Answer) : Replay := ⟨session, answers, [], 0, 0, 0⟩

def report (p : Replay) (e : Event) : Replay :=
  { p with lines := p.lines ++ [.event e], events := p.events + 1 }

/-- Answers a request and works the answer in. -/
def deliver (p : Replay) (r : Request) : Replay :=
  let (result, answers) := answer r p.answers
  match p.session.applyFragment r result with
  | .ok (session, events) =>
    events.foldl report { p with session := session, answers := answers }
  | .error cause =>
    { p with
      answers := answers, lines := p.lines ++ [.failed r cause], failures := p.failures + 1 }

/-- Reports an event, and answers it if it is a request. -/
def follow (p : Replay) (e : Event) : Replay :=
  match e with
  | .requestFragment r => (p.report e).deliver r
  | _ => p.report e

def act (p : Replay) (a : Action) : Replay :=
  let (session, events) := p.session.handle a
  events.foldl follow { p with session := session, actions := p.actions + 1 }

def run (session : Session) (answers : List Answer) (actions : List Action) : Replay :=
  actions.foldl act (start session answers)

/-- The report as text. -/
def output (p : Replay) : List String := p.lines.map fun l => l.toJson.compact

end Replay

end Marginalia.Diff
