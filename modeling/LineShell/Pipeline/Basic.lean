import LineShell.Line.Expansion
import LineShell.Line.Word
import LineShell.Pipeline.Stdio

namespace LineShell

inductive StageKind where
  | external
  | internal
  | assignment
  | idle
  deriving DecidableEq, Repr

def StageKind.name : StageKind → Bytes
  | .external => ascii "external"
  | .internal => ascii "internal"
  | .assignment => ascii "localvar"
  | .idle => ascii "external"

def StageKind.classify (isBuiltin : Bytes → Bool) : List Bytes → StageKind
  | [] => .external
  | name :: rest =>
    if isBuiltin name then .internal
    else if rest.isEmpty && name.contains Bytes.equals then .assignment
    else .external

-- `subshells` lists, by argument, the `$(...)` regions found.
structure Stage where
  args : List Bytes
  stdio : Stdio := Stdio.inherit
  kind : StageKind := .external
  subshells : List (Nat × List Span) := []
  deriving DecidableEq, Repr

structure Pipeline where
  stages : List Stage
  deriving DecidableEq, Repr

namespace Pipeline

def pipeToken : Bytes := ascii "|"

def backgroundToken : Bytes := ascii "&"

def partition : List Bytes → List (List Bytes)
  | [] => [[]]
  | token :: rest =>
    if token = pipeToken then [] :: partition rest
    else
      match partition rest with
      | [] => [[token]]
      | stage :: stages => (token :: stage) :: stages

def connect (first : Stage) : List Stage → World → Option Errno × List Stage × World
  | [], w => (none, [first], w)
  | next :: rest, w =>
    match w.pipe with
    | (.error e, w) => (some e, first :: next :: rest, w)
    | (.ok (reader, writer), w) =>
      let first := { first with stdio := first.stdio.set .output (some writer) }
      let next := { next with stdio := next.stdio.set .input (some reader) }
      let (failure, stages, w) := connect next rest w
      (failure, first :: stages, w)

def releaseStages : List Stage → World → Except Fault Unit × List Stage × World
  | [], w => (.ok (), [], w)
  | stage :: rest, w =>
    let (first, stdio, w) := stage.stdio.release w
    let (others, stages, w) := releaseStages rest w
    (Stdio.firstError first others, { stage with stdio := stdio } :: stages, w)

def close (p : Pipeline) (w : World) : Except Fault Unit × Pipeline × World :=
  let (result, stages, w) := releaseStages p.stages w
  (result, ⟨stages⟩, w)

-- The pipes are made before a stage without arguments is noticed; on failure they are closed again.
def build (tokens : List Bytes) (w : World) : Except Fault Pipeline × World :=
  match (partition tokens).map fun args => ({ args := args } : Stage) with
  | [] => (.ok ⟨[]⟩, w)
  | first :: rest =>
    match connect first rest w with
    | (some e, stages, w) =>
      let (_, _, w) := close ⟨stages⟩ w
      (.error (.resource (ascii "pipe") [] (.onCall (ascii "pipe2") (.errno e))), w)
    | (none, stages, w) =>
      if stages.any (·.args.isEmpty) then
        let (_, _, w) := close ⟨stages⟩ w
        (.error (.parse .emptyStage pipeToken), w)
      else (.ok ⟨stages⟩, w)

def detectArgs : Nat → List Bytes → Option Fault × List (Nat × List Span)
  | _, [] => (none, [])
  | i, arg :: rest =>
    match Line.subshellSpans arg with
    | .error e => (some e, [])
    | .ok spans =>
      let (failure, found) := detectArgs (i + 1) rest
      (failure, if spans.isEmpty then found else (i, spans) :: found)

def detectStages : List Stage → Option Fault × List Stage
  | [] => (none, [])
  | stage :: rest =>
    match detectArgs 0 stage.args with
    | (some e, found) => (some e, { stage with subshells := found } :: rest)
    | (none, found) =>
      let (failure, stages) := detectStages rest
      (failure, { stage with subshells := found } :: stages)

def detectSubshells (p : Pipeline) : Option Fault × Pipeline :=
  let (failure, stages) := detectStages p.stages
  (failure, ⟨stages⟩)

def rejectStages : List Stage → Option Fault
  | [] => none
  | stage :: rest =>
    match stage.subshells with
    | [] => rejectStages rest
    | (i, _) :: _ => some (.parse .substitution ((stage.args[i]?).getD []))

def rejectSubshells (p : Pipeline) : Option Fault := rejectStages p.stages

def substitute (p : Pipeline) (expand : Bytes → Bytes) : Pipeline :=
  ⟨p.stages.map fun s => { s with args := s.args.map expand }⟩

def classify (p : Pipeline) (isBuiltin : Bytes → Bool) : Pipeline :=
  ⟨p.stages.map fun s => { s with kind := StageKind.classify isBuiltin s.args }⟩

end Pipeline
end LineShell
