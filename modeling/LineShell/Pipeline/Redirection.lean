import LineShell.Pipeline.Basic

namespace LineShell.Redirection

def duplicateToken : Bytes := ascii "2>&1"

def bothToken : Bytes := ascii "&>"

def outputToken : Bytes := ascii ">"

def inputToken : Bytes := ascii "<"

def slots? (token : Bytes) : Option (List Slot) :=
  if token = outputToken then some [.output]
  else if token = ascii "2>" then some [.error]
  else if token = bothToken ∨ token = ascii ">&" then some [.output, .error]
  else if token = inputToken then some [.input]
  else none

def isOperator (token : Bytes) : Bool := (slots? token).isSome || token = duplicateToken

-- Writes `> FILE 2>&1` at the end of a stage, before a final `&` if there is one, as `&> FILE`:
-- both streams end up in the file whatever redirections came before.
def combineReversed : List Bytes → List Bytes
  | duplicate :: target :: operator :: rest =>
    if duplicate = duplicateToken ∧ operator = outputToken then target :: bothToken :: rest
    else duplicate :: target :: operator :: rest
  | short => short

def combine (args : List Bytes) : List Bytes :=
  match args.reverse with
  | [] => []
  | last :: rest =>
    if last = Pipeline.backgroundToken then (last :: combineReversed rest).reverse
    else (combineReversed (last :: rest)).reverse

def openTarget (operator path : Bytes) (w : World) : Except Fault FileId × World :=
  match w.openFile path (if operator = inputToken then .read else .overwrite) with
  | (.ok f, w) => (.ok f, w)
  | (.error e, w) => (.error (.resource (ascii "open") path (.errno e)), w)

-- Stops at the first slot whose old file cannot be closed.
def fill (f : FileId) : List Slot → Stdio → World → Except Fault Unit × Stdio × World
  | [], s, w => (.ok (), s, w)
  | slot :: rest, s, w =>
    match s.replace slot (some f) w with
    | (.error e, s, w) => (.error e, s, w)
    | (.ok (), s, w) => fill f rest s w

def place (operator path : Bytes) (slots : List Slot) (s : Stdio) (w : World) : Except Fault Unit × Stdio × World :=
  match openTarget operator path w with
  | (.error e, w) => (.error e, s, w)
  | (.ok f, w) => fill f slots s w

def targetFault? (target : Bytes) : Option Fault :=
  match Line.subshellSpans target with
  | .error e => some e
  | .ok [] => none
  | .ok (_ :: _) => some (.parse .substitution target)

def applyArgs (expand : Bytes → Bytes) : List Bytes → Stdio → World →
    Except Fault (List Bytes) × Stdio × World
  | [], s, w => (.ok [], s, w)
  | token :: rest, s, w =>
    if token = duplicateToken then (.error (.parse .unsupportedDuplication token), s, w)
    else
      match slots? token with
      | none =>
        match applyArgs expand rest s w with
        | (.ok kept, s, w) => (.ok (token :: kept), s, w)
        | failed => failed
      | some slots =>
        match rest with
        | [] => (.error (.parse .missingTarget token), s, w)
        | target :: rest =>
          if isOperator target then (.error (.parse .missingTarget token), s, w)
          else
            match targetFault? target with
            | some fault => (.error fault, s, w)
            | none =>
              match place token (expand target) slots s w with
              | (.error e, s, w) => (.error e, s, w)
              | (.ok (), s, w) => applyArgs expand rest s w

-- The arguments change only if all redirections succeed.
def applyStage (expand : Bytes → Bytes) (stage : Stage) (w : World) : Option Fault × Stage × World :=
  match applyArgs expand (combine stage.args) stage.stdio w with
  | (.error e, stdio, w) => (some e, { stage with stdio := stdio }, w)
  | (.ok kept, stdio, w) =>
    (if kept.isEmpty then some (.parse .emptyStage []) else none,
      { stage with args := kept, stdio := stdio }, w)

def applyStages (expand : Bytes → Bytes) : List Stage → World → Option Fault × List Stage × World
  | [], w => (none, [], w)
  | stage :: rest, w =>
    match applyStage expand stage w with
    | (some e, stage, w) => (some e, stage :: rest, w)
    | (none, stage, w) =>
      let (failure, stages, w) := applyStages expand rest w
      (failure, stage :: stages, w)

end LineShell.Redirection

namespace LineShell.Pipeline

def redirect (p : Pipeline) (expand : Bytes → Bytes) (w : World) : Option Fault × Pipeline × World :=
  let (failure, stages, w) := Redirection.applyStages expand p.stages w
  (failure, ⟨stages⟩, w)

end LineShell.Pipeline
