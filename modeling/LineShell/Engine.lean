import LineShell.Pipeline.Redirection
import LineShell.World.Child

namespace LineShell

def searchPath (list : Bytes) (extra : List Bytes) : List Bytes :=
  Path.splitList list ++ extra.filter (!·.isEmpty)

-- The file a command name stands for: the name itself if it has a slash, else the first directory
-- entry of that name that is no directory.
def lookPath? (w : World) (directories : List Bytes) (name : Bytes) : Option Bytes :=
  if name.contains Bytes.slash then (if w.isFile name then some name else none)
  else
    (directories.map fun d => Path.join [if d.isEmpty then Path.current else d, name]).find? w.isFile

structure Streams where
  channels : Triple (Option FileId)
  files : Triple (Option FileId)
  deriving DecidableEq, Repr

def Streams.ofFiles (files : Triple (Option FileId)) : Streams := ⟨files, files⟩

structure Runner (σ : Type) where
  isBuiltin : Bytes → Bool
  runBuiltin : List Bytes → Streams → σ → World → Int × σ × World
  assign : Bytes → Streams → σ → World → Int × σ × World
  -- None stands for the shell's own environment.
  environ : σ → Option (List Bytes)

structure DebugSink where
  label : Bytes := []
  file : FileId
  deriving DecidableEq, Repr

structure Engine where
  name : Bytes
  searchPath : List Bytes
  std : Triple (Option FileId)
  debug : Option DebugSink := none

inductive Progress where
  | waiting
  | running (child : ChildId)
  | done (status : Int)
  deriving DecidableEq, Repr

namespace Engine

def notFound : Int := 127

def stripBackground (args : List Bytes) : List Bytes × Bool :=
  if args.getLast? = some Pipeline.backgroundToken then (args.dropLast, true) else (args, false)

def complain (e : Engine) (file : Option FileId) (message : Bytes) (w : World) : World :=
  w.emit file (e.name ++ ascii ": " ++ message ++ [Bytes.newline])

def emptyCommand : Bytes := (Fault.parse .emptyStage Pipeline.backgroundToken).message

def launch (e : Engine) (environ : Option (List Bytes)) (stage : Stage) (w : World) :
    Except Fault Progress × World :=
  let files := stage.stdio.resolve e.std
  let (args, background) := stripBackground stage.args
  match args with
  | [] => (.ok (.done 1), e.complain files.error emptyCommand w)
  | name :: _ =>
    match lookPath? w e.searchPath name with
    | none => (.ok (.done notFound), e.complain files.error (ascii "command not found: " ++ name) w)
    | some path =>
      match w.start path args environ files with
      | (.error cause, w) => (.error (.spawn path cause), w)
      | (.ok child, w) => (.ok (if background then .done 0 else .running child), w)

-- Deals with the stages from number `i` on that are programs, releasing their descriptors, up to
-- the first that cannot be started.
def launchAll (e : Engine) (environ : Option (List Bytes)) : Nat → List Stage → World →
    Option Fault × List (Stage × Progress) × World
  | _, [], w => (none, [], w)
  | i, stage :: rest, w =>
    if stage.kind = .external then
      let (result, w) := e.launch environ stage w
      let (_, stdio, w) := stage.stdio.release (w.note (.dispatched i))
      let stage := { stage with stdio := stdio }
      match result with
      | .error fault => (some fault, (stage, .waiting) :: rest.map (·, .waiting), w)
      | .ok progress =>
        let (failure, stages, w) := e.launchAll environ (i + 1) rest w
        (failure, (stage, progress) :: stages, w)
    else
      let (failure, stages, w) := e.launchAll environ (i + 1) rest w
      (failure, (stage, .waiting) :: stages, w)

def enter (e : Engine) (runner : Runner σ) (stage : Stage) (s : σ) (w : World) : Int × σ × World :=
  let streams := Streams.ofFiles (stage.stdio.resolve e.std)
  match (stripBackground stage.args).1 with
  | [] => (1, s, e.complain streams.channels.error emptyCommand w)
  | name :: args =>
    if stage.kind = .assignment then runner.assign name streams s w
    else runner.runBuiltin (name :: args) streams s w

def enterAll (e : Engine) (runner : Runner σ) : Nat → List (Stage × Progress) → σ → World →
    List (Stage × Progress) × σ × World
  | _, [], s, w => ([], s, w)
  | i, (stage, progress) :: rest, s, w =>
    if stage.kind = .internal ∨ stage.kind = .assignment then
      let (status, s, w) := e.enter runner stage s (w.note (.entered i))
      let (_, stdio, w) := stage.stdio.release w
      let (stages, s, w) := e.enterAll runner (i + 1) rest s w
      (({ stage with stdio := stdio }, .done status) :: stages, s, w)
    else
      let (stages, s, w) := e.enterAll runner (i + 1) rest s w
      ((stage, progress) :: stages, s, w)

-- The status of a program that was waited for; death by a signal counts from 128 on, and a wait
-- that tells nothing about the program as one.
def outcomeStatus : Option Outcome → Int
  | none => 1
  | some (.exited code) => code
  | some (.signaled signal) => 128 + signal

def waitEach : List Progress → World → List Int × World
  | [], w => ([], w)
  | progress :: rest, w =>
    match progress with
    | .running child =>
      let (outcome, w) := w.wait child
      let (statuses, w) := waitEach rest w
      (outcomeStatus outcome :: statuses, w)
    | .done status => let (statuses, w) := waitEach rest w; (status :: statuses, w)
    | .waiting => let (statuses, w) := waitEach rest w; (0 :: statuses, w)

-- The wait barrier: every program gets to run, then each is waited for.
def waitAll (stages : List (Stage × Progress)) (w : World) : List Int × World :=
  waitEach (stages.map (·.2)) (w.note .barrier).settle

def firstFailure (statuses : List Int) : Int := (statuses.find? (· ≠ 0)).getD 0

def describeStage (w : World) (i : Nat) (stage : Stage) : Bytes :=
  ascii "stage " ++ decimal i ++ ascii ": " ++ Quoted.encodeList stage.args ++ ascii " type=" ++
    stage.kind.name ++ ascii " stdio=[" ++
    Bytes.join [Bytes.space] (stage.stdio.toList.map (Stdio.handleName w)) ++ ascii "]"

def describe (p : Pipeline) (w : World) : List Bytes :=
  (ascii "n_stages = " ++ decimal p.stages.length) ::
    p.stages.mapIdx (describeStage w)

def dump (e : Engine) (p : Pipeline) (w : World) : World :=
  match e.debug with
  | none => w
  | some sink =>
    (describe p w).foldl (fun w' line => w'.emit (some sink.file) (sink.label ++ line ++ [Bytes.newline])) w

structure Result where
  status : Int
  fault : Option Fault := none
  pipeline : Pipeline

-- A program that is found and does not start ends the run: later programs are not started and no
-- command of the shell itself runs.
def execute (e : Engine) (runner : Runner σ) (p : Pipeline) (s : σ) (w : World) : Result × σ × World :=
  match p.rejectSubshells with
  | some fault =>
    let (_, p, w) := p.close w
    ({ status := 1, fault := some fault, pipeline := p }, s, w)
  | none =>
    match e.launchAll (runner.environ s) 0 p.stages (e.dump p w) with
    | (some fault, stages, w) =>
      let (_, p, w) := Pipeline.close ⟨stages.map (·.1)⟩ w
      let (_, w) := waitAll stages w
      let (_, p, w) := p.close w
      ({ status := 1, fault := some fault, pipeline := p }, s, w)
    | (none, stages, w) =>
      let (stages, s, w) := e.enterAll runner 0 stages s w
      let (statuses, w) := waitAll stages w
      let (_, p, w) := Pipeline.close ⟨stages.map (·.1)⟩ w
      ({ status := firstFailure statuses, pipeline := p }, s, w)

end Engine
end LineShell
