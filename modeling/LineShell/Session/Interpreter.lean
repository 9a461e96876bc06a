import LineShell.Bytes.Blank
import LineShell.Line.Comment
import LineShell.Session.Builtin
import LineShell.World.LineReader

namespace LineShell

inductive ScriptFault where
  | tooDeep
  | unreadable (cause : Cause)
  | lineTooLong
  | fatal (fault : Fault)
  deriving DecidableEq, Repr

def ScriptFault.message : ScriptFault → Bytes
  | tooDeep => ascii "maximum source depth exceeded"
  | unreadable cause => cause.message
  | lineTooLong => ascii "bufio.Scanner: token too long"
  | fatal fault => fault.message

namespace Session
open Bytes

def maxDepth : Nat := 64

def lineLimit : Nat := LineReader.sizeLimit

abbrev ScriptRunner := Bytes → Session → World → (Int × Option ScriptFault) × Session × World

def eventKind (status : Int) : Option Fault → Bytes
  | some (.parse ..) => Event.syntaxError
  | some (.resource ..) => Event.resourceError
  | some (.spawn ..) => Event.spawnError
  | none => if status = Engine.notFound then Event.unknownCommand else Event.runCommand

def lineEvent (line : Bytes) (command : List Bytes) (status : Int) (fault : Option Fault) : Event :=
  { kind := eventKind status fault, line := line, command := command
    status := match fault with | some f => f.status | none => status
    error := match fault with | some f => f.message | none => [] }

def unrecorded (reason : Bytes) (w : World) : World := w.logLine (ascii "couldn't record event: " ++ reason)

def unwritable (e : Entry) : Bytes :=
  ascii "proto: invalid UTF-8 in string: " ++ Quoted.encode ((e.texts.find? (!Utf8.valid ·)).getD [])

def append (f : FileId) (line : Bytes) (w : World) : World :=
  let failed (cause : Cause) := unrecorded (Cause.onPath (ascii "write") (w.fileName f) cause).message
  match w.file? f with
  | none => w
  | some file =>
    if file.closed then failed .alreadyClosed w
    else
      match w.write f line with
      | (none, w) => w
      | (some e, w) => failed (.errno e) w

-- Without a recorder it is as if the line had been written.
def record (s : Session) (event : Event) (w : World) : World :=
  let entry := Entry.ofEvent ((s.recorder.map (·.session)).getD []) w.clock event
  match entry.encode?, s.recorder with
  | none, _ => unrecorded (unwritable entry) w
  | some _, none => w.noteEvent event
  | some line, some r => append r.file line (w.noteEvent event)

structure LineResult where
  command : List Bytes := []
  status : Int := 0
  fault : Option Fault := none

-- Where a command was given no file, the session's own stays.
def redirectStd (s : Session) (files : Triple (Option FileId)) : Session :=
  let std := files.orElse s.std
  { s with std := std, engineStd := std, messages := files.error.or s.messages }

def restoreStd (s before : Session) : Session :=
  { s with std := before.std, engineStd := before.std, messages := before.messages }

-- A fatal failure has been reported already when the script returns.
def sourceScript (runScript : ScriptRunner) (path : Bytes) (streams : Streams) (s : Session) (w : World) :
    (Int × Option Bytes) × Session × World :=
  let ((status, fault), after, w) := runScript path (s.redirectStd streams.files) w
  let message :=
    match fault with
    | none => none
    | some (.fatal _) => none
    | some f => some f.message
  ((status, message), after.restoreStd s, w)

def runner (runScript : ScriptRunner) : Runner Session where
  isBuiltin := Builtin.isBuiltin
  runBuiltin := Builtin.run (sourceScript runScript)
  assign := Session.assign
  environ := Session.environ

def abandon (p : Pipeline) (fault : Fault) (w : World) : Except Fault Pipeline × World :=
  let (_, _, w) := p.close w
  (.error fault, w)

def assemble (line : Bytes) (w : World) : Except Fault Pipeline × World :=
  match Line.split line with
  | .error fault => (.error fault, w)
  | .ok tokens =>
    match Pipeline.build tokens w with
    | (.error fault, w) => (.error fault, w)
    | (.ok p, w) =>
      match p.detectSubshells with
      | (some fault, p) => abandon p fault w
      | (none, p) =>
        match p.rejectSubshells with
        | some fault => abandon p fault w
        | none => (.ok p, w)

-- No file is opened before `$(...)` has been refused.
def compile (expand : Bytes → Bytes) (line : Bytes) (w : World) : Except Fault Pipeline × World :=
  match assemble line w with
  | (.error fault, w) => (.error fault, w)
  | (.ok p, w) =>
    match p.redirect expand w with
    | (some fault, p, w) => abandon p fault w
    | (none, p, w) => (.ok (p.substitute expand), w)

-- What the run leaves open is closed once more, which finds nothing to do.
def runLine (runScript : ScriptRunner) (line : Bytes) (s : Session) (w : World) :
    LineResult × Session × World :=
  match compile s.expand line w with
  | (.error fault, w) => ({ fault := some fault }, s, w)
  | (.ok p, w) =>
    let p := p.classify Builtin.isBuiltin
    let command := match p.stages with | stage :: _ => stage.args | [] => []
    let (result, s, w) := s.engine.execute (runner runScript) p s w
    let (_, _, w) := result.pipeline.close w
    ({ command := command, status := result.status, fault := result.fault }, s, w)

def interpretWith (runScript : ScriptRunner) (line : Bytes) (s : Session) (w : World) :
    (Int × Option Fault) × Session × World :=
  let line := Blank.trim (Line.stripComment line)
  if line.isEmpty then ((0, none), s, w)
  else
    let (result, s, w) := runLine runScript line s w
    match result.fault with
    | none =>
      match s.fatal with
      | some fatal =>
        -- A script this line ran has reported and recorded the failure.
        ((1, some fatal), { s with lastStatus := 1 }, w)
      | none =>
        let w := s.record (lineEvent line result.command result.status none) w
        ((result.status, none), { s with lastStatus := result.status }, w)
    | some fault =>
      let w := s.record (lineEvent line result.command result.status (some fault)) w
      let w := w.emit s.messages (s.settings.shellName ++ ascii ": " ++ fault.message ++ [newline])
      if fault.isSpawn then
        ((1, some fault), { s with exited := true, fatal := some fault, lastStatus := 1 }, w)
      else ((fault.status, none), { s with lastStatus := fault.status }, w)

def chomp (line : Bytes) : Bytes :=
  if line.getLast? = some 0x0D then line.dropLast else line

-- What follows the last newline is a line unless it is empty.
def scriptLines (text : Bytes) : List Bytes :=
  match (splitOn newline text).reverse with
  | [] :: rest => rest.reverse
  | all => all.reverse

def runLines (runScript : ScriptRunner) : List Bytes → Session → World →
    (Int × Option ScriptFault) × Session × World
  | [], s, w => ((s.lastStatus, none), s, w)
  | line :: rest, s, w =>
    if lineLimit ≤ line.length then ((1, some .lineTooLong), s, w)
    else
      match interpretWith runScript (chomp line) s w with
      | ((_, some fault), s, w) => ((1, some (.fatal fault)), s, w)
      | ((_, none), s, w) =>
        if s.exited then ((s.lastStatus, none), s, w) else runLines runScript rest s w

-- A block is read when the lines before it have been run, so a script sees what its own lines add
-- behind the block they came in.
def runBlocks (runScript : ScriptRunner) (path : Bytes) : Nat → LineReader → Session → World →
    (Int × Option ScriptFault) × Session × World
  -- Not reached from a script that is opened.
  | 0, _, s, w => ((s.lastStatus, none), s, w)
  | blocks + 1, r, s, w =>
    match r.next w with
    | .unreadable e => ((1, some (.unreadable (.onPath (ascii "read") path (.errno e)))), s, w)
    | .tooLong => ((1, some .lineTooLong), s, w)
    | .last rest => runLines runScript rest s w
    | .lines ready r =>
      match runLines runScript ready s w with
      | ((status, none), s, w) =>
        if s.exited then ((status, none), s, w) else runBlocks runScript path blocks r s w
      | stopped => stopped

def runOpened (runScript : ScriptRunner) (path : Bytes) (channel : Channel) (s : Session) (w : World) :
    (Int × Option ScriptFault) × Session × World :=
  let reader : LineReader := { channel := channel }
  let ran := runBlocks runScript path (reader.blockLimit w) reader { s with depth := s.depth + 1 } w
  (ran.1, { ran.2.1 with depth := ran.2.1.depth - 1 }, ran.2.2)

def runScriptAt : Nat → ScriptRunner
  | 0, _, s, w => ((1, some .tooDeep), s, w)
  | levels + 1, path, s, w =>
    match s.storage.openScript path w with
    | (.error cause, w) => ((1, some (.unreadable cause)), s, w)
    | (.ok channel, w) => runOpened (runScriptAt levels) path channel s w

def levels (s : Session) : Nat := maxDepth - s.depth

def runScript (path : Bytes) (s : Session) (w : World) : (Int × Option ScriptFault) × Session × World :=
  runScriptAt s.levels path s w

def interpret (line : Bytes) (s : Session) (w : World) : (Int × Option Fault) × Session × World :=
  interpretWith (runScriptAt s.levels) line s w

def runText (text : Bytes) (s : Session) (w : World) : (Int × Option ScriptFault) × Session × World :=
  runLines (runScriptAt s.levels) (scriptLines text) s w

def runBuiltin (args : List Bytes) (streams : Streams) (s : Session) (w : World) : Int × Session × World :=
  Builtin.run (sourceScript (runScriptAt s.levels)) args streams s w

end Session
end LineShell
