import LineShell.World.Basic

namespace LineShell

inductive Storage where
  | disk
  | memory
  deriving DecidableEq, Repr

structure Settings where
  shellName : Bytes := ascii "myshell"
  prompt : Bytes := ascii "\\w $ "
  color : Bytes := ascii "auto"
  historyFile : Bytes := ascii "~/.myshell_history"
  historyLimit : Int := 500
  extraPath : List Bytes := []
  eventLog : Bytes := []
  debug : Bool := false
  storage : Storage := .disk
  directory : Bytes := []
  deriving DecidableEq, Repr

namespace Settings

-- The values the color setting may have.
def colorAlways : Bytes := ascii "always"
def colorAuto : Bytes := ascii "auto"
def colorNever : Bytes := ascii "never"

def fileName : Bytes := ascii "config.yaml"

def defaultEventLog : Bytes := ascii "events.log"

def resolve (s : Settings) (name : Bytes) : Bytes :=
  if Path.isAbsolute name || s.directory.isEmpty then name else Path.join [s.directory, name]

def eventLogPath (s : Settings) : Bytes :=
  s.resolve (if s.eventLog.isEmpty then defaultEventLog else s.eventLog)

-- Empty if there is no history file, or no home.
def historyPath (s : Settings) (w : World) : Bytes :=
  let path := s.historyFile
  if path = ascii "~" || (ascii "~/").isPrefixOf path then
    match w.environValue? (ascii "HOME") with
    | none => []
    | some [] => []
    | some home => Path.join [home, path.drop 1]
  else path

end Settings

namespace Storage

def channel (storage : Storage) (path : Bytes) (w : World) : Except Cause Channel :=
  match storage with
  | .memory =>
    let name := Memory.normalize path
    if (w.memory.find? name).isSome then .ok (.memory name)
    else .error (.onPath (ascii "open") name .notExist)
  | .disk =>
    match w.tree.find w.cwd path with
    | .error e => .error (.onPath (ascii "open") path (.errno e))
    | .ok id => .ok (.node id)

def openScript (storage : Storage) (path : Bytes) (w : World) : Except Cause Channel × World :=
  match storage with
  | .memory => (storage.channel path w, w)
  | .disk =>
    match w.nextFault with
    | (some e, w) => (.error (.onPath (ascii "open") path (.errno e)), w)
    | (none, w) => (storage.channel path w, w)

def contents (storage : Storage) (path : Bytes) (w : World) : Except Cause Bytes :=
  match storage with
  | .memory =>
    match w.memory.read? path with
    | some data => .ok data
    | none => .error (.onPath (ascii "open") (Memory.normalize path) .notExist)
  | .disk =>
    match w.tree.find w.cwd path with
    | .error e => .error (.onPath (ascii "open") path (.errno e))
    | .ok id =>
      match w.tree.data id with
      | .ok data => .ok data
      | .error e => .error (.onPath (ascii "read") path (.errno e))

def openAppend (storage : Storage) (path : Bytes) (w : World) : Except Cause FileId × World :=
  match storage with
  | .memory =>
    let name := Memory.normalize path
    let memory := if (w.memory.find? name).isSome then w.memory else w.memory.write name []
    let (f, w) := { w with memory := memory }.attach
      { name := name, channel := .memory name, writable := true, appending := true }
    (.ok f, w)
  | .disk =>
    match w.openFile path .append with
    | (.ok f, w) => (.ok f, w)
    | (.error e, w) => (.error (.onPath (ascii "open") path (.errno e)), w)

end Storage
end LineShell
