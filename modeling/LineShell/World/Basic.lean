import LineShell.Fault
import LineShell.Journal.Event
import LineShell.World.Memory
import LineShell.World.Slot
import LineShell.World.Tree

namespace LineShell

abbrev FileId := Nat
abbrev PipeId := Nat
abbrev ChildId := Nat

inductive Channel where
  | node (id : NodeId)
  | reader (pipe : PipeId)
  | writer (pipe : PipeId)
  | memory (name : Bytes)
  deriving DecidableEq, Repr

-- `closed` is the shell's own end; a started program keeps what it was given until it ends.
structure OpenFile where
  name : Bytes
  channel : Channel
  writable : Bool := false
  appending : Bool := false
  offset : Nat := 0
  closed : Bool := false
  -- A program that runs takes what comes in here, as long as it is open.
  attended : Bool := false
  deriving DecidableEq, Repr

inductive Outcome where
  | exited (code : Nat)
  | signaled (signal : Nat)
  deriving DecidableEq, Repr

-- A program has no outcome until it has run.
structure Child where
  utility : Utility
  arguments : List Bytes
  environ : List Bytes
  cwd : NodeId
  files : Triple (Option FileId)
  outcome : Option Outcome := none
  deriving DecidableEq, Repr

-- The last three are marks the engine leaves.
inductive Call where
  | piped (reader writer : FileId)
  | opened (file : FileId)
  | closed (file : FileId)
  | started (child : ChildId)
  | waited (child : ChildId)
  | dispatched (stage : Nat)
  | entered (stage : Nat)
  | barrier
  deriving DecidableEq, Repr

-- Why the shell goes no further: it writes into a full pipe that nobody else can read from, it
-- waits for a program that does not end, or a program has killed it.
inductive Stop where
  | writing (file : FileId)
  | waiting (child : ChildId)
  | killed
  deriving DecidableEq, Repr

-- The tree is the one there was then.
structure Halt where
  cause : Stop
  tree : Tree
  signal : Option Nat := none
  deriving Repr

structure World where
  tree : Tree := Tree.empty
  memory : Memory := {}
  cwd : NodeId := Tree.root
  environ : List Bytes := []
  executable : Bytes := []
  host : Bytes := []
  user : Nat := 0
  clock : Nat := 0
  files : Array OpenFile := #[]
  pipes : Array Bytes := #[]
  children : Array Child := #[]
  trace : List Call := []
  -- The events that can be written, newest first, whether or not a recorder's file takes them.
  events : List Event := []
  -- For each call that may fail, in order, the error it fails with, if any, so that statements
  -- about all worlds cover every pattern of refused calls.
  faults : List (Option Errno) := []
  log : Option FileId := none
  -- The standard error the process was started with.
  stderr : Option FileId := none
  -- What is computed for a halted shell does not happen any more.
  halted : Option Halt := none
  deriving Repr

namespace World

def nextFault (w : World) : Option Errno × World :=
  match w.faults with
  | [] => (none, w)
  | fault :: rest => (fault, { w with faults := rest })

def note (w : World) (call : Call) : World := { w with trace := call :: w.trace }

def noteEvent (w : World) (event : Event) : World := { w with events := event :: w.events }

-- The first halt is the one that counts.
def halt (w : World) (cause : Stop) : World :=
  match w.halted with
  | some _ => w
  | none => { w with halted := some { cause := cause, tree := w.tree } }

-- A shell that is stuck can still be killed.
def kill (w : World) (signal : Nat) : World :=
  match w.halted with
  | some halt => { w with halted := some { halt with signal := halt.signal.or (some signal) } }
  | none => { w with halted := some { cause := .killed, tree := w.tree, signal := some signal } }

def isBlocked (w : World) : Bool :=
  match w.halted with
  | some { cause := .writing _, .. } => true
  | _ => false

def file? (w : World) (f : FileId) : Option OpenFile := w.files[f]?

def fileName (w : World) (f : FileId) : Bytes :=
  match w.file? f with
  | some file => file.name
  | none => []

def attach (w : World) (file : OpenFile) : FileId × World :=
  (w.files.size, { w with files := w.files.push file })

def pipe (w : World) : Except Errno (FileId × FileId) × World :=
  match w.nextFault with
  | (some e, w) => (.error e, w)
  | (none, w) =>
    let id := w.pipes.size
    let w := { w with pipes := w.pipes.push [] }
    let (reader, w) := w.attach { name := ascii "|0", channel := .reader id }
    let (writer, w) := w.attach { name := ascii "|1", channel := .writer id, writable := true }
    (.ok (reader, writer), w.note (.piped reader writer))

inductive Mode where
  | read
  | overwrite
  | append
  | touch
  deriving DecidableEq, Repr

def Mode.writes : Mode → Bool
  | .read => false
  | _ => true

def Mode.appends : Mode → Bool
  | .append => true
  | _ => false

def openNode (t : Tree) (cwd : NodeId) (path : Bytes) (mode : Mode) : Except Errno (NodeId × Tree) := do
  match mode with
  | .read =>
    let id ← t.find cwd path
    return (id, t)
  | _ =>
    if path.getLast? = some Bytes.slash then
      -- The directory in front of the slash is looked at before the slash is refused.
      let _ ← t.locate cwd true (path.reverse.dropWhile (· = Bytes.slash)).reverse
      throw Errno.isDirectory
    match ← t.locate cwd true path with
    | .missing directory name =>
      if t.isLinked directory then
        return (t.nodes.size, t.add directory name (.file [] false))
      else throw Errno.noEntry
    | .found id =>
      if t.isDirectory id then throw Errno.isDirectory
      return (id, if mode = .overwrite then t.setData id [] else t)

def openFile (w : World) (path : Bytes) (mode : Mode) : Except Errno FileId × World :=
  match w.nextFault with
  | (some e, w) => (.error e, w)
  | (none, w) =>
    match openNode w.tree w.cwd path mode with
    | .error e => (.error e, w)
    | .ok (id, tree) =>
      let (f, w) := { w with tree := tree }.attach
        { name := path, channel := .node id, writable := mode.writes, appending := mode.appends }
      (.ok f, w.note (.opened f))

-- A file is closed even if the call reports an error; closing it again is refused. The trace shows
-- every attempt, the refused ones too.
def close (w : World) (f : FileId) : Except Cause Unit × World :=
  let w := w.note (.closed f)
  match w.file? f with
  | none => (.error .alreadyClosed, w)
  | some file =>
    if file.closed then (.error (.onPath (ascii "close") file.name .alreadyClosed), w)
    else
      let w := { w with files := w.files.setIfInBounds f { file with closed := true } }
      match w.nextFault with
      | (some e, w) => (.error (.onPath (ascii "close") file.name (.errno e)), w)
      | (none, w) => (.ok (), w)

def heldByChild (w : World) (f : FileId) : Bool :=
  w.children.any fun c => c.outcome.isNone && c.files.toList.contains (some f)

def isHeld (w : World) (channel : Channel) (counts : OpenFile → Bool) : Bool :=
  (List.range w.files.size).any fun f =>
    match w.file? f with
    | some file => file.channel = channel && (counts file || w.heldByChild f)
    | none => false

def hasEnd (w : World) (channel : Channel) : Bool := w.isHeld channel (!·.closed)

-- Programs read all they are given; the shell reads from none of its pipes.
def isServed (w : World) (p : PipeId) : Bool := w.isHeld (.reader p) fun file => file.attended && !file.closed

-- How much a pipe takes that nobody reads from.
def pipeCapacity : Nat := 65536

-- No file is longer.
def fileLimit : Nat := 9223372036854775807

def setFile (w : World) (f : FileId) (file : OpenFile) : World :=
  { w with files := w.files.setIfInBounds f file }

-- How long a file is.
def extent (w : World) : Channel → Nat
  | .node id => ((w.tree.data id).toOption.getD []).length
  | .memory name => ((w.memory.read? name).getD []).length
  | _ => 0

def splice (contents : Bytes) (offset : Nat) (data : Bytes) : Bytes :=
  contents.take offset ++ List.replicate (offset - contents.length) 0 ++ data ++
    contents.drop (offset + data.length)

def write (w : World) (f : FileId) (data : Bytes) : Option Errno × World :=
  match w.file? f with
  | none => (some Errno.badDescriptor, w)
  | some file =>
    if !file.writable then (some Errno.badDescriptor, w)
    else
      match file.channel with
      | .reader _ => (some Errno.badDescriptor, w)
      | .writer p =>
        if !w.hasEnd (.reader p) then (some Errno.brokenPipe, w)
        else
          let filled := { w with pipes := w.pipes.modify p (· ++ data) }
          let surplus := ((w.pipes[p]?.getD []) ++ data).drop pipeCapacity
          (none, if surplus.isEmpty || w.isServed p then filled else filled.halt (.writing f))
      | .memory name =>
        let old := (w.memory.read? name).getD []
        if fileLimit < old.length + data.length then (some Errno.fileTooLarge, w)
        else (none, { w with memory := w.memory.put name (.file (old ++ data)) })
      | .node id =>
        match w.tree.node? id with
        | some (.file old _) =>
          let offset := if file.appending then old.length else file.offset
          if fileLimit < offset + data.length then (some Errno.fileTooLarge, w)
          else
            let new := if offset = old.length then old ++ data else splice old offset data
            (none, { w with tree := w.tree.setData id new }.setFile f
              { file with offset := offset + data.length })
        | some (.device .null) => (none, w)
        | some (.device .full) => if data.isEmpty then (none, w) else (some Errno.noSpace, w)
        | _ => (some Errno.badDescriptor, w)

-- The shell passes over failed writes; nothing is written through a file it has closed.
def emit (w : World) (f : Option FileId) (data : Bytes) : World :=
  match f with
  | none => w
  | some f =>
    match w.file? f with
    | some file => if file.closed then w else (w.write f data).2
    | none => w

def take (w : World) (f : FileId) (limit : Option Nat) : Except Errno Bytes × World :=
  let cut (data : Bytes) : Bytes :=
    match limit with
    | some n => data.take n
    | none => data
  match w.file? f with
  | none => (.error Errno.badDescriptor, w)
  | some file =>
    if file.writable then (.error Errno.badDescriptor, w)
    else
      match file.channel with
      | .writer _ => (.error Errno.badDescriptor, w)
      | .reader p =>
        let data := cut (w.pipes[p]?.getD [])
        (.ok data, { w with pipes := w.pipes.modify p (·.drop data.length) })
      | .memory name => (.ok ((w.memory.read? name).getD []), w)
      | .node id =>
        match w.tree.data id with
        | .error e => (.error e, w)
        | .ok contents =>
          let data := cut (contents.drop file.offset)
          (.ok data, w.setFile f { file with offset := file.offset + data.length })

-- The last entry wins.
def environValue? (w : World) (name : Bytes) : Option Bytes :=
  w.environ.reverse.findSome? fun entry => do
    let (key, value) ← Bytes.cut? Bytes.equals entry
    if key = name then some value else none

def isFile (w : World) (path : Bytes) : Bool :=
  match w.tree.find w.cwd path with
  | .ok id => !w.tree.isDirectory id
  | .error _ => false

def changeDirectory (w : World) (path : Bytes) : Except Errno World :=
  match w.tree.find w.cwd path with
  | .error e => .error e
  | .ok id => if w.tree.isDirectory id then .ok { w with cwd := id } else .error Errno.notDirectory

-- The environment's own name for the directory if that names the same one, else the name found by
-- going up to the root.
def workingDirectory (w : World) : Except Errno Bytes :=
  let found :=
    match w.tree.pathOf w.cwd with
    | some path => .ok path
    | none => .error Errno.noEntry
  match w.environValue? (ascii "PWD") with
  | some pwd =>
    if Path.isAbsolute pwd then
      match w.tree.find w.cwd pwd with
      | .ok id => if id = w.cwd then .ok pwd else found
      | .error _ => found
    else found
  | none => found

end World
end LineShell
