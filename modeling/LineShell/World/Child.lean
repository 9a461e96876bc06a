import LineShell.World.Script

namespace LineShell.World
open Bytes

-- Of entries with the same name the last one counts, and it keeps its place; entries without a name
-- and value stay as they are.
def dedupe : List Bytes → List Bytes
  | [] => []
  | entry :: rest =>
    let key? (e : Bytes) : Option Bytes :=
      match e with
      | 0x3D :: more => some (((cut? equals more).map fun p => 0x3D :: p.1).getD [])
      | _ => (cut? equals e).map (·.1)
    match key? entry with
    | none => if entry.isEmpty then dedupe rest else entry :: dedupe rest
    | some key => if rest.any (fun e => key? e = some key) then dedupe rest else entry :: dedupe rest

-- A path without a slash is looked up once more, in the directories of the shell's own environment.
def programPath (w : World) (path : Bytes) : Except Cause Bytes :=
  if path.contains slash then .ok path
  else
    let directories := Path.splitList ((w.environValue? (ascii "PATH")).getD [])
    match w.tree.findExecutable? w.cwd directories path with
    | none => .error (.plain (ascii "exec: " ++ Quoted.encode path ++
        ascii ": executable file not found in $PATH"))
    | some found =>
      if Path.isAbsolute found then .ok found
      else .error (.plain (ascii "exec: " ++ Quoted.encode path ++
        ascii ": cannot run executable found relative to current directory"))

def start (w : World) (path : Bytes) (arguments : List Bytes) (environ : Option (List Bytes))
    (files : Triple (Option FileId)) : Except Cause ChildId × World :=
  match w.programPath path with
  | .error cause => (.error cause, w)
  | .ok path =>
    let environ := environ.getD w.environ
    if environ.any (·.contains 0) then
      (.error (.plain (ascii "exec: environment variable contains NUL")), w)
    else
      let refuse (e : Errno) : Cause := .onPath (ascii "fork/exec") path (.errno e)
      if arguments.any (·.contains 0) then (.error (refuse Errno.invalid), w)
      else
        match w.nextFault with
        | (some e, w) => (.error (refuse e), w)
        | (none, w) =>
          match w.tree.loadProgram w.cwd Tree.interpreterLimit path arguments with
          | .error e => (.error (refuse e), w)
          | .ok (utility, arguments) =>
            let child : Child :=
              { utility := utility, arguments := arguments, environ := dedupe environ
                cwd := w.cwd, files := files }
            let id := w.children.size
            (.ok id, { w with children := w.children.push child }.note (.started id))

def isReady (w : World) (c : Child) : Bool :=
  match c.files.input with
  | none => true
  | some f =>
    match w.file? f with
    | some { channel := .reader p, .. } => !w.hasEnd (.writer p)
    | _ => true

def programDepth : Nat := 16

def runChild (w : World) (id : ChildId) : World :=
  match w.children[id]? with
  | none => w
  | some c =>
    if c.outcome.isSome || !w.isReady c then w
    else
      let job : Job := { arguments := c.arguments, environ := c.environ, cwd := c.cwd, files := c.files }
      let (outcome, after) := Script.execute programDepth job c.utility w
      -- A program that cannot write any more waits; all of it is done again in a later turn.
      if after.isBlocked && !w.isBlocked then w
      else { after with children := after.children.setIfInBounds id { c with outcome := some outcome } }

def runRound (w : World) : World := (List.range w.children.size).foldl runChild w

def runRounds : Nat → World → World
  | 0, w => w
  | rounds + 1, w => runRounds rounds w.runRound

-- A round runs at least one program if any can, so as many rounds as programs that wait suffice.
def settle (w : World) : World :=
  runRounds (w.children.toList.countP (·.outcome.isNone)) w

def wait (w : World) (id : ChildId) : Option Outcome × World :=
  let w := w.note (.waited id)
  match w.children[id]?.bind (·.outcome) with
  | some outcome => (some outcome, w)
  | none => (none, w.halt (.waiting id))

-- Whoever can still write to the file gets to do it first.
def drain (w : World) (f : FileId) : Except Errno Bytes × World :=
  let reading := { w with files := w.files.modify f ({ · with attended := true }) }
  reading.settle.take f none

end LineShell.World
