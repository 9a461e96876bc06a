import LineShell.Bytes.Path
import LineShell.Errno

namespace LineShell

inductive Utility where
  | succeed
  | fail
  | cat
  | tr
  | sh
  | env
  | sort
  | printf
  | rmdir
  deriving DecidableEq, Repr

inductive Device where
  | null
  | full
  deriving DecidableEq, Repr

abbrev NodeId := Nat

inductive Node where
  | directory (parent : NodeId) (entries : List (Bytes × NodeId))
  | file (data : Bytes) (executable : Bool)
  | link (target : Bytes)
  | device (device : Device)
  | utility (utility : Utility)
  deriving DecidableEq, Repr

-- A node is known by its position; node zero is the root directory.
structure Tree where
  nodes : Array Node
  deriving DecidableEq, Repr

namespace Tree
open Bytes

def root : NodeId := 0

def empty : Tree := ⟨#[.directory root []]⟩

def node? (t : Tree) (id : NodeId) : Option Node := t.nodes[id]?

def isDirectory (t : Tree) (id : NodeId) : Bool :=
  match t.node? id with
  | some (.directory ..) => true
  | _ => false

def entry? (name : Bytes) (entries : List (Bytes × NodeId)) : Option NodeId :=
  (entries.find? (·.1 = name)).map (·.2)

inductive Place where
  | found (id : NodeId)
  | missing (directory : NodeId) (name : Bytes)
  deriving DecidableEq, Repr

def nameLimit : Nat := 255

def pathLimit : Nat := 4095

def linkLimit : Nat := 40

-- A slash at the end asks for a directory, as `.` behind it does.
def components (path : Bytes) : List Bytes :=
  let parts := (splitOn slash path).filter (!·.isEmpty)
  if path.getLast? = some slash then parts ++ [Path.current] else parts

-- A link in the way is handed to `onLink`; the last component is looked through if `follow` is set.
def walkWith (t : Tree) (follow : Bool) (onLink : NodeId → List Bytes → Except Errno Place) :
    NodeId → List Bytes → Except Errno Place
  | place, [] => .ok (.found place)
  | place, name :: rest =>
    match t.node? place with
    | some (.directory parent entries) =>
      if nameLimit < name.length then .error Errno.nameTooLong
      else if name = Path.current then walkWith t follow onLink place rest
      else if name = Path.parent then walkWith t follow onLink parent rest
      else
        match entry? name entries with
        | none => if rest.isEmpty then .ok (.missing place name) else .error Errno.noEntry
        | some id =>
          match t.node? id with
          | some (.link target) =>
            if rest.isEmpty && !follow then .ok (.found id)
            else
              onLink (if Path.isAbsolute target then root else place) (components target ++ rest)
          | _ => walkWith t follow onLink id rest
    | _ => .error Errno.notDirectory

def walk (t : Tree) (follow : Bool) : Nat → NodeId → List Bytes → Except Errno Place
  | 0 => walkWith t follow fun _ _ => .error Errno.tooManyLinks
  | links + 1 => walkWith t follow (walk t follow links)

def locate (t : Tree) (cwd : NodeId) (follow : Bool) (path : Bytes) : Except Errno Place :=
  if path.contains 0 then .error Errno.invalid
  else if path.isEmpty then .error Errno.noEntry
  else if pathLimit < path.length then .error Errno.nameTooLong
  else walk t follow linkLimit (if Path.isAbsolute path then root else cwd) (components path)

def find (t : Tree) (cwd : NodeId) (path : Bytes) : Except Errno NodeId := do
  match ← t.locate cwd true path with
  | .found id => return id
  | .missing .. => throw Errno.noEntry

def isLinked (t : Tree) (id : NodeId) : Bool :=
  id = root ||
    match t.node? id with
    | some (.directory parent _) =>
      match t.node? parent with
      | some (.directory _ entries) => entries.any (·.2 = id)
      | _ => false
    | _ => false

def add (t : Tree) (directory : NodeId) (name : Bytes) (node : Node) : Tree :=
  match t.node? directory with
  | some (.directory parent entries) =>
    ⟨(t.nodes.setIfInBounds directory (.directory parent (entries ++ [(name, t.nodes.size)]))).push
      node⟩
  | _ => t

def setNode (t : Tree) (id : NodeId) (node : Node) : Tree := ⟨t.nodes.setIfInBounds id node⟩

def setData (t : Tree) (id : NodeId) (data : Bytes) : Tree :=
  match t.node? id with
  | some (.file _ executable) => t.setNode id (.file data executable)
  | _ => t

def data (t : Tree) (id : NodeId) : Except Errno Bytes :=
  match t.node? id with
  | some (.file data _) => .ok data
  | some (.directory ..) => .error Errno.isDirectory
  | some _ => .ok []
  | none => .error Errno.noEntry

def removeEntry (t : Tree) (directory : NodeId) (name : Bytes) : Tree :=
  match t.node? directory with
  | some (.directory parent entries) =>
    t.setNode directory (.directory parent (entries.filter (·.1 ≠ name)))
  | _ => t

def makeDirectory (t : Tree) (cwd : NodeId) (path : Bytes) : Except Errno Tree := do
  match ← t.locate cwd false path with
  | .found _ => throw Errno.alreadyExists
  | .missing directory name =>
    if t.isLinked directory then return t.add directory name (.directory directory [])
    else throw Errno.noEntry

-- Nothing for a directory that was removed; it can still be left through `..`.
def namesUp (t : Tree) : Nat → NodeId → Option (List Bytes)
  | 0, _ => none
  | fuel + 1, id =>
    if id = root then some []
    else
      match t.node? id with
      | some (.directory parent _) =>
        match t.node? parent with
        | some (.directory _ entries) => do
          let entry ← entries.find? (·.2 = id)
          let above ← namesUp t fuel parent
          return entry.1 :: above
        | _ => none
      | _ => none

def pathOf (t : Tree) (id : NodeId) : Option Bytes :=
  (t.namesUp (t.nodes.size + 1) id).map fun names => slash :: Bytes.join [slash] names.reverse

end Tree
end LineShell
