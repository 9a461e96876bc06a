import LineShell.Bytes.Path

namespace LineShell

inductive MemoryEntry where
  | directory
  | file (data : Bytes)
  deriving DecidableEq, Repr

structure Memory where
  entries : List (Bytes × MemoryEntry) := []
  deriving DecidableEq, Repr

namespace Memory
open Bytes

def normalize (path : Bytes) : Bytes :=
  let cleaned := Path.clean path
  if cleaned = Path.current ∨ cleaned = Path.parent then [slash] else cleaned

def find? (m : Memory) (path : Bytes) : Option MemoryEntry :=
  let name := normalize path
  match m.entries.find? (·.1 = name) with
  | some entry => some entry.2
  | none => if name = [slash] then some .directory else none

def put (m : Memory) (name : Bytes) (entry : MemoryEntry) : Memory :=
  if m.entries.any (·.1 = name) then
    ⟨m.entries.map fun e => if e.1 = name then (name, entry) else e⟩
  else ⟨m.entries ++ [(name, entry)]⟩

-- Whatever is already there is left, also a file in the way.
def register (m : Memory) : Nat → Bytes → Memory
  | 0, _ => m
  | fuel + 1, name =>
    let above := Path.directory name
    let m := if above = name then m else register m fuel above
    if (m.find? name).isSome then m else m.put name .directory

def makeDirectories (m : Memory) (path : Bytes) : Memory :=
  let name := normalize path
  m.register (name.length + 1) name

def write (m : Memory) (path data : Bytes) : Memory :=
  let name := normalize path
  (m.makeDirectories (Path.directory name)).put name (.file data)

-- A directory reads as empty.
def read? (m : Memory) (path : Bytes) : Option Bytes :=
  (m.find? path).map fun
    | .directory => []
    | .file data => data

end Memory
end LineShell
