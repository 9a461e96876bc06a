import LineShell.World.Basic

namespace LineShell.Tree
open Bytes

def isGap (c : UInt8) : Bool := c = 0x20 || c = 0x09

def interpreter? : Bytes → Option (Bytes × Option Bytes)
  | 0x23 :: 0x21 :: rest =>
    let line := ((rest.take 254).takeWhile (· ≠ newline)).dropWhile isGap
    let line := (line.reverse.dropWhile isGap).reverse
    let path := line.takeWhile (!isGap ·)
    let argument := (line.dropWhile (!isGap ·)).dropWhile isGap
    if path.isEmpty then none else some (path, if argument.isEmpty then none else some argument)
  | _ => none

def loadProgram (t : Tree) (cwd : NodeId) : Nat → Bytes → List Bytes → Except Errno (Utility × List Bytes)
  | 0, _, _ => .error Errno.tooManyLinks
  | fuel + 1, path, arguments => do
    let id ← t.find cwd path
    match t.node? id with
    | some (.utility u) => return (u, arguments)
    | some (.file data true) =>
      match interpreter? data with
      | some (program, argument) =>
        t.loadProgram cwd fuel program (program :: argument.toList ++ path :: arguments.drop 1)
      | none => throw Errno.badFormat
    | _ => throw Errno.noAccess

def interpreterLimit : Nat := 5

def isExecutable (t : Tree) (cwd : NodeId) (path : Bytes) : Bool :=
  match t.find cwd path with
  | .error _ => false
  | .ok id =>
    match t.node? id with
    | some (.utility _) => true
    | some (.file _ executable) => executable
    | _ => false

def findExecutable? (t : Tree) (cwd : NodeId) (directories : List Bytes) (name : Bytes) : Option Bytes :=
  if name.contains slash then (if t.isExecutable cwd name then some name else none)
  else
    (directories.map fun d => Path.join [if d.isEmpty then Path.current else d, name]).find?
      (t.isExecutable cwd)

end LineShell.Tree
