import LineShell.Bytes

namespace LineShell.Path
open Bytes

def isAbsolute (path : Bytes) : Bool := path.head? = some slash

def parent : Bytes := ascii ".."

def current : Bytes := ascii "."

-- One more component for a stack of cleaned ones, the last component on top. An absolute path has
-- no parent above its root; a relative one keeps leading parents.
def push (absolute : Bool) (stack : List Bytes) (part : Bytes) : List Bytes :=
  if part = [] ∨ part = current then stack
  else if part = parent then
    match stack with
    | [] => if absolute then [] else [parent]
    | top :: rest => if top = parent then parent :: top :: rest else rest
  else part :: stack

def clean (path : Bytes) : Bytes :=
  let absolute := isAbsolute path
  let parts := ((splitOn slash path).foldl (push absolute) []).reverse
  match absolute, parts with
  | true, _ => slash :: join [slash] parts
  | false, [] => current
  | false, _ => join [slash] parts

def join (parts : List Bytes) : Bytes :=
  match parts.dropWhile List.isEmpty with
  | [] => []
  | kept => clean (Bytes.join [slash] kept)

def directory (path : Bytes) : Bytes :=
  clean (path.reverse.dropWhile (· ≠ slash)).reverse

def base (path : Bytes) : Bytes :=
  if path.isEmpty then current
  else
    match path.reverse.dropWhile (· = slash) with
    | [] => [slash]
    | rest => (rest.takeWhile (· ≠ slash)).reverse

def splitList (list : Bytes) : List Bytes :=
  if list.isEmpty then [] else splitOn colon list

end LineShell.Path
