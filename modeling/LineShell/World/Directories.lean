import LineShell.World.Basic

namespace LineShell.World
open Bytes

def above (path : Bytes) : Bytes :=
  ((path.reverse.dropWhile (· = slash)).dropWhile (· ≠ slash)).reverse

def makeDirectory (w : World) (path : Bytes) : Option Cause × World :=
  let failed (e : Errno) : Option Cause := some (.onPath (ascii "mkdir") path (.errno e))
  match w.tree.makeDirectory w.cwd (path.reverse.dropWhile (· = slash)).reverse with
  | .ok tree => (none, { w with tree := tree })
  | .error e =>
    -- A directory that is there under another spelling is as good as a new one.
    match w.tree.locate w.cwd false path with
    | .ok (.found id) => if w.tree.isDirectory id then (none, w) else (failed e, w)
    | _ => (failed e, w)

def makeDirectoriesFrom : Nat → Bytes → World → Option Cause × World
  | 0, _, w => (none, w)
  | fuel + 1, path, w =>
    match w.tree.find w.cwd path with
    | .ok id =>
      if w.tree.isDirectory id then (none, w)
      else (some (.onPath (ascii "mkdir") path (.errno Errno.notDirectory)), w)
    | .error _ =>
      let parent := above path
      let (fault, w) := if parent.isEmpty then (none, w) else makeDirectoriesFrom fuel parent w
      match fault with
      | some cause => (some cause, w)
      | none => w.makeDirectory path

def makeDirectories (path : Bytes) (w : World) : Option Cause × World :=
  makeDirectoriesFrom (path.length + 1) path w

end LineShell.World
