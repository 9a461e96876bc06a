import LineShell.World.Basic

namespace LineShell.Tree
open Bytes

def ensure : List Bytes → NodeId → Tree → NodeId × Tree
  | [], place, t => (place, t)
  | name :: rest, place, t =>
    match t.node? place with
    | some (.directory parent entries) =>
      if name = Path.parent then ensure rest parent t
      else
        match entry? name entries with
        | some id => ensure rest id t
        | none => ensure rest t.nodes.size (t.add place name (.directory place []))
    | _ => (place, t)

def install (t : Tree) (start : NodeId) (path : Bytes) (node : Node) : Tree :=
  let start := if Path.isAbsolute path then root else start
  match (components (Path.clean path)).reverse with
  | [] => t
  | name :: above =>
    let (directory, t) := t.ensure above.reverse start
    match t.node? directory with
    | some (.directory _ entries) =>
      match entry? name entries with
      | some id => t.setNode id node
      | none => t.add directory name node
    | _ => t

def installDirectory (t : Tree) (start : NodeId) (path : Bytes) : NodeId × Tree :=
  t.ensure (components (Path.clean path)) (if Path.isAbsolute path then root else start)

def utilities : List (String × Utility) :=
  [("true", .succeed), ("false", .fail), ("cat", .cat), ("tr", .tr), ("sh", .sh), ("env", .env),
    ("sort", .sort), ("printf", .printf), ("rmdir", .rmdir), ("sleep", .succeed)]

def system : Tree :=
  let t := utilities.foldl (fun t u => t.install root (ascii "/usr/bin/" ++ ascii u.1) (.utility u.2)) empty
  let t := t.install root (ascii "/bin") (.link (ascii "usr/bin"))
  let t := t.install root (ascii "/dev/null") (.device .null)
  let t := t.install root (ascii "/dev/full") (.device .full)
  (t.installDirectory root (ascii "/tmp")).2

def list (t : Tree) : Nat → Bytes → NodeId → List (Bytes × Node)
  | 0, _, _ => []
  | depth + 1, above, id =>
    match t.node? id with
    | some (.directory _ entries) =>
      (entries.mergeSort fun a b => notAfter a.1 b.1).flatMap fun entry =>
        let path := if above.isEmpty then entry.1 else above ++ [slash] ++ entry.1
        match t.node? entry.2 with
        | some node => (path, node) :: t.list depth path entry.2
        | none => []
    | _ => []

end LineShell.Tree
