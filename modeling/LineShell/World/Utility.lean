import LineShell.Variables
import LineShell.World.Basic

namespace LineShell

structure Job where
  arguments : List Bytes
  environ : List Bytes
  cwd : NodeId
  files : Triple (Option FileId)
  deriving DecidableEq, Repr

namespace Job
open Bytes

def name (job : Job) : Bytes := job.arguments.headD []

def operands (job : Job) : List Bytes := job.arguments.drop 1

def put (job : Job) (slot : Slot) (data : Bytes) (w : World) : Option Errno × World :=
  match job.files.get slot with
  | none => (none, w)
  | some f => if data.isEmpty then (none, w) else w.write f data

def report (job : Job) (message : Bytes) (w : World) : World :=
  (job.put .error (message ++ [newline]) w).2

def input (job : Job) (w : World) : Except Errno Bytes × World :=
  match job.files.input with
  | none => (.ok [], w)
  | some f => w.take f none

def explain (e : Errno) : Bytes :=
  match Errno.message e with
  | [] => []
  | c :: rest => (if 0x61 ≤ c && c ≤ 0x7A then c - 0x20 else c) :: rest

def brokenPipeSignal : Nat := 13

-- A pipe nobody reads kills the program.
def finish (job : Job) (output : Bytes) (code : Nat) (w : World) : Outcome × World :=
  match job.put .output output w with
  | (none, w) => (.exited code, w)
  | (some e, w) =>
    if e = Errno.brokenPipe then (.signaled brokenPipeSignal, w)
    else (.exited 1, job.report (job.name ++ ascii ": write error: " ++ explain e) w)

def dash : Bytes := ascii "-"

def operandData (job : Job) (operand : Bytes) (w : World) : Except Errno Bytes × World :=
  if operand = dash then job.input w
  else
    match w.tree.find job.cwd operand with
    | .error e => (.error e, w)
    | .ok id => (w.tree.data id, w)

def copyOperands (job : Job) (code : Nat) : List Bytes → World → Outcome × World
  | [], w => (.exited code, w)
  | operand :: rest, w =>
    match job.operandData operand w with
    | (.error e, w) =>
      copyOperands job 1 rest (job.report (job.name ++ ascii ": " ++ operand ++ ascii ": " ++ explain e) w)
    | (.ok data, w) =>
      match job.finish data 0 w with
      | (.exited 0, w) => copyOperands job code rest w
      | stopped => stopped

def runCat (job : Job) (w : World) : Outcome × World :=
  job.copyOperands 0 (if job.operands.isEmpty then [dash] else job.operands) w

def characterSet : Bytes → Bytes
  | 0x5C :: 0x6E :: rest => 0x0A :: characterSet rest
  | 0x5C :: 0x74 :: rest => 0x09 :: characterSet rest
  | 0x5C :: c :: rest => c :: characterSet rest
  | a :: 0x2D :: b :: rest =>
    (List.range (b.toNat + 1 - a.toNat)).map (fun i => UInt8.ofNat (a.toNat + i)) ++ characterSet rest
  | c :: rest => c :: characterSet rest
  | [] => []

-- A shorter second set is continued by its last byte.
def exchange (source target : Bytes) (c : UInt8) : UInt8 :=
  match source.findIdx? (· = c) with
  | none => c
  | some i => (target[i]?.or target.getLast?).getD c

def runTr (job : Job) (w : World) : Outcome × World :=
  match job.operands, job.input w with
  | [source, target], (.ok data, w) =>
    if source = ascii "-d" then job.finish (data.filter fun c => !(characterSet target).contains c) 0 w
    else job.finish (data.map (exchange (characterSet source) (characterSet target))) 0 w
  | _, (_, w) => (.exited 1, w)

def lines (data : Bytes) : List Bytes :=
  match (splitOn newline data).reverse with
  | [] :: rest => rest.reverse
  | all => all.reverse

def unlines (ls : List Bytes) : Bytes := ls.flatMap (· ++ [newline])

def runSort (job : Job) (w : World) : Outcome × World :=
  match job.operandData (job.operands.headD dash) w with
  | (.ok data, w) => job.finish (unlines (Bytes.sort (lines data))) 0 w
  | (.error e, w) =>
    (.exited 2, job.report (job.name ++ ascii ": cannot read: " ++ job.operands.headD dash ++ ascii ": " ++ explain e) w)

def runEnv (job : Job) (w : World) : Outcome × World := job.finish (unlines job.environ) 0 w

def unescape : Bytes → Bytes
  | 0x5C :: 0x6E :: rest => 0x0A :: unescape rest
  | 0x5C :: 0x74 :: rest => 0x09 :: unescape rest
  | 0x5C :: 0x72 :: rest => 0x0D :: unescape rest
  | 0x5C :: 0x5C :: rest => 0x5C :: unescape rest
  | c :: rest => c :: unescape rest
  | [] => []

def formatOnce : Bytes → List Bytes → Bytes × List Bytes
  | 0x25 :: 0x25 :: rest, args => let (out, left) := formatOnce rest args; (0x25 :: out, left)
  | 0x25 :: _ :: rest, args =>
    let (out, left) := formatOnce rest (args.drop 1)
    (args.headD [] ++ out, left)
  | c :: rest, args => let (out, left) := formatOnce rest args; (c :: out, left)
  | [], args => ([], args)

def format (text : Bytes) : Nat → List Bytes → Bytes
  | 0, _ => []
  | fuel + 1, args =>
    let (out, left) := formatOnce text args
    if left.isEmpty || left.length = args.length then out else out ++ format text fuel left

def formatted : List Bytes → Bytes
  | [] => []
  | text :: args => format (unescape text) (args.length + 1) args

def runPrintf (job : Job) (w : World) : Outcome × World := job.finish (formatted job.operands) 0 w

def removeDirectory (cwd : NodeId) (path : Bytes) (t : Tree) : Except Errno Tree := do
  match ← t.locate cwd false path with
  | .missing .. => throw Errno.noEntry
  | .found id =>
    match t.node? id with
    | some (.directory parent []) =>
      match t.node? parent with
      | some (.directory _ entries) =>
        match entries.find? (·.2 = id) with
        | some entry => return t.removeEntry parent entry.1
        | none => throw Errno.noEntry
      | _ => throw Errno.noEntry
    | some (.directory ..) => throw Errno.notEmpty
    | _ => throw Errno.notDirectory

def removeDirectories (job : Job) (code : Nat) : List Bytes → World → Outcome × World
  | [], w => (.exited code, w)
  | path :: rest, w =>
    match removeDirectory job.cwd path w.tree with
    | .ok tree => removeDirectories job code rest { w with tree := tree }
    | .error e =>
      removeDirectories job 1 rest
        (job.report (job.name ++ ascii ": failed to remove '" ++ path ++ ascii "': " ++ explain e) w)

def runUtility (job : Job) (w : World) : Utility → Outcome × World
  | .succeed => (.exited 0, w)
  | .fail => (.exited 1, w)
  | .cat => job.runCat w
  | .tr => job.runTr w
  | .sort => job.runSort w
  | .env => job.runEnv w
  | .printf => job.runPrintf w
  | .rmdir => job.removeDirectories 0 job.operands w
  | .sh => (.exited 0, w)

end Job
end LineShell
