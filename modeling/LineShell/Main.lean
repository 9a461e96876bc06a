import LineShell.CommandLine.Run
import LineShell.World.Layout

namespace LineShell.Program

def inherited : List String := ["PATH", "USER", "XDG_CONFIG_HOME"]

def home : Bytes := ascii "/home"

def standardPath (slot : Slot) : Bytes := ascii "/dev/" ++ slot.name

def openStandard (slot : Slot) (mode : World.Mode) (data : Bytes) (w : World) : Option FileId × World :=
  let w := { w with tree := w.tree.install Tree.root (standardPath slot) (.file data false) }
  match w.openFile (standardPath slot) mode with
  | (.ok f, w) => (some f, w)
  | (.error _, w) => (none, w)

def written (slot : Slot) (w : World) : Bytes :=
  match w.tree.find Tree.root (standardPath slot) with
  | .ok id => (w.tree.data id).toOption.getD []
  | .error _ => []

def run (arguments environ : List Bytes) (input : Bytes) (clock number : Nat) : CommandLine.Exit × Bytes × Bytes :=
  let (cwd, tree) := Tree.system.installDirectory Tree.root home
  let w : World :=
    { tree := tree, cwd := cwd, clock := clock, executable := ascii "/usr/bin/myshell"
      environ := (ascii "HOME=" ++ home) :: environ }
  let (stdin, w) := openStandard .input .read input w
  let (stdout, w) := openStandard .output .append [] w
  let (stderr, w) := openStandard .error .append [] w
  let i : CommandLine.Invocation := { arguments := arguments, std := ⟨stdin, stdout, stderr⟩, number := number }
  let (ending, w) := i.exit { w with log := stderr, stderr := stderr }
  (ending, written .output w, written .error w)

partial def readAll (stream : IO.FS.Stream) (chunks : List UInt8) : IO Bytes := do
  let chunk ← stream.read 65536
  if chunk.isEmpty then return chunks else readAll stream (chunks ++ chunk.toList)

def environment : IO (List Bytes) := do
  let found ← inherited.mapM fun name => do
    return (← IO.getEnv name).map fun value => utf8 name ++ [Bytes.equals] ++ utf8 value
  return found.filterMap id

partial def standStill : IO UInt32 := do
  IO.sleep 3600000
  standStill

end LineShell.Program

open LineShell in
def main (arguments : List String) : IO UInt32 := do
  let input ← Program.readAll (← IO.getStdin) []
  let environ ← Program.environment
  let clock ← IO.monoNanosNow
  let number ← IO.rand 0 4294967295
  let (ending, output, errors) := Program.run (arguments.map utf8) environ input clock number
  (← IO.getStdout).write ⟨output.toArray⟩
  (← IO.getStderr).write ⟨errors.toArray⟩
  match ending with
  | .status code => return code.toUInt32
  | .signal number => return (128 + number).toUInt32
  | .never => Program.standStill
