import LineShell.Proofs.Watching

-- Only if the stage behind is the runner's as well does the shell still have the end for reading: it is what that stage
-- is going to read from.
namespace LineShell
open World

namespace Engine
variable {e : Engine} {runner : Runner σ} {start w : World} {rest : FileId → Nat}

-- At the call of the runner for entry `j` of a loop over the commands, which is stage number `i + j`, what this entry
-- and those behind it own is still to be closed.
def Owning (start : World) (i : Nat) (entries : List (Stage × Progress)) (moment : Moment) : Prop :=
  ∃ (j : Nat) (rest : FileId → Nat), moment.world.trace.head? = some (.entered (i + j)) ∧
    Owes start (fun f => rest f + held ((entries.drop j).map (·.1)) f) moment.world

theorem Owning.shift (owning : Owning start (i + 1) others moment) : Owning start i (entry :: others) moment := by
  obtain ⟨j, rest, entered, owes⟩ := owning
  have number : i + 1 + j = i + (j + 1) := by omega
  rw [number] at entered
  exact ⟨j + 1, rest, entered, owes⟩

def catSystem : World := { Session.console [] with tree := Tree.empty.add Tree.root (ascii "cat") (.utility .cat) }

def reading (line : String) : Except Fault Pipeline × World :=
  Session.compile Session.onConsole.expand (ascii line) catSystem

end Engine
end LineShell
