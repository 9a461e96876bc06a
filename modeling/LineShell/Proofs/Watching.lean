import LineShell.Proofs.Order

namespace LineShell
open World

namespace Engine
variable {e : Engine} {runner : Runner σ} {table : Option (List Bytes)} {stage : Stage} {w : World}

-- A program that comes to its turn is launched then, whatever comes behind it; if it does not start, this is
-- what stops the run.
theorem launchAll_turn {j : Nat} {stages : List Stage} (found : stages[j]? = some stage) (external : stage.kind = .external)
    (clear : (e.launchAll table i (stages.take j) w).1 = none)
    (launched : e.launch table stage (e.launchAll table i (stages.take j) w).2.2 = (result, begun)) :
    (∀ fault, result = .error fault → (e.launchAll table i stages w).1 = some fault) ∧
      ∃ later, (e.launchAll table i stages w).2.2.trace = later ++ .dispatched (i + j) :: begun.trace := by
  induction stages generalizing i j w with
  | nil => cases found
  | cons head others ih =>
    cases j with
    | zero =>
      cases found
      replace launched : e.launch table stage w = (result, begun) := launched
      obtain ⟨_, _, _, later, trace⟩ := dispatch_launching launched i
      cases result with
      | error fault =>
        rw [launchAll_failing others external launched]
        refine ⟨fun other same => ?_, later, trace⟩
        cases same
        rfl
      | ok progress =>
        obtain ⟨calls, following⟩ :=
          launchAll_launched e table (i + 1) others (stage.stdio.release (begun.note (.dispatched i))).2.2
        rw [launchAll_starting others external launched rfl]
        refine ⟨fun other same => (nomatch same), calls ++ later, ?_⟩
        rw [following.launching.reached.trace, trace, List.append_assoc]
        rfl
    | succ j =>
      have number : i + (j + 1) = i + 1 + j := by omega
      rw [number]
      rw [List.take_succ_cons] at clear launched
      by_cases program : head.kind = .external
      · rcases first : e.launch table head w with ⟨outcome, middle⟩
        cases outcome with
        | error fault =>
          rw [launchAll_failing _ program first] at clear
          cases clear
        | ok progress =>
          rw [launchAll_starting _ program first rfl] at clear launched ⊢
          exact ih found clear launched
      · rw [launchAll_passing _ program rfl] at clear launched ⊢
        exact ih found clear launched

-- The loop over the programs is what a run of an accepted pipeline begins with.
theorem execute_launched (e : Engine) (honest : runner.Honest) {p : Pipeline} (clean : p.rejectSubshells = none) (s : σ)
    (w : World) :
    (e.execute runner p s w).1.fault = (e.launchAll (runner.environ s) 0 p.stages (e.dump p w)).1 ∧
      ∃ calls, (e.launchAll (runner.environ s) 0 p.stages (e.dump p w)).2.2.Reaches calls (e.execute runner p s w).2.2 := by
  rcases launching : e.launchAll (runner.environ s) 0 p.stages (e.dump p w) with ⟨stopped, entries, ready⟩
  cases stopped with
  | some fault =>
    rw [execute_stopped clean launching]
    obtain ⟨waits, closing, reached, _⟩ := stoppedAt_reaches entries ready
    exact ⟨rfl, _, reached⟩
  | none =>
    obtain ⟨runs, calls, order⟩ := enterAll_inOrder honest e 0 entries s ready
    rcases ran : e.enterAll runner 0 entries s ready with ⟨left, next, after⟩
    have reached := order.reached
    rw [ran] at reached
    rw [execute_finished clean launching ran]
    obtain ⟨waits, waited, _⟩ := waitAll_reaches left after
    obtain ⟨closing, closed, _⟩ := Pipeline.close_closes ⟨left.map (·.1)⟩ (waitAll left after).2
    exact ⟨rfl, _, (reached.trans waited).trans closed⟩

-- The world in which it is the turn of the program of stage number `j`; whether it comes to that.

def worldAt (e : Engine) (table : Option (List Bytes)) (p : Pipeline) (w : World) (j : Nat) : World :=
  (e.launchAll table 0 (p.stages.take j) (e.dump p w)).2.2

def Clear (e : Engine) (table : Option (List Bytes)) (p : Pipeline) (w : World) (j : Nat) : Prop :=
  (e.launchAll table 0 (p.stages.take j) (e.dump p w)).1 = none

theorem execute_turn (honest : runner.Honest) {p : Pipeline} (clean : p.rejectSubshells = none) {j : Nat}
    (found : p.stages[j]? = some stage) (external : stage.kind = .external) (clear : Clear e (runner.environ s) p w j)
    (launched : e.launch (runner.environ s) stage (worldAt e (runner.environ s) p w j) = (result, begun)) :
    (∀ fault, result = .error fault → (e.execute runner p s w).1.fault = some fault) ∧
      ∃ later, (e.execute runner p s w).2.2.trace = later ++ .dispatched j :: begun.trace := by
  obtain ⟨fails, later, trace⟩ := launchAll_turn found external clear launched
  obtain ⟨same, calls, reached⟩ := e.execute_launched honest clean s w
  refine ⟨fun fault failed => same.trans (fails fault failed), calls ++ later, ?_⟩
  rw [reached.trace, trace, Nat.zero_add, List.append_assoc]

end Engine
end LineShell
