import LineShell.World.Child
import LineShell.Proofs.Calls

namespace LineShell
open World

namespace Job

theorem put_quiet (job : Job) (slot : Slot) (data : Bytes) (w : World) : Quiet w (job.put slot data w).2 := by
  unfold put
  split
  · exact Quiet.refl w
  · split
    · exact Quiet.refl w
    · exact write_quiet w _ data

theorem report_quiet (job : Job) (message : Bytes) (w : World) : Quiet w (job.report message w) :=
  put_quiet job .error _ w

theorem input_quiet (job : Job) (w : World) : Quiet w (job.input w).2 := by
  unfold input
  split
  · exact Quiet.refl w
  · exact take_quiet w _ none

theorem finish_quiet (job : Job) (output : Bytes) (code : Nat) (w : World) :
    Quiet w (job.finish output code w).2 := by
  have written := put_quiet job .output output w
  unfold finish
  split
  · rename_i after put
    rwa [put] at written
  · rename_i e after put
    rw [put] at written
    split
    · exact written
    · exact written.trans (report_quiet job _ after)

theorem operandData_quiet (job : Job) (operand : Bytes) (w : World) :
    Quiet w (job.operandData operand w).2 := by
  unfold operandData
  split
  · exact input_quiet job w
  · split <;> exact Quiet.refl w

theorem copyOperands_quiet (job : Job) (code : Nat) (operands : List Bytes) (w : World) :
    Quiet w (job.copyOperands code operands w).2 := by
  induction operands generalizing code w with
  | nil => exact Quiet.refl w
  | cons operand rest ih =>
    have read := operandData_quiet job operand w
    unfold copyOperands
    split
    · rename_i e after data
      rw [data] at read
      exact (read.trans (report_quiet job _ after)).trans (ih 1 _)
    · rename_i contents after data
      rw [data] at read
      have written := finish_quiet job contents 0 after
      split
      · rename_i later finished
        rw [finished] at written
        exact (read.trans written).trans (ih code later)
      · exact read.trans written

theorem runTr_quiet (job : Job) (w : World) : Quiet w (job.runTr w).2 := by
  have read := input_quiet job w
  unfold runTr
  split
  · rename_i source target data after _ taken
    rw [taken] at read
    split <;> exact read.trans (finish_quiet job _ 0 after)
  · rename_i taken _
    rwa [taken] at read

theorem runSort_quiet (job : Job) (w : World) : Quiet w (job.runSort w).2 := by
  have read := operandData_quiet job (job.operands.headD dash) w
  unfold runSort
  split
  · rename_i data after taken
    rw [taken] at read
    exact read.trans (finish_quiet job _ 0 after)
  · rename_i e after taken
    rw [taken] at read
    exact read.trans (report_quiet job _ after)

theorem removeDirectory_within {t later : Tree} (removed : removeDirectory place path t = .ok later) :
    Tree.Within t later := by
  unfold removeDirectory at removed
  cases located : t.locate place false path with
  | error e =>
    rw [located] at removed
    cases removed
  | ok place =>
    rw [located] at removed
    cases place with
    | missing => cases removed
    | found id =>
      simp only [Bind.bind, Except.bind] at removed
      repeat' split at removed
      all_goals cases removed
      exact Tree.removeEntry_within t _ _

theorem removeDirectories_quiet (job : Job) (code : Nat) (paths : List Bytes) (w : World) :
    Quiet w (job.removeDirectories code paths w).2 := by
  induction paths generalizing code w with
  | nil => exact Quiet.refl w
  | cons path rest ih =>
    unfold removeDirectories
    split
    · rename_i removed
      refine Quiet.trans ?_ (ih code _)
      exact ⟨reaches_of_same rfl rfl rfl, ⟨rfl, rfl, rfl⟩, endures_of_tree (removeDirectory_within removed)⟩
    · exact (report_quiet job _ w).trans (ih 1 _)

theorem runUtility_quiet (job : Job) (utility : Utility) (w : World) : Quiet w (job.runUtility w utility).2 := by
  cases utility with
  | succeed => exact Quiet.refl w
  | fail => exact Quiet.refl w
  | cat => exact copyOperands_quiet job 0 _ w
  | tr => exact runTr_quiet job w
  | sort => exact runSort_quiet job w
  | env => exact finish_quiet job _ 0 w
  | printf => exact finish_quiet job _ 0 w
  | rmdir => exact removeDirectories_quiet job 0 _ w
  | sh => exact Quiet.refl w

end Job

namespace Script

theorem redirect_quiet (s : State) (line : Nat) (targets : List (Slot × Target)) (w : World) :
    Quiet w (redirect s line targets w).2.2 := by
  induction targets generalizing s w with
  | nil => exact Quiet.refl w
  | cons target rest ih =>
    obtain ⟨slot, target⟩ := target
    cases target with
    | copy source => exact ih _ w
    | path word mode =>
      unfold redirect
      dsimp only
      split
      · exact Job.report_quiet _ _ w
      · rename_i id tree opened
        have changed : Quiet w { w with tree := tree } :=
          ⟨reaches_of_same rfl rfl rfl, ⟨rfl, rfl, rfl⟩, endures_of_tree (openNode_within opened)⟩
        exact changed.trans ((attach_quiet _ (by simp)).trans (ih _ _))

section
variable {exec : Job → Utility → World → Outcome × World}
  (quietly : ∀ job utility w, Quiet w (exec job utility w).2)
include quietly

theorem runProgram_quiet (s : State) (line : Nat) (arguments : List Bytes) (w : World) :
    Quiet w (runProgram exec s line arguments w).2 := by
  unfold runProgram
  dsimp only
  split
  · split <;> exact Job.report_quiet _ _ w
  · split
    · exact Job.report_quiet _ _ w
    · exact quietly _ _ w

omit quietly in
theorem writeOut_quiet (s : State) (data : Bytes) (w : World) : Quiet w (writeOut s data w).2 := by
  have written := Job.finish_quiet (s.job [s.name]) data 0 w
  unfold writeOut
  split
  · rename_i code after finished
    rwa [finished] at written
  · rename_i signal after finished
    rwa [finished] at written

theorem runWords_quiet (s : State) (line : Nat) (words : List Bytes) (w : World) :
    Quiet w (runWords exec s line words w).2 := by
  unfold runWords
  split
  · exact Quiet.refl w
  -- Only the commands that write, the programs and a signal for the shell touch the world.
  · repeat' split
    all_goals first
      | exact Quiet.refl w
      | exact writeOut_quiet _ _ w
      | exact kill_quiet w _
      | exact runProgram_quiet quietly _ _ _ w

theorem runCommand_quiet (s : State) (c : Command) (w : World) : Quiet w (runCommand exec s c w).2 := by
  have redirected := redirect_quiet s c.line c.redirections w
  unfold runCommand
  split
  · rename_i inner after applied
    rwa [applied] at redirected
  · rename_i inner after applied
    rw [applied] at redirected
    split
    · split
      · exact redirected
      · exact redirected.trans (runWords_quiet quietly inner c.line _ after)
    · exact redirected.trans (runWords_quiet quietly inner c.line _ after)

omit quietly in
theorem modify_quiet (quiet : Quiet w after) (new : w.files.size ≤ f) (stays : ∀ file, Stays file (change file)) :
    Quiet w { after with files := after.files.modify f change } := by
  obtain ⟨reached, still, endures⟩ := quiet
  refine ⟨⟨reached.trace, by simpa using reached.files, ?_, reached.programs⟩, ⟨still.cwd, still.environ, still.events⟩,
    endures.trans (modify_endures after f stays)⟩
  intro g present
  have other : f ≠ g := Nat.ne_of_gt (Nat.lt_of_lt_of_le present new)
  have same := reached.flags g present
  simpa [isClosed, file?, Array.getElem?_modify, other] using same

theorem runStages_quiet (s : State) (stages : List Command) (w : World) :
    Quiet w (runStages exec s stages w).2 := by
  fun_induction runStages exec s stages w with
  | case1 => exact Quiet.refl _
  | case2 s c w => exact runCommand_quiet quietly s c w
  | case3 s c rest w more pipe piped reader opened readerMade writer both writerMade first ran ranFirst
      last left ranRest closed ih =>
    have first : Quiet w (attach { w with pipes := w.pipes.push [] }
        { name := ascii "|0", channel := .reader pipe, attended := true }).2 := piped_quiet w rfl
    have second : Quiet opened (opened.attach
        { name := ascii "|1", channel := .writer pipe, writable := true, closed := true }).2 := attach_quiet opened (by simp)
    have command := runCommand_quiet quietly { s with files := s.files.set .output (some writer) } c both
    have new : w.files.size ≤ reader := by
      cases readerMade
      exact Nat.le_refl _
    rw [show attach { w with pipes := w.pipes.push [] } _ = (reader, opened) from readerMade] at first
    rw [writerMade] at second
    rw [ranFirst] at command
    rw [ranRest] at ih
    have all := first.trans (second.trans (command.trans ih))
    exact modify_quiet all new fun _ => ⟨rfl, fun _ => rfl, id⟩

theorem runSteps_quiet (s : State) (steps : List Step) (w : World) : Quiet w (runSteps exec s steps w).2 := by
  fun_induction runSteps exec s steps w with
  | case1 s w => exact Quiet.refl w
  | case2 s step rest w skip skipped ih => exact ih
  | case3 s step rest w skip runs inner after finished outcome ended =>
    have ran := runStages_quiet quietly s step.stages w
    rwa [finished] at ran
  | case4 s step rest w skip runs inner after finished continues ih =>
    have ran := runStages_quiet quietly s step.stages w
    rw [finished] at ran
    exact ran.trans ih

theorem run_quiet (job : Job) (w : World) : Quiet w (run exec job w).2 := by
  unfold run
  split
  · have read := Job.input_quiet job w
    split
    · rename_i script after taken
      rw [taken] at read
      exact read.trans (runSteps_quiet quietly _ _ after)
    · rename_i e after taken
      rwa [taken] at read
  · split
    · split
      · exact Job.report_quiet job _ w
      · exact runSteps_quiet quietly _ _ w
      · exact runSteps_quiet quietly _ _ w
    · split
      · exact Job.report_quiet job _ w
      · split
        · exact runSteps_quiet quietly _ _ w
        · exact Quiet.refl w

end

theorem execute_quiet (depth : Nat) (job : Job) (utility : Utility) (w : World) :
    Quiet w (execute depth job utility w).2 := by
  induction depth generalizing job utility w with
  | zero => exact Quiet.refl w
  | succ depth ih =>
    cases utility with
    | sh => exact run_quiet ih job w
    | _ => exact Job.runUtility_quiet job _ w

end Script

namespace World
variable {w after : World}

-- A program does not run, as it is not ready or cannot write yet, or it runs to its end.
theorem runChild_cases (w : World) (id : ChildId) :
    w.runChild id = w ∨ ∃ c outcome after, w.children[id]? = some c ∧
      Script.execute programDepth { arguments := c.arguments, environ := c.environ, cwd := c.cwd, files := c.files } c.utility w =
        (outcome, after) ∧ (after.isBlocked = true → w.isBlocked = true) ∧
      w.runChild id = { after with children := after.children.setIfInBounds id { c with outcome := some outcome } } := by
  unfold runChild
  split
  · exact .inl rfl
  · rename_i c found
    split
    · exact .inl rfl
    · dsimp only
      generalize executed : Script.execute programDepth
        { arguments := c.arguments, environ := c.environ, cwd := c.cwd, files := c.files } c.utility w = ran
      obtain ⟨outcome, after⟩ := ran
      dsimp only
      split
      · exact .inl rfl
      · rename_i goes
        exact .inr ⟨c, outcome, after, found, executed, by simpa using goes, rfl⟩

theorem runChild_quiet (w : World) (id : ChildId) : Quiet w (w.runChild id) := by
  rcases runChild_cases w id with same | ⟨c, outcome, after, found, executed, _, same⟩
  · rw [same]
    exact Quiet.refl w
  · rw [same]
    obtain ⟨ran, still, endures⟩ := Script.execute_quiet programDepth
      { arguments := c.arguments, environ := c.environ, cwd := c.cwd, files := c.files } c.utility w
    rw [executed] at ran still endures
    refine ⟨ran.before_quiet (reaches_of_files rfl rfl ?_), ⟨still.cwd, still.environ, still.events⟩,
      endures.trans (endures_of_same rfl rfl rfl rfl rfl rfl)⟩
    -- The outcome is written into the entry as it was before the run: running it has kept that.
    intro child given here
    by_cases other : id = child
    · subst other
      have before := ran.programs id (c.cwd, c.environ) (by simp [surroundings, found])
      rw [here] at before
      cases before
      have present := Array.getElem?_eq_some_iff.mp (Option.map_eq_some_iff.mp here).choose_spec.1
      simp [surroundings, present.1]
    · simpa [surroundings, other] using here

theorem settle_along {R : World → World → Prop} (refl : ∀ w, R w w)
    (trans : ∀ {w middle after}, R w middle → R middle after → R w after) (child : ∀ w id, R w (w.runChild id)) (w : World) :
    R w w.settle := by
  have rounds : ∀ (ids : List ChildId) (w : World), R w (ids.foldl runChild w) := by
    intro ids
    induction ids with
    | nil => exact refl
    | cons id rest ih => exact fun w => trans (child w id) (ih _)
  unfold settle
  induction w.children.toList.countP (·.outcome.isNone) generalizing w with
  | zero => exact refl w
  | succ count ih => exact trans (rounds _ w) (ih _)

theorem settle_quiet (w : World) : Quiet w w.settle := settle_along Quiet.refl Quiet.trans runChild_quiet w

theorem wait_answer (w : World) (id : ChildId) : (w.wait id).1 = w.children[id]?.bind (·.outcome) := by
  unfold wait
  dsimp only
  split
  · rename_i ended
    exact ended.symm
  · rename_i running
    exact running.symm

theorem wait_left (w : World) (id : ChildId) : Quiet (w.note (.waited id)) (w.wait id).2 := by
  unfold wait
  dsimp only
  split
  · exact Quiet.refl _
  · exact halt_quiet _ _

theorem wait_children (w : World) (id : ChildId) : (w.wait id).2.children = w.children := by
  unfold wait
  dsimp only
  split
  · rfl
  · obtain ⟨halted, same⟩ := halt_same (w.note (.waited id)) (.waiting id)
    rw [same]
    rfl

theorem wait_reaches (w : World) (id : ChildId) : Reaches w [.waited id] (w.wait id).2 :=
  (note_reaches w _ (by simp)).after_quiet (wait_left w id).reached

-- A program that starts is the next child, with the working directory of the shell and the
-- environment it is given.
theorem start_ok (started : w.start path arguments table given = (.ok number, after)) :
    ∃ granted child, w.nextFault = (none, granted) ∧ number = granted.children.size ∧ child.cwd = granted.cwd ∧
      child.environ = dedupe (table.getD w.environ) ∧
      after = { granted with children := granted.children.push child }.note (.started number) := by
  unfold start at started
  split at started
  · cases started
  · dsimp only at started
    split at started
    · cases started
    · split at started
      · cases started
      · split at started
        · cases started
        · rename_i granted asked
          split at started
          · cases started
          · cases started
            exact ⟨granted, _, asked, rfl, rfl, rfl, rfl⟩

-- One that does not start leaves nothing but the question whether it may.
theorem start_error (refused : w.start path arguments table given = (.error cause, after)) :
    after = w ∨ ∃ fault, w.nextFault = (fault, after) := by
  unfold start at refused
  split at refused
  · cases refused
    exact .inl rfl
  · dsimp only at refused
    split at refused
    · cases refused
      exact .inl rfl
    · split at refused
      · cases refused
        exact .inl rfl
      · split at refused
        · rename_i asked
          cases refused
          exact .inr ⟨_, asked⟩
        · rename_i granted asked
          split at refused
          · cases refused
            exact .inr ⟨_, asked⟩
          · cases refused

theorem start_reaches (started : w.start path arguments table given = (.ok number, after)) :
    Reaches w [.started number] after := by
  obtain ⟨granted, child, asked, _, _, _, rfl⟩ := start_ok started
  have pushed : Reaches granted [] { granted with children := granted.children.push child } := by
    refine reaches_of_files rfl rfl ?_
    intro k given here
    obtain ⟨old, found, rfl⟩ := Option.map_eq_some_iff.mp here
    have other : k ≠ granted.children.size := Nat.ne_of_lt (Array.getElem?_eq_some_iff.mp found).1
    simpa [surroundings, Array.getElem?_push, other] using here
  exact (nextFault_of_eq asked).before_quiet (pushed.before_quiet (note_reaches _ _ (by simp)))

theorem start_refused (refused : w.start path arguments table given = (.error cause, after)) :
    Reaches w [] after := by
  rcases start_error refused with rfl | ⟨fault, asked⟩
  · exact Reaches.refl _
  · exact nextFault_of_eq asked

end World
end LineShell
