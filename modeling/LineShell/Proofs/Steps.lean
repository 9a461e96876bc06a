import LineShell.Engine
import LineShell.Proofs.Ownership
import LineShell.Proofs.Programs

namespace LineShell.Engine
open World

theorem complain_quiet (e : Engine) (file : Option FileId) (message : Bytes) (w : World) :
    Quiet w (e.complain file message w) := emit_quiet w _ _

-- A program has been dealt with: its stage is refused as empty, it is reported as missing, or it has
-- been started.
inductive Answered (e : Engine) (table : Option (List Bytes)) (stage : Stage) (w : World) : World → Prop where
  | empty (none : (stripBackground stage.args).1 = []) :
    Answered e table stage w (e.complain (stage.stdio.resolve e.std).error emptyCommand w)
  | missing (given : (stripBackground stage.args).1 = command :: args) (unknown : lookPath? w e.searchPath command = none) :
    Answered e table stage w (e.complain (stage.stdio.resolve e.std).error (ascii "command not found: " ++ command) w)
  | started (given : (stripBackground stage.args).1 = command :: args) (found : lookPath? w e.searchPath command = some path)
    (begun : w.start path (command :: args) table (stage.stdio.resolve e.std) = (.ok child, after)) :
    Answered e table stage w after

variable {e : Engine} {runner : Runner σ} {table : Option (List Bytes)} {stage : Stage} {w middle after : World}

-- Otherwise the program was found and did not start.
theorem launch_cases (launched : e.launch table stage w = (result, after)) :
    (∃ progress, result = .ok progress ∧ Answered e table stage w after) ∨
    ∃ path cause, result = .error (.spawn path cause) ∧
      w.start path (stripBackground stage.args).1 table (stage.stdio.resolve e.std) = (.error cause, after) := by
  unfold launch at launched
  dsimp only at launched
  split at launched
  · rename_i none
    cases launched
    exact .inl ⟨_, rfl, .empty none⟩
  · rename_i command args given
    split at launched
    · rename_i unknown
      cases launched
      exact .inl ⟨_, rfl, .missing given unknown⟩
    · rename_i path found
      split at launched
      · rename_i refused
        cases launched
        exact .inr ⟨path, _, rfl, refused⟩
      · rename_i begun
        cases launched
        rw [given] at begun
        exact .inl ⟨_, rfl, .started given found begun⟩

-- One step of each of the two loops over the stages.

def released (stage : Stage) : Stage := { stage with stdio := Stdio.inherit }

theorem launchAll_failing (others : List Stage) (external : stage.kind = .external)
    (launched : e.launch table stage w = (.error fault, middle)) :
    e.launchAll table i (stage :: others) w = (some fault, (released stage, .waiting) :: others.map (·, .waiting),
      (stage.stdio.release (middle.note (.dispatched i))).2.2) := by
  rw [launchAll, if_pos external, launched]
  have emptied := (stage.stdio.release_closing (middle.note (.dispatched i))).1
  dsimp only
  rw [emptied]
  rfl

theorem launchAll_starting (others : List Stage) (external : stage.kind = .external)
    (launched : e.launch table stage w = (.ok progress, middle))
    (later : e.launchAll table (i + 1) others (stage.stdio.release (middle.note (.dispatched i))).2.2 =
      (stopped, stages, after)) :
    e.launchAll table i (stage :: others) w = (stopped, (released stage, progress) :: stages, after) := by
  rw [launchAll, if_pos external, launched]
  have emptied := (stage.stdio.release_closing (middle.note (.dispatched i))).1
  dsimp only
  rw [emptied, later]
  rfl

theorem launchAll_passing (others : List Stage) (internal : stage.kind ≠ .external)
    (later : e.launchAll table (i + 1) others w = (stopped, stages, after)) :
    e.launchAll table i (stage :: others) w = (stopped, (stage, .waiting) :: stages, after) := by
  rw [launchAll, if_neg internal, later]

theorem enterAll_running (others : List (Stage × Progress)) (inside : stage.kind = .internal ∨ stage.kind = .assignment)
    (ran : e.enter runner stage s (w.note (.entered i)) = (status, next, middle))
    (later : e.enterAll runner (i + 1) others next (stage.stdio.release middle).2.2 = (stages, last, after)) :
    e.enterAll runner i ((stage, progress) :: others) s w = ((released stage, .done status) :: stages, last, after) := by
  rw [enterAll, if_pos inside, ran]
  have emptied := (stage.stdio.release_closing middle).1
  dsimp only
  rw [emptied, later]
  rfl

theorem enterAll_passing (others : List (Stage × Progress))
    (outside : ¬(stage.kind = .internal ∨ stage.kind = .assignment))
    (later : e.enterAll runner (i + 1) others s w = (stages, last, after)) :
    e.enterAll runner i ((stage, progress) :: others) s w = ((stage, progress) :: stages, last, after) := by
  rw [enterAll, if_neg outside, later]

theorem dump_quiet (e : Engine) (p : Pipeline) (w : World) : Quiet w (e.dump p w) := by
  unfold dump
  split
  · exact Quiet.refl w
  · rename_i sink _
    have lines : ∀ (texts : List Bytes) (w : World), Quiet w
        (texts.foldl (fun w line => w.emit (some sink.file) (sink.label ++ line ++ [Bytes.newline])) w) := by
      intro texts
      induction texts with
      | nil => exact Quiet.refl
      | cons line others ih => exact fun w => (emit_quiet w _ _).trans (ih _)
    exact lines _ w

-- What a stage of the runner's does: it is refused as empty, or the runner is called for an assignment or a command.

theorem enter_empty (none : (stripBackground stage.args).1 = []) :
    e.enter runner stage s w =
      (1, s, e.complain (Streams.ofFiles (stage.stdio.resolve e.std)).channels.error emptyCommand w) := by
  unfold enter
  rw [none]

theorem enter_assigning (kind : stage.kind = .assignment) (given : (stripBackground stage.args).1 = command :: args) :
    e.enter runner stage s w = runner.assign command (Streams.ofFiles (stage.stdio.resolve e.std)) s w := by
  unfold enter
  rw [given]
  exact if_pos kind

theorem enter_commanding (kind : stage.kind ≠ .assignment) (given : (stripBackground stage.args).1 = command :: args) :
    e.enter runner stage s w = runner.runBuiltin (command :: args) (Streams.ofFiles (stage.stdio.resolve e.std)) s w := by
  unfold enter
  rw [given]
  exact if_neg kind

inductive Handing (e : Engine) (runner : Runner σ) (stage : Stage) (s : σ) (w : World) : Prop where
  | empty (none : (stripBackground stage.args).1 = []) (answer : e.enter runner stage s w =
      (1, s, e.complain (Streams.ofFiles (stage.stdio.resolve e.std)).channels.error emptyCommand w))
  | assignment (name : Bytes) (args : List Bytes) (kind : stage.kind = .assignment)
    (given : (stripBackground stage.args).1 = name :: args)
    (answer : e.enter runner stage s w = runner.assign name (Streams.ofFiles (stage.stdio.resolve e.std)) s w)
  | command (name : Bytes) (args : List Bytes) (kind : stage.kind ≠ .assignment)
    (given : (stripBackground stage.args).1 = name :: args)
    (answer : e.enter runner stage s w = runner.runBuiltin (name :: args) (Streams.ofFiles (stage.stdio.resolve e.std)) s w)

theorem handing (e : Engine) (runner : Runner σ) (stage : Stage) (s : σ) (w : World) : Handing e runner stage s w := by
  cases given : (stripBackground stage.args).1 with
  | nil => exact .empty given (enter_empty given)
  | cons name args =>
    by_cases kind : stage.kind = .assignment
    · exact .assignment name args kind given (enter_assigning kind given)
    · exact .command name args kind given (enter_commanding kind given)

-- The three ways a run can go.

theorem execute_rejected {p : Pipeline} (refused : p.rejectSubshells = some fault) :
    e.execute runner p s w =
      ({ status := 1, fault := some fault, pipeline := (p.close w).2.1 }, s, (p.close w).2.2) := by
  unfold execute
  rw [refused]

-- The pipeline and the world when a program would not start, and when all of them have been dealt with.

def stoppedAt (entries : List (Stage × Progress)) (w : World) : Pipeline × World :=
  let closed := Pipeline.close ⟨entries.map (·.1)⟩ w
  (closed.2.1.close (waitAll entries closed.2.2).2).2

def finishedAt (entries : List (Stage × Progress)) (w : World) : Pipeline × World :=
  (Pipeline.close ⟨entries.map (·.1)⟩ (waitAll entries w).2).2

theorem execute_stopped {p : Pipeline} (clean : p.rejectSubshells = none)
    (launched : e.launchAll (runner.environ s) 0 p.stages (e.dump p w) = (some fault, entries, middle)) :
    e.execute runner p s w = (⟨1, some fault, (stoppedAt entries middle).1⟩, s, (stoppedAt entries middle).2) := by
  unfold execute
  rw [clean, launched]
  rfl

theorem execute_finished {p : Pipeline} (clean : p.rejectSubshells = none)
    (launched : e.launchAll (runner.environ s) 0 p.stages (e.dump p w) = (none, entries, middle))
    (ran : e.enterAll runner 0 entries s middle = (left, next, after)) :
    e.execute runner p s w =
      (⟨firstFailure (waitAll left after).1, none, (finishedAt left after).1⟩, next, (finishedAt left after).2) := by
  unfold execute
  rw [clean]
  dsimp only
  rw [launched]
  dsimp only
  rw [ran]
  rfl

end LineShell.Engine
