import LineShell.Proofs.Commands
import LineShell.Proofs.Steps
import LineShell.Proofs.Turns

namespace LineShell
open World

-- A runner that settles what it makes: all files made during a call are closed when it returns.
structure Runner.Tidy (runner : Runner σ) : Prop where
  builtin : ∀ args streams s w, Owes w (fun _ => 0) (runner.runBuiltin args streams s w).2.2
  assign : ∀ token streams s w, Owes w (fun _ => 0) (runner.assign token streams s w).2.2

namespace Engine
variable {start w after : World} {owed rest : FileId → Nat}

theorem launch_owes (e : Engine) (table : Option (List Bytes)) (stage : Stage) (w : World) (owes : Owes start owed w) :
    Owes start owed (e.launch table stage w).2 := by
  rcases launched : e.launch table stage w with ⟨result, after⟩
  rcases launch_cases launched with ⟨_, _, answered⟩ | ⟨_, _, _, refused⟩
  · cases answered with
    | empty => exact owes.quiet (e.complain_quiet _ _ w).reached
    | missing => exact owes.quiet (e.complain_quiet _ _ w).reached
    | started _ _ begun => exact owes.mark (start_reaches begun) ⟨rfl, by simp⟩
  · exact owes.quiet (start_refused refused)

-- A program that was dealt with has given its descriptors up, started or not.
theorem dispatch_owes (e : Engine) (table : Option (List Bytes)) (i : Nat) (stage : Stage) (w : World)
    (owes : Owes start (fun f => rest f + stage.stdio.holds f) w) :
    Owes start rest (stage.stdio.release ((e.launch table stage w).2.note (.dispatched i))).2.2 := by
  have launched := launch_owes e table stage w owes
  have marked := launched.mark (note_reaches _ (.dispatched i) (by simp)) ⟨rfl, by simp⟩
  exact marked.closing (stage.stdio.release_closing _).2 (fun _ => Nat.add_comm _ _)

theorem launchAll_owes (e : Engine) (table : Option (List Bytes)) (i : Nat) (stages : List Stage) (w : World)
    (owes : Owes start (fun f => rest f + held stages f) w) :
    Owes start (fun f => rest f + held ((e.launchAll table i stages w).2.1.map (·.1)) f)
      (e.launchAll table i stages w).2.2 := by
  induction stages generalizing i w rest with
  | nil => exact owes
  | cons stage others ih =>
    have parts := owes.uncons stage others
    by_cases external : stage.kind = .external
    · have freed := dispatch_owes e table i stage w parts
      rcases launched : e.launch table stage w with ⟨result, middle⟩
      rw [launched] at freed
      cases result with
      | error fault =>
        rw [launchAll_failing others external launched]
        refine Owes.cons _ _ (freed.congr ?_)
        intro f
        simp [released, Function.comp_def]
      | ok progress =>
        have later := ih (i + 1) _ freed
        rw [launchAll_starting others external launched rfl]
        refine Owes.cons _ _ (later.congr ?_)
        intro f
        simp [released]
    · have moved : Owes start (fun f => (rest f + stage.stdio.holds f) + held others f) w :=
        parts.congr (fun _ => Nat.add_right_comm _ _ _)
      rw [launchAll_passing others external rfl]
      exact Owes.cons _ _ (ih (i + 1) w moved)

theorem enter_owes (e : Engine) {runner : Runner σ} (tidy : runner.Tidy) (stage : Stage) (s : σ) (w : World)
    (owes : Owes start owed w) : Owes start owed (e.enter runner stage s w).2.2 := by
  cases e.handing runner stage s w with
  | empty none answer =>
    rw [answer]
    exact owes.quiet (e.complain_quiet _ _ w).reached
  | assignment name args kind given answer =>
    rw [answer]
    exact owes.nested (tidy.assign _ _ s w)
  | command name args kind given answer =>
    rw [answer]
    exact owes.nested (tidy.builtin _ _ s w)

-- The same for a stage of the runner's, when its turn is over.
theorem entered_owes (e : Engine) {runner : Runner σ} (tidy : runner.Tidy)
    (owes : Owes start (fun f => rest f + stage.stdio.holds f) w)
    (ran : e.enter runner stage s (w.note (.entered i)) = (status, next, middle)) :
    Owes start rest (stage.stdio.release middle).2.2 := by
  have marked := owes.mark (note_reaches w (.entered i) (by simp)) ⟨rfl, by simp⟩
  have entered := enter_owes e tidy stage s _ marked
  rw [ran] at entered
  exact entered.closing (stage.stdio.release_closing middle).2 (fun _ => Nat.add_comm _ _)

theorem enterAll_owes (e : Engine) {runner : Runner σ} (tidy : runner.Tidy) (i : Nat)
    (stages : List (Stage × Progress)) (s : σ) (w : World)
    (owes : Owes start (fun f => rest f + held (stages.map (·.1)) f) w) :
    Owes start (fun f => rest f + held ((e.enterAll runner i stages s w).1.map (·.1)) f)
      (e.enterAll runner i stages s w).2.2 := by
  induction stages generalizing i s w rest with
  | nil => exact owes
  | cons entry others ih =>
    obtain ⟨stage, progress⟩ := entry
    have parts := owes.uncons stage (others.map (·.1))
    by_cases inside : stage.kind = .internal ∨ stage.kind = .assignment
    · rcases ran : e.enter runner stage s (w.note (.entered i)) with ⟨status, next, middle⟩
      have later := ih (i + 1) next _ (entered_owes e tidy parts ran)
      rw [enterAll_running others inside ran rfl]
      refine Owes.cons _ _ (later.congr ?_)
      intro f
      simp [released]
    · have moved : Owes start (fun f => (rest f + stage.stdio.holds f) + held (others.map (·.1)) f) w :=
        parts.congr (fun _ => Nat.add_right_comm _ _ _)
      rw [enterAll_passing others inside rfl]
      exact Owes.cons _ _ (ih (i + 1) s w moved)

theorem waitEach_owes (progress : List Progress) (w : World) (owes : Owes start owed w) :
    Owes start owed (waitEach progress w).2 := by
  induction progress generalizing w with
  | nil => exact owes
  | cons one others ih =>
    cases one with
    | waiting => exact ih w owes
    | done status => exact ih w owes
    | running child => exact ih _ (owes.mark (wait_reaches w child) ⟨rfl, by simp⟩)

theorem waitAll_owes (stages : List (Stage × Progress)) (w : World) (owes : Owes start owed w) :
    Owes start owed (waitAll stages w).2 := by
  have marked := owes.mark (note_reaches w .barrier (by simp)) ⟨rfl, by simp⟩
  exact waitEach_owes _ _ (marked.quiet (settle_quiet _).reached)

-- When a pipeline has been run nothing of it is owed, whichever way the run went.
theorem execute_owes (e : Engine) {runner : Runner σ} (tidy : runner.Tidy) (p : Pipeline) (s : σ) (w : World)
    (owes : Owes start (fun f => rest f + held p.stages f) w) :
    Owes start rest (e.execute runner p s w).2.2 ∧
      ∀ f, held (e.execute runner p s w).1.pipeline.stages f = 0 := by
  cases clean : p.rejectSubshells with
  | some fault =>
    rw [execute_rejected clean]
    exact ⟨Pipeline.close_owes p owes, Pipeline.held_closed p w⟩
  | none =>
    have launched := launchAll_owes e (runner.environ s) 0 p.stages _ (owes.quiet (e.dump_quiet p w).reached)
    rcases launching : e.launchAll (runner.environ s) 0 p.stages (e.dump p w) with ⟨stopped, stages, middle⟩
    rw [launching] at launched
    cases stopped with
    | some fault =>
      rw [execute_stopped clean launching]
      have closed : Owes start rest (Pipeline.close ⟨stages.map (·.1)⟩ middle).2.2 := Pipeline.close_owes ⟨_⟩ launched
      have waited := waitAll_owes stages _ closed
      have emptied := Pipeline.held_closed ⟨stages.map (·.1)⟩ middle
      refine ⟨Pipeline.close_owes _ (waited.congr ?_), Pipeline.held_closed _ _⟩
      intro f
      rw [emptied f]
      rfl
    | none =>
      have entered := enterAll_owes e tidy 0 stages s middle launched
      rw [execute_finished clean launching rfl]
      have waited := waitAll_owes (e.enterAll runner 0 stages s middle).1 _ entered
      exact ⟨Pipeline.close_owes ⟨_⟩ waited, Pipeline.held_closed _ _⟩

end Engine

namespace Pipeline

theorem detectStages_stdio (stages : List Stage) : (detectStages stages).2.map (·.stdio) = stages.map (·.stdio) := by
  induction stages with
  | nil => rfl
  | cons stage others ih =>
    unfold detectStages
    split
    · rfl
    · simpa using ih

theorem held_detect (p : Pipeline) : held p.detectSubshells.2.stages = held p.stages :=
  held_congr _ _ (detectStages_stdio p.stages)

theorem held_substitute (p : Pipeline) (expand : Bytes → Bytes) : held (p.substitute expand).stages = held p.stages :=
  held_congr _ _ (by simp [substitute, Function.comp_def])

theorem held_classify (p : Pipeline) (isBuiltin : Bytes → Bool) : held (p.classify isBuiltin).stages = held p.stages :=
  held_congr _ _ (by simp [classify, Function.comp_def])

end Pipeline

-- A relation that worlds stay within when something is written where it fits and when the directory is changed. What is
-- fit stays so.
structure World.Passing (R : World → World → Prop) (Fit : World → Option FileId → Prop) : Prop where
  refl : ∀ w, R w w
  trans : ∀ {w middle after}, R w middle → R middle after → R w after
  fit : ∀ {w after file}, R w after → Fit w file → Fit after file
  emit : ∀ {w file}, Fit w file → ∀ data, R w (w.emit file data)
  move : ∀ {w directory after}, w.changeDirectory directory = .ok after → R w after

namespace Builtin
variable {R : World → World → Prop} {Fit : World → Option FileId → Prop} {streams : Streams}
  {runScript : Bytes → Streams → Session → World → (Int × Option Bytes) × Session × World}

theorem Done.passes (passing : World.Passing R Fit) (fits : ∀ file, Outlet streams file → Fit w file)
    (done : Done streams s w answer) : R w answer.2.2 := by
  refine done.along (R := fun before after => (∀ file, Outlet streams file → Fit before.2 file) → R before.2 after.2)
    (fun before _ => passing.refl before.2) ?_ ?_ fits
  · exact fun first second ready => passing.trans (first ready)
      (second fun file outlet => passing.fit (first ready) (ready file outlet))
  · intro before after deed ready
    cases deed with
    | write outlet data => exact passing.emit (ready _ outlet) data
    | move moved => exact passing.move moved
    | enter => exact passing.refl _
    | publish => exact passing.refl _
    | unexport => exact passing.refl _
    | exportName => exact passing.refl _

-- A command writes or changes the directory; only `.` does more, and then it is a script that does.
theorem run_passes (passing : World.Passing R Fit) (streams : Streams) (s : Session) (w : World)
    (scripted : ∀ script, scriptOf? args = some script → R w (runScript script streams s w).2.2)
    (fits : ∀ file, Outlet streams file → Fit w file) : R w (run runScript args streams s w).2.2 := by
  cases runs : scriptOf? args with
  | some script =>
    have inside := scripted script runs
    rcases ran : runScript script streams s w with ⟨⟨status, message⟩, next, after⟩
    rw [ran] at inside
    rw [run_script runs ran]
    cases message with
    | none => exact inside
    | some text => exact passing.trans inside (passing.emit (passing.fit inside (fits _ .error)) _)
  | none =>
    rcases run_cases runScript runs streams s w with done | ⟨parsed, _, same⟩
    · exact done.passes passing fits
    · obtain ⟨status, after, exits, _, written⟩ := perform_exit runScript parsed streams s w
      rw [same, exits]
      rcases written with rfl | ⟨data, rfl⟩
      · exact passing.refl _
      · exact passing.emit (fits _ .error) data

end Builtin

theorem World.changeDirectory_same {w : World} (moved : w.changeDirectory directory = .ok after) :
    ∃ cwd, after = { w with cwd := cwd } := by
  unfold changeDirectory at moved
  repeat' split at moved
  all_goals cases moved
  exact ⟨_, rfl⟩

-- Nothing is owed for what a command does itself.
theorem World.owes_passing : World.Passing (fun w after => Owes w (fun _ => 0) after) (fun _ _ => True) where
  refl := Owes.refl
  trans first second := first.nested second
  fit _ := id
  emit _ _ := (Owes.refl _).quiet (emit_reaches _ _ _)
  move moved := by
    obtain ⟨cwd, rfl⟩ := changeDirectory_same moved
    exact (Owes.refl _).quiet (reaches_of_same rfl rfl rfl)

namespace Session
variable {start : World} {scripts : ScriptRunner}

theorem abandoned_owes (p : Pipeline) (w : World) (owes : Owes start (held p.stages) w) :
    Owes start (fun _ => 0) (p.close w).2.2 :=
  p.close_owes (owes.congr fun _ => (Nat.zero_add _).symm)

theorem assemble_owes (line : Bytes) (w : World) :
    Owes w (Pipeline.owedBy (assemble line w).1) (assemble line w).2 := by
  have detected : ∀ {tokens p found left after}, Pipeline.build tokens w = (.ok p, after) →
      p.detectSubshells = (found, left) → Owes w (held left.stages) after := by
    intro tokens p found left after built detects
    have owes := Pipeline.build_owes tokens w
    have same := Pipeline.held_detect p
    rw [built] at owes
    rw [detects] at same
    exact owes.congr fun f => congrFun same.symm f
  cases assembling line w with
  | unsplit fault splits answer =>
    rw [answer]
    exact Owes.refl w
  | unbuilt tokens fault after splits built answer =>
    have owes := Pipeline.build_owes tokens w
    rw [built] at owes
    rw [answer]
    exact owes
  | abandoned tokens p left fault after splits built detects refused answer =>
    rw [answer]
    exact abandoned_owes left after (detected built detects)
  | done tokens p left after splits built detects clean answer =>
    rw [answer]
    exact detected built detects

theorem compile_owes (expand : Bytes → Bytes) (line : Bytes) (w : World) :
    Owes w (Pipeline.owedBy (compile expand line w).1) (compile expand line w).2 := by
  have owes := assemble_owes line w
  have redirected : ∀ {p middle}, assemble line w = (.ok p, middle) →
      Owes w (fun f => 0 + held (Redirection.applyStages expand p.stages middle).2.1 f)
        (Redirection.applyStages expand p.stages middle).2.2 := by
    intro p middle assembled
    rw [assembled] at owes
    exact Redirection.applyStages_owes expand p.stages middle (owes.congr fun _ => (Nat.zero_add _).symm)
  cases compiling expand line w with
  | unassembled fault after assembled answer =>
    rw [assembled] at owes
    rw [answer]
    exact owes
  | abandoned p middle after fault stages assembled applied answer =>
    have ready := redirected assembled
    rw [applied] at ready
    rw [answer]
    exact Pipeline.close_owes ⟨stages⟩ ready
  | done p middle after stages assembled applied answer =>
    have ready := redirected assembled
    rw [applied] at ready
    rw [answer]
    refine ready.congr fun f => ?_
    rw [Nat.zero_add]
    exact (congrFun (Pipeline.held_substitute ⟨stages⟩ expand) f).symm

-- A way of running scripts that settles what it makes.
def TidyScripts (scripts : ScriptRunner) : Prop := ∀ path s w, Owes w (fun _ => 0) (scripts path s w).2.2

theorem runner_tidy (tidy : TidyScripts scripts) : (runner scripts).Tidy where
  builtin args streams s w := Builtin.run_passes World.owes_passing streams s w
    (fun path _ => tidy path (s.redirectStd streams.files) w) fun _ _ => trivial
  assign := by
    intro token streams s w
    dsimp only [runner]
    unfold assign
    split
    · exact Owes.refl w
    · exact (Owes.refl w).quiet (emit_reaches w _ _)

theorem runLine_owes (tidy : TidyScripts scripts) (line : Bytes) (s : Session) (w : World) :
    Owes w (fun _ => 0) (runLine scripts line s w).2.2 := by
  have compiled := compile_owes s.expand line w
  unfold runLine
  split
  · rename_i fault after failed
    rwa [failed] at compiled
  · rename_i p after done
    rw [done] at compiled
    have classified : Owes w (fun f => 0 + held (p.classify Builtin.isBuiltin).stages f) after := by
      refine compiled.congr ?_
      intro f
      rw [Nat.zero_add, Pipeline.held_classify]
      rfl
    obtain ⟨executed, emptied⟩ := s.engine.execute_owes (runner_tidy tidy) _ s after classified
    refine Pipeline.close_owes _ (executed.congr ?_)
    intro f
    rw [emptied f]

theorem append_quiet (f : FileId) (line : Bytes) (w : World) : Quiet w (append f line w) := by
  unfold append
  dsimp only
  split
  · exact Quiet.refl w
  · split
    · exact emit_quiet w _ _
    · have wrote := write_quiet w f line
      split
      · rename_i written
        rwa [written] at wrote
      · rename_i failed
        rw [failed] at wrote
        exact wrote.trans (emit_quiet _ _ _)

-- Recording an event asks nothing of the world.
theorem record_reaches (s : Session) (event : Event) (w : World) : Reaches w [] (s.record event w) := by
  unfold record
  dsimp only
  have noted : Reaches w [] (w.noteEvent event) := reaches_of_same rfl rfl rfl
  split
  · exact emit_reaches w _ _
  · exact noted
  · exact noted.trans (append_quiet _ _ _).reached

theorem record_cwd (s : Session) (event : Event) (w : World) : (s.record event w).cwd = w.cwd := by
  unfold record
  dsimp only
  split
  · exact (emit_still w _ _).cwd
  · rfl
  · exact (append_quiet _ _ _).still.cwd

theorem reported_reaches (s : Session) (line : Bytes) (result : LineResult) (fault : Fault) (w : World) :
    Reaches w [] (s.reported line result fault w) :=
  (record_reaches s _ w).trans (emit_reaches _ _ _)

theorem reported_cwd (s : Session) (line : Bytes) (result : LineResult) (fault : Fault) (w : World) :
    (s.reported line result fault w).cwd = w.cwd :=
  (emit_still _ _ _).cwd.trans (record_cwd s _ w)

theorem interpretWith_owes (tidy : TidyScripts scripts) (line : Bytes) (s : Session) (w : World) :
    Owes w (fun _ => 0) (interpretWith scripts line s w).2.2 := by
  have inside := runLine_owes tidy (trimmed line) s w
  cases closing scripts line s w with
  | blank absent answer =>
    rw [answer]
    exact Owes.refl w
  | held present result next after fault ran passed stored answer =>
    rw [ran] at inside
    rw [answer]
    exact inside
  | passed present result next after ran fine free answer =>
    rw [ran] at inside
    rw [answer]
    exact inside.quiet (record_reaches _ _ _)
  | failed present result next after fault ran fails answer =>
    rw [ran] at inside
    rw [answer]
    exact inside.quiet (reported_reaches _ _ _ _ _)

theorem owes_of_interpretWith (tidy : TidyScripts scripts)
    (interpreted : interpretWith scripts line s w = (answer, next, after)) : Owes w (fun _ => 0) after := by
  have owes := interpretWith_owes tidy line s w
  rwa [interpreted] at owes

theorem LinesRun.owes (run : LinesRun scripts lines s w turns result) (tidy : TidyScripts scripts) :
    Owes w (fun _ => 0) result.2.2 := by
  induction run with
  | finished => exact Owes.refl _
  | tooLong => exact Owes.refl _
  | fatal _ first => exact owes_of_interpretWith tidy first
  | exited _ first _ => exact owes_of_interpretWith tidy first
  | goes _ first _ _ ih => exact (owes_of_interpretWith tidy first).nested ih

theorem BlocksRun.owes (run : BlocksRun scripts path blocks r s w turns result) (tidy : TidyScripts scripts) :
    Owes w (fun _ => 0) result.2.2 := by
  induction run with
  | spent => exact Owes.refl _
  | unreadable => exact Owes.refl _
  | tooLong => exact Owes.refl _
  | last _ run => exact run.owes tidy
  | failed _ run => exact run.owes tidy
  | exited _ run _ => exact run.owes tidy
  | goes _ run _ _ ih => exact (run.owes tidy).nested ih

theorem openScript_quiet (storage : Storage) (path : Bytes) (w : World) : Quiet w (storage.openScript path w).2 := by
  unfold Storage.openScript
  split
  · exact Quiet.refl w
  · split
    · rename_i asked
      exact ⟨nextFault_of_eq asked, nextFault_still asked, nextFault_endures asked⟩
    · rename_i asked
      exact ⟨nextFault_of_eq asked, nextFault_still asked, nextFault_endures asked⟩

-- Scripts that run scripts: by induction on how deep they still may.
theorem ScriptRun.owes (run : ScriptRun deeper path s w turns result) : Owes w (fun _ => 0) result.2.2 := by
  induction deeper generalizing path s w turns result with
  | zero =>
    cases run
    exact Owes.refl w
  | succ deeper ih =>
    have opening := (openScript_quiet s.storage path w).reached
    cases run with
    | unopened opens =>
      rw [opens] at opening
      exact (Owes.refl w).quiet opening
    | opened _ opens run =>
      rw [opens] at opening
      exact ((Owes.refl w).quiet opening).nested (run.owes fun path s w => ih (scriptRun deeper path s w))

theorem runScriptAt_tidy (levels : Nat) : TidyScripts (runScriptAt levels) :=
  fun path s w => (scriptRun levels path s w).owes

-- The calls made while a line is interpreted: every pipe end and every redirection target is closed
-- once, and of the files that were there before, the standard ones among them, none is.
theorem interpret_closes_once (line : Bytes) (s : Session) (w : World)
    (standard : ∀ slot f, s.std.get slot = some f → f < w.files.size) :
    ∃ calls, (interpret line s w).2.2.trace = calls ++ w.trace ∧
      (∀ f ∈ made calls, calls.count (.closed f) = 1 ∧ (interpret line s w).2.2.isClosed f = some true) ∧
      (∀ f, f ∉ made calls → .closed f ∉ calls) ∧
      ∀ slot f, s.std.get slot = some f →
        .closed f ∉ calls ∧ (interpret line s w).2.2.isClosed f = w.isClosed f := by
  obtain ⟨calls, account⟩ := interpretWith_owes (runScriptAt_tidy s.levels) line s w
  refine ⟨calls, account.reached.trace, fun f => (account.settled f).1, fun f => (account.settled f).2, ?_⟩
  intro slot f here
  have old := standard slot f here
  have notMade : f ∉ made calls := fun present => Nat.lt_irrefl _ (Nat.lt_of_lt_of_le old (account.fresh f present).1)
  have untouched := (account.settled f).2 notMade
  refine ⟨untouched, ?_⟩
  rw [interpret, account.reached.flags f old, if_neg untouched]

-- A world in which every call is granted, save those that the list refuses, and a session on it.

def consoleFile (name : String) (writable : Bool) : OpenFile :=
  { name := ascii name, channel := .memory (ascii name), writable := writable }

def console (faults : List (Option Errno)) : World :=
  { files := #[consoleFile "in" false, consoleFile "out" true, consoleFile "err" true], faults := faults }

def onConsole : Session := { std := ⟨some 0, some 1, some 2⟩ }

theorem onConsole_std (faults : List (Option Errno)) (slot : Slot) (f : FileId) (here : onConsole.std.get slot = some f) :
    f < (console faults).files.size := by
  cases slot <;> cases here <;> simp [console]

-- The second `>` closes the first one's file, and that call fails: the line is given up with a pipe
-- and two files made.
theorem interpret_closes_once_refused :
    (∀ slot f, onConsole.std.get slot = some f → f < (console [none, none, none, some 5]).files.size) ∧
      ∃ calls, (interpret (ascii "A=1 | B=2 > f > g") onConsole (console [none, none, none, some 5])).2.2.trace = calls ++ [] ∧
        made calls = [6, 5, 3, 4] ∧ ∀ f ∈ made calls, calls.count (.closed f) = 1 := by
  refine ⟨onConsole_std _, ?_⟩
  obtain ⟨calls, trace, once, _⟩ := interpret_closes_once (ascii "A=1 | B=2 > f > g") onConsole
    (console [none, none, none, some 5]) (onConsole_std _)
  have shown : (interpret (ascii "A=1 | B=2 > f > g") onConsole (console [none, none, none, some 5])).2.2.trace =
      [.closed 6, .closed 3, .closed 4, .closed 5, .opened 6, .opened 5, .piped 3 4] := by decide +kernel
  have listed : calls = [.closed 6, .closed 3, .closed 4, .closed 5, .opened 6, .opened 5, .piped 3 4] := by
    rw [← shown, trace]
    exact (List.append_nil calls).symm
  refine ⟨calls, trace, ?_, fun f present => (once f present).1⟩
  rw [listed]
  rfl

end Session
end LineShell
