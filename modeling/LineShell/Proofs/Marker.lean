import LineShell.Proofs.Failures
import LineShell.Proofs.Watching

namespace LineShell
open World

namespace Line

-- A word that is spelled as what it stands for.
def Plain (word : Bytes) : Prop :=
  ∀ c ∈ word, c ≠ Bytes.backslash ∧ c ≠ Bytes.singleQuote ∧ c ≠ Bytes.doubleQuote ∧ c ≠ Bytes.dollar

theorem expand_plain (lookups : List Lookup) (plain : Plain word) : expand lookups word = word := by
  unfold expand
  induction word with
  | nil => rfl
  | cons c rest ih =>
    obtain ⟨notEscape, notSingle, notDouble, notDollar⟩ := plain c List.mem_cons_self
    rw [expandFrom.eq_def]
    simp [finishName, notEscape, notSingle, notDouble, notDollar, ih fun d member => plain d (List.mem_cons_of_mem c member)]

end Line

namespace Engine
open Pipeline
variable {e : Engine} {runner : Runner σ} {table : Option (List Bytes)} {stage : Stage} {w : World}

-- What is left to run of a stage's words as they are written, and whether there was a marker.
def handed (expand : Bytes → Bytes) (raw : List Bytes) : List Bytes × Bool :=
  if raw.getLast?.map expand = some backgroundToken then (raw.dropLast.map expand, true) else (raw.map expand, false)

theorem stripBackground_map (expand : Bytes → Bytes) (raw : List Bytes) :
    stripBackground (raw.map expand) = handed expand raw := by
  unfold stripBackground handed
  rw [List.getLast?_map, List.map_dropLast]

-- What launching a program comes to, given the words, and whether it is to be waited for.
inductive Begun (e : Engine) (table : Option (List Bytes)) (words : List Bytes) (background : Bool)
    (files : Triple (Option FileId)) (w : World) : Except Fault Progress → World → Prop where
  | empty (none : words = []) : Begun e table words background files w (.ok (.done 1)) (e.complain files.error emptyCommand w)
  | missing (given : words = command :: args) (unknown : lookPath? w e.searchPath command = none) :
    Begun e table words background files w (.ok (.done notFound))
      (e.complain files.error (ascii "command not found: " ++ command) w)
  | started (given : words = command :: args) (found : lookPath? w e.searchPath command = some path)
    (begun : w.start path words table files = (.ok child, after)) :
    Begun e table words background files w (.ok (if background then .done 0 else .running child)) after
  | refused (given : words = command :: args) (found : lookPath? w e.searchPath command = some path)
    (begun : w.start path words table files = (.error cause, after)) :
    Begun e table words background files w (.error (.spawn path cause)) after

theorem launch_begun (e : Engine) (table : Option (List Bytes)) (stage : Stage) (w : World) :
    Begun e table (stripBackground stage.args).1 (stripBackground stage.args).2 (stage.stdio.resolve e.std) w
      (e.launch table stage w).1 (e.launch table stage w).2 := by
  unfold launch
  rcases stripBackground stage.args with ⟨words, background⟩
  dsimp only
  split
  · exact .empty rfl
  · split
    · rename_i unknown
      exact .missing rfl unknown
    · rename_i found
      split
      · rename_i begun
        exact .refused rfl found begun
      · rename_i begun
        exact .started rfl found begun

-- An assignment is one word, and no marker.
theorem classify_assignment (assigns : StageKind.classify isBuiltin args = .assignment) :
    ∃ token, args = [token] ∧ isBuiltin token = false ∧ token.contains Bytes.equals = true := by
  unfold StageKind.classify at assigns
  split at assigns
  · cases assigns
  · rename_i name rest
    split at assigns
    · cases assigns
    · rename_i foreign
      split at assigns
      · rename_i single
        simp only [Bool.and_eq_true, List.isEmpty_iff] at single
        exact ⟨name, by rw [single.1], by simpa using foreign, single.2⟩
      · cases assigns

theorem stripBackground_unmarked (unmarked : args.getLast? ≠ some backgroundToken) : stripBackground args = (args, false) :=
  if_neg unmarked

theorem stripBackground_marked (args : List Bytes) : stripBackground (args ++ [backgroundToken]) = (args, true) := by
  simp [stripBackground]

theorem givenArgs_classified (kind : stage.kind = StageKind.classify isBuiltin stage.args) :
    givenArgs stage = (stripBackground stage.args).1 := by
  unfold givenArgs
  by_cases assigns : stage.kind = .assignment
  · obtain ⟨token, args, _, equals⟩ := classify_assignment (kind.symm.trans assigns)
    have unmarked : stage.args.getLast? ≠ some backgroundToken := by
      rw [args]
      rintro ⟨⟩
      revert equals
      decide
    rw [if_pos assigns, stripBackground_unmarked unmarked, args]
    rfl
  · rw [if_neg assigns]

-- The stages of a line as they are run, by those that its redirections leave.
theorem run_stage {left : Pipeline} (expand : Bytes → Bytes) (isBuiltin : Bytes → Bool) {j : Nat}
    (found : ((left.substitute expand).classify isBuiltin).stages[j]? = some stage) :
    ∃ raw, left.stages[j]? = some raw ∧ stage.args = raw.args.map expand ∧ stage.stdio = raw.stdio ∧
      stage.kind = StageKind.classify isBuiltin stage.args := by
  simp only [classify, substitute, List.map_map, List.getElem?_map, Option.map_eq_some_iff] at found
  obtain ⟨raw, present, rfl⟩ := found
  exact ⟨raw, present, rfl, rfl, rfl⟩

theorem stage_run {left : Pipeline} (expand : Bytes → Bytes) (isBuiltin : Bytes → Bool) {j : Nat} {raw : Stage}
    (found : left.stages[j]? = some raw) :
    ∃ stage, ((left.substitute expand).classify isBuiltin).stages[j]? = some stage ∧ stage.args = raw.args.map expand ∧
      stage.stdio = raw.stdio ∧ stage.kind = StageKind.classify isBuiltin (raw.args.map expand) := by
  simp [classify, substitute, found]

-- A run of the pipeline `p`, by the stages as the redirections of its line leave them: the runner is called with
-- the words they hand on, once for each stage of its own unless a program does not start, and a program that comes to
-- its turn is launched with them.
structure Hands (e : Engine) (runner : Runner σ) (expand : Bytes → Bytes) (left p : Pipeline) (s : σ) (w : World)
    (runs : List (Nat × Moment)) : Prop where
  watched : Watches e runner p s w runs
  called : ∀ run ∈ runs, ∃ raw, left.stages[run.1]? = some raw ∧ run.2.args = (handed expand raw.args).1
  complete : (e.execute runner p s w).1.fault = none → ∀ (j : Nat) raw, left.stages[j]? = some raw →
    StageKind.classify runner.isBuiltin (raw.args.map expand) ≠ .external → (handed expand raw.args).1 ≠ [] →
    ∃ run ∈ runs, run.1 = j
  programs : ∀ (j : Nat) raw, left.stages[j]? = some raw →
    StageKind.classify runner.isBuiltin (raw.args.map expand) = .external → Clear e (runner.environ s) p w j →
    ∃ result begun, Begun e (runner.environ s) (handed expand raw.args).1 (handed expand raw.args).2
        (raw.stdio.resolve e.std) (worldAt e (runner.environ s) p w j) result begun ∧
      (∀ fault, result = .error fault → (e.execute runner p s w).1.fault = some fault) ∧
      ∃ later, (e.execute runner p s w).2.2.trace = later ++ .dispatched j :: begun.trace

theorem execute_hands (e : Engine) (honest : runner.Honest) (expand : Bytes → Bytes) (left : Pipeline) (s : σ) (w : World)
    (clean : (left.substitute expand).rejectSubshells = none) :
    ∃ runs, Hands e runner expand left ((left.substitute expand).classify runner.isBuiltin) s w runs := by
  have passed := Pipeline.classify_passes runner.isBuiltin clean
  have sorted := classify_sorted (left.substitute expand) runner.isBuiltin
  obtain ⟨runs, watched, ordered⟩ := e.execute_watched honest sorted s w
  refine ⟨runs, watched, ?_, ?_, ?_⟩
  · intro run member
    obtain ⟨stage, found, _, _, args, _⟩ := (ordered.each run member).asked
    obtain ⟨raw, present, words, _, kind⟩ := run_stage expand runner.isBuiltin found
    refine ⟨raw, present, ?_⟩
    rw [args, givenArgs_classified kind, words, stripBackground_map]
  · intro whole j raw found outside given
    obtain ⟨stage, present, words, _, kind⟩ := stage_run expand runner.isBuiltin found
    have inside : stage.Inside := by
      rcases sorted stage (List.mem_of_getElem? present) with external | inside
      · exact absurd (kind.symm.trans external) outside
      · exact inside
    rw [← words] at kind
    refine ordered.complete whole j stage present inside ?_
    rwa [givenArgs_classified kind, words, stripBackground_map]
  · intro j raw found external clear
    obtain ⟨stage, present, words, files, kind⟩ := stage_run expand runner.isBuiltin found
    have begun := e.launch_begun (runner.environ s) stage
      (worldAt e (runner.environ s) ((left.substitute expand).classify runner.isBuiltin) w j)
    rw [words, stripBackground_map, files] at begun
    exact ⟨_, _, begun, execute_turn honest passed present (kind.trans external) clear rfl⟩

-- The last word of a stage is taken for a marker if it stands for `&`. So `&` itself always is, and no other word that
-- is spelled as what it stands for.
theorem marker_expanded (lookups : List Line.Lookup) (assembled : Session.assemble line before = (.ok parts, opened))
    (redirected : parts.redirect (Line.expand lookups) opened = (none, left, ready)) (e : Engine) (honest : runner.Honest)
    (s : σ) :
    (∃ p, Session.compile (Line.expand lookups) line before = (.ok p, ready) ∧
      ∃ runs, Hands e runner (Line.expand lookups) left (p.classify runner.isBuiltin) s ready runs) ∧
    (∀ raw, (∀ word, raw.getLast? = some word → Line.expand lookups word = backgroundToken → word = backgroundToken) →
      handed (Line.expand lookups) raw =
        if raw.getLast? = some backgroundToken then (raw.dropLast.map (Line.expand lookups), true)
        else (raw.map (Line.expand lookups), false)) ∧
    ∀ word, Line.Plain word → Line.expand lookups word = word := by
  have compiled : Session.compile (Line.expand lookups) line before = (.ok (left.substitute (Line.expand lookups)), ready) := by
    unfold Session.compile
    rw [assembled]
    dsimp only
    rw [redirected]
  have literal : Line.expand lookups backgroundToken = backgroundToken :=
    Line.expand_plain lookups (by unfold Line.Plain; decide +kernel)
  refine ⟨⟨_, compiled, e.execute_hands honest (Line.expand lookups) left s ready
    (Session.compile_ok (Line.expand lookups) compiled).2⟩, fun raw spelled => ?_, fun word => Line.expand_plain lookups⟩
  unfold handed
  cases last : raw.getLast? with
  | none => rfl
  | some word =>
    by_cases marker : word = backgroundToken
    · subst marker
      simp [literal]
    · have ordinary : Line.expand lookups word ≠ backgroundToken := fun stands => marker (spelled word last stands)
      simp [marker, ordinary]

-- Lines as their redirections leave them, and the words their commands are called with.

def parsed (line : String) : Except Fault Pipeline × World := Session.assemble (ascii line) (Session.console [])

def redirected (line : String) : Option Fault × Pipeline × World :=
  ((parsed line).1.toOption.getD ⟨[]⟩).redirect (Line.expand Session.onConsole.lookups) (parsed line).2

theorem Watches.args {runs : List (Nat × Moment)} (watched : Watches e runner p s w runs) :
    (e.execute runner.watched p (s, []) w).2.1.2.reverse.map (·.args) = runs.map (fun call => call.2.args) := by
  unfold Watches at watched
  simp [watched, Function.comp_def]

def calledWith (line : String) : List (List Bytes) :=
  let p := (redirected line).2.1.substitute (Line.expand Session.onConsole.lookups)
  (Session.onConsole.engine.execute mixedRunner.watched (p.classify mixedRunner.isBuiltin) (Session.onConsole, [])
    (redirected line).2.2).2.1.2.reverse.map (·.args)

theorem marker_expanded_literal :
    mixedRunner.Honest ∧
    (redirected "mecho '&' & | mecho a > f &").2.1.stages.map (·.args.getLast?) = [some backgroundToken, some backgroundToken] ∧
    ∃ p runs, Session.compile (Line.expand Session.onConsole.lookups) (ascii "mecho '&' & | mecho a > f &")
        (Session.console []) = (.ok p, (redirected "mecho '&' & | mecho a > f &").2.2) ∧
      Hands Session.onConsole.engine mixedRunner (Line.expand Session.onConsole.lookups)
        (redirected "mecho '&' & | mecho a > f &").2.1 (p.classify mixedRunner.isBuiltin) Session.onConsole
        (redirected "mecho '&' & | mecho a > f &").2.2 runs ∧
      runs.map (fun call => call.2.args) = [[ascii "mecho", ascii "&"], [ascii "mecho", ascii "a"]] := by
  have honest : mixedRunner.Honest := (Session.runner_tidy (Session.runScriptAt_tidy Session.maxDepth)).honest
  have accepted : (parsed "mecho '&' & | mecho a > f &").1.isOk = true := by decide +kernel
  have opens : (redirected "mecho '&' & | mecho a > f &").1 = none := by decide +kernel
  have shown : calledWith "mecho '&' & | mecho a > f &" = [[ascii "mecho", ascii "&"], [ascii "mecho", ascii "a"]] := by
    decide +kernel
  refine ⟨honest, by decide +kernel, ?_⟩
  rcases assembled : Session.assemble (ascii "mecho '&' & | mecho a > f &") (Session.console []) with ⟨outcome, opened⟩
  cases outcome with
  | error fault => simp [parsed, assembled, Except.isOk, Except.toBool] at accepted
  | ok parts =>
    have left : parts.redirect (Line.expand Session.onConsole.lookups) opened =
        (none, (redirected "mecho '&' & | mecho a > f &").2.1, (redirected "mecho '&' & | mecho a > f &").2.2) := by
      rw [← opens]
      simp [redirected, parsed, assembled, Except.toOption]
    obtain ⟨⟨p, compiled, runs, hands⟩, _⟩ :=
      marker_expanded Session.onConsole.lookups assembled left Session.onConsole.engine honest Session.onConsole
    refine ⟨p, runs, compiled, hands, ?_⟩
    unfold Session.compile at compiled
    rw [assembled] at compiled
    dsimp only at compiled
    rw [left] at compiled
    have same := Except.ok.inj (congrArg Prod.fst compiled)
    have called := hands.watched.args
    rw [← same] at called
    exact called.symm.trans shown

-- A quoted `&` at the end of a command is taken for a marker as well.
theorem marker_expanded_quoted :
    (redirected "mecho '&'").2.1.stages.map (·.args.getLast?) = [some (ascii "'&'")] ∧
      calledWith "mecho '&'" = [[ascii "mecho"]] := by
  decide +kernel

end Engine
end LineShell
