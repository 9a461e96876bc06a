import LineShell.Proofs.Marker

-- Two runs are compared that differ in the marker alone; up to the barrier they are one run, but where the stage is an
-- assignment.
namespace LineShell
open World

namespace Engine
open Pipeline
variable {e : Engine} {runner : Runner σ} {table : Option (List Bytes)} {stage : Stage} {w : World}

-- What of a stage matters for running it, and of what became of it if it is not waited for.

def bare (stage : Stage) : Stage := { stage with args := (stripBackground stage.args).1 }

def unwaited : Progress → Progress
  | .running _ => .done 0
  | other => other

def bareEntry (entry : Stage × Progress) : Stage × Progress := (bare entry.1, unwaited entry.2)

section
variable {other : Stage} {stages others : List Stage} {entries alike : List (Stage × Progress)}

theorem bare_parts (same : bare stage = bare other) :
    stage.kind = other.kind ∧ stage.stdio = other.stdio ∧ stage.subshells = other.subshells ∧
      (stripBackground stage.args).1 = (stripBackground other.args).1 := by
  unfold bare at same
  obtain ⟨words, stdio, kind, subshells⟩ := Stage.mk.inj same
  exact ⟨kind, stdio, subshells, words⟩

theorem bare_released (same : bare stage = bare other) : bare (released stage) = bare (released other) :=
  congrArg released same

theorem enter_bare (same : bare stage = bare other) (e : Engine) (runner : Runner σ) (s : σ) (w : World) :
    e.enter runner stage s w = e.enter runner other s w := by
  obtain ⟨kind, stdio, _, words⟩ := bare_parts same
  unfold enter
  rw [stdio, words, kind]

theorem launch_bare (same : bare stage = bare other) (e : Engine) (table : Option (List Bytes)) (w : World) :
    (e.launch table stage w).1.map unwaited = (e.launch table other w).1.map unwaited ∧
      (e.launch table stage w).2 = (e.launch table other w).2 := by
  obtain ⟨_, stdio, _, words⟩ := bare_parts same
  unfold launch
  rw [stdio]
  rcases first : stripBackground stage.args with ⟨args, background⟩
  rcases second : stripBackground other.args with ⟨args', also⟩
  rw [first, second] at words
  cases words
  dsimp only
  split
  · exact ⟨rfl, rfl⟩
  · split
    · exact ⟨rfl, rfl⟩
    · split
      · exact ⟨rfl, rfl⟩
      · refine ⟨?_, rfl⟩
        cases background <;> cases also <;> rfl

theorem launchAll_bare (same : stages.map bare = others.map bare) (e : Engine) (table : Option (List Bytes)) (i : Nat)
    (w : World) :
    (e.launchAll table i stages w).1 = (e.launchAll table i others w).1 ∧
      (e.launchAll table i stages w).2.1.map bareEntry = (e.launchAll table i others w).2.1.map bareEntry ∧
      (e.launchAll table i stages w).2.2 = (e.launchAll table i others w).2.2 := by
  induction stages generalizing others i w with
  | nil =>
    cases List.map_eq_nil_iff.mp same.symm
    exact ⟨rfl, rfl, rfl⟩
  | cons stage rest ih =>
    cases others with
    | nil => cases same
    | cons other remaining =>
      obtain ⟨head, tail⟩ := List.cons.inj same
      obtain ⟨kind, stdio, _, _⟩ := bare_parts head
      by_cases external : stage.kind = .external
      · have also := kind.symm.trans external
        obtain ⟨result, world⟩ := launch_bare head e table w
        rcases first : e.launch table stage w with ⟨outcome, middle⟩
        rcases second : e.launch table other w with ⟨outcome', middle'⟩
        rw [first, second] at result world
        cases world
        cases outcome with
        | error fault =>
          cases outcome' with
          | ok progress => cases result
          | error fault' =>
            cases result
            rw [launchAll_failing rest external first, launchAll_failing remaining also second, stdio]
            refine ⟨rfl, ?_, rfl⟩
            have waiting : (rest.map (·, Progress.waiting)).map bareEntry = (remaining.map (·, Progress.waiting)).map bareEntry := by
              have paired := congrArg (List.map (·, Progress.waiting)) tail
              simpa [bareEntry, unwaited, Function.comp_def] using paired
            rw [List.map_cons, List.map_cons, waiting]
            exact congrArg (· :: _) (Prod.ext (bare_released head) rfl)
        | ok progress =>
          cases outcome' with
          | error fault => cases result
          | ok progress' =>
            have one : bareEntry (released stage, progress) = bareEntry (released other, progress') :=
              Prod.ext (bare_released head) (Except.ok.inj result)
            rw [launchAll_starting rest external first rfl, launchAll_starting remaining also second rfl, stdio]
            obtain ⟨fault, left, after⟩ := ih tail (i + 1) (other.stdio.release (middle.note (.dispatched i))).2.2
            exact ⟨fault, by rw [List.map_cons, List.map_cons, one, left], after⟩
      · have also : other.kind ≠ .external := fun wrong => external (kind.trans wrong)
        have one : bareEntry (stage, .waiting) = bareEntry (other, .waiting) := Prod.ext head rfl
        rw [launchAll_passing rest external rfl, launchAll_passing remaining also rfl]
        obtain ⟨fault, left, after⟩ := ih tail (i + 1) w
        exact ⟨fault, by rw [List.map_cons, List.map_cons, one, left], after⟩

theorem enterAll_bare (same : entries.map bareEntry = alike.map bareEntry) (e : Engine) (runner : Runner σ) (i : Nat) (s : σ)
    (w : World) :
    (e.enterAll runner i entries s w).1.map bareEntry = (e.enterAll runner i alike s w).1.map bareEntry ∧
      (e.enterAll runner i entries s w).2 = (e.enterAll runner i alike s w).2 := by
  induction entries generalizing alike i s w with
  | nil =>
    cases List.map_eq_nil_iff.mp same.symm
    exact ⟨rfl, rfl⟩
  | cons entry rest ih =>
    cases alike with
    | nil => cases same
    | cons also remaining =>
      obtain ⟨stage, progress⟩ := entry
      obtain ⟨other, progress'⟩ := also
      obtain ⟨head, tail⟩ := List.cons.inj same
      obtain ⟨one, settles⟩ := Prod.mk.inj head
      obtain ⟨kind, stdio, _, _⟩ := bare_parts one
      by_cases inside : stage.kind = .internal ∨ stage.kind = .assignment
      · have insideToo : other.kind = .internal ∨ other.kind = .assignment := by rwa [← kind]
        rcases ran : e.enter runner stage s (w.note (.entered i)) with ⟨status, next, middle⟩
        have ranToo := enter_bare one e runner s (w.note (.entered i))
        rw [ran] at ranToo
        rw [enterAll_running rest inside ran rfl, enterAll_running remaining insideToo ranToo.symm rfl, stdio]
        obtain ⟨left, after⟩ := ih tail (i + 1) next (other.stdio.release middle).2.2
        have done : bareEntry (released stage, .done status) = bareEntry (released other, .done status) :=
          Prod.ext (bare_released one) rfl
        exact ⟨by rw [List.map_cons, List.map_cons, done, left], after⟩
      · have outside : ¬(other.kind = .internal ∨ other.kind = .assignment) := by rwa [← kind]
        rw [enterAll_passing rest inside rfl, enterAll_passing remaining outside rfl]
        obtain ⟨left, after⟩ := ih tail (i + 1) s w
        exact ⟨by rw [List.map_cons, List.map_cons, head, left], after⟩

theorem rejectStages_bare (same : stages.map bare = others.map bare) (passed : rejectStages stages = none) :
    rejectStages others = none := by
  induction stages generalizing others with
  | nil =>
    cases List.map_eq_nil_iff.mp same.symm
    rfl
  | cons stage rest ih =>
    cases others with
    | nil => cases same
    | cons other remaining =>
      obtain ⟨head, tail⟩ := List.cons.inj same
      obtain ⟨_, _, subshells, _⟩ := bare_parts head
      unfold rejectStages at passed ⊢
      rw [← subshells]
      split at passed
      · exact ih tail passed
      · cases passed

-- Two runs that come to the barrier in the same way: what was called, started and changed until then is the same.
structure SameRun (e : Engine) (runner : Runner σ) (p q : Pipeline) (s : σ) (w v : World) : Prop where
  fault : (e.execute runner p s w).1.fault = (e.execute runner q s v).1.fault
  state : (e.execute runner p s w).2.1 = (e.execute runner q s v).2.1
  barrier : ∃ entries alike at_barrier, entries.map bareEntry = alike.map bareEntry ∧
    ((e.execute runner p s w).2.2 = (stoppedAt entries at_barrier).2 ∧
        (e.execute runner q s v).2.2 = (stoppedAt alike at_barrier).2 ∨
      (e.execute runner p s w).2.2 = (finishedAt entries at_barrier).2 ∧
        (e.execute runner q s v).2.2 = (finishedAt alike at_barrier).2)

theorem execute_bare {p q : Pipeline} (same : p.stages.map bare = q.stages.map bare) (clean : p.rejectSubshells = none)
    (shown : e.dump p w = e.dump q v) (runner : Runner σ) (s : σ) : SameRun e runner p q s w v := by
  have cleanToo : q.rejectSubshells = none := rejectStages_bare same clean
  obtain ⟨fault, left, world⟩ := launchAll_bare same e (runner.environ s) 0 (e.dump p w)
  rcases first : e.launchAll (runner.environ s) 0 p.stages (e.dump p w) with ⟨stopped, entries, ready⟩
  rcases second : e.launchAll (runner.environ s) 0 q.stages (e.dump p w) with ⟨stopped', alike, ready'⟩
  rw [first, second] at fault left world
  rw [shown] at second
  cases fault
  cases world
  cases stopped with
  | some fault =>
    constructor
    · rw [execute_stopped clean first, execute_stopped cleanToo second]
    · rw [execute_stopped clean first, execute_stopped cleanToo second]
    · rw [execute_stopped clean first, execute_stopped cleanToo second]
      exact ⟨entries, alike, ready, left, .inl ⟨rfl, rfl⟩⟩
  | none =>
    obtain ⟨settles, after⟩ := enterAll_bare left e runner 0 s ready
    rcases ran : e.enterAll runner 0 entries s ready with ⟨done, next, last⟩
    rcases ranToo : e.enterAll runner 0 alike s ready with ⟨done', next', last'⟩
    rw [ran, ranToo] at settles after
    cases after
    constructor
    · rw [execute_finished clean first ran, execute_finished cleanToo second ranToo]
    · rw [execute_finished clean first ran, execute_finished cleanToo second ranToo]
    · rw [execute_finished clean first ran, execute_finished cleanToo second ranToo]
      exact ⟨done, done', last, settles, .inr ⟨rfl, rfl⟩⟩

end

-- A stage with a marker put behind its words, and how it is run decided then.
def withMarker (isBuiltin : Bytes → Bool) (stage : Stage) : Stage :=
  { stage with
    args := stage.args ++ [backgroundToken]
    kind := StageKind.classify isBuiltin (stage.args ++ [backgroundToken]) }

structure Unmarked (isBuiltin : Bytes → Bool) (stage : Stage) : Prop where
  given : stage.args ≠ []
  last : stage.args.getLast? ≠ some backgroundToken
  kind : stage.kind = StageKind.classify isBuiltin stage.args

theorem classify_marked (given : args ≠ []) : StageKind.classify isBuiltin (args ++ [backgroundToken]) =
    if StageKind.classify isBuiltin args = .assignment then .external else StageKind.classify isBuiltin args := by
  cases args with
  | nil => exact absurd rfl given
  | cons name rest =>
    have several : (rest ++ [backgroundToken]).isEmpty = false := by simp
    rw [List.cons_append]
    unfold StageKind.classify
    dsimp only
    rw [several]
    by_cases builtin : isBuiltin name = true
    · simp [builtin]
    · by_cases single : (rest.isEmpty && name.contains Bytes.equals) = true
      · simp only [builtin, single, Bool.false_and, Bool.false_eq_true, if_true, if_false]
      · simp only [builtin, single, Bool.false_and, Bool.false_eq_true, if_false, reduceCtorEq]

theorem Unmarked.words (unmarked : Unmarked isBuiltin stage) :
    stripBackground (withMarker isBuiltin stage).args = (stage.args, true) ∧ stripBackground stage.args = (stage.args, false) :=
  ⟨stripBackground_marked stage.args, stripBackground_unmarked unmarked.last⟩

theorem Unmarked.same (unmarked : Unmarked isBuiltin stage) (command : stage.kind ≠ .assignment) :
    bare (withMarker isBuiltin stage) = bare stage := by
  obtain ⟨marked, plain⟩ := unmarked.words
  have kind : (withMarker isBuiltin stage).kind = stage.kind := by
    rw [unmarked.kind] at command
    exact (classify_marked unmarked.given).trans ((if_neg command).trans unmarked.kind.symm)
  unfold bare
  rw [marked, plain, kind]
  rfl

theorem Unmarked.launch (unmarked : Unmarked isBuiltin stage) (e : Engine)
    (table : Option (List Bytes)) (w : World) :
    e.launch table (withMarker isBuiltin stage) w = ((e.launch table stage w).1.map unwaited, (e.launch table stage w).2) := by
  obtain ⟨marked, plain⟩ := unmarked.words
  have stdio : (withMarker isBuiltin stage).stdio = stage.stdio := rfl
  unfold Engine.launch
  rw [marked, plain, stdio]
  dsimp only
  split
  · rfl
  · split
    · rfl
    · split <;> rfl

-- A marker behind a stage makes no difference to what is run, but that a program is not waited for. An assignment is
-- the exception: with the marker there are two words, and a program of that name is looked for.
theorem marker_same (unmarked : Unmarked isBuiltin stage) :
    (stage.kind ≠ .assignment →
      (withMarker isBuiltin stage).kind = stage.kind ∧
      (stripBackground (withMarker isBuiltin stage).args).1 = (stripBackground stage.args).1 ∧
      (∀ (e : Engine) (runner : Runner σ) s w,
        e.enter runner (withMarker isBuiltin stage) s w = e.enter runner stage s w) ∧
      (∀ (e : Engine) table w, e.launch table (withMarker isBuiltin stage) w =
        ((e.launch table stage w).1.map unwaited, (e.launch table stage w).2)) ∧
      ∀ (e : Engine) (runner : Runner σ) before later s w v,
        Pipeline.rejectSubshells ⟨before ++ stage :: later⟩ = none →
        e.dump ⟨before ++ stage :: later⟩ w = e.dump ⟨before ++ withMarker isBuiltin stage :: later⟩ v →
        SameRun e runner ⟨before ++ stage :: later⟩ ⟨before ++ withMarker isBuiltin stage :: later⟩ s w v) ∧
    (stage.kind = .assignment → ∃ token, stage.args = [token] ∧ (withMarker isBuiltin stage).kind = .external ∧
      (∀ (e : Engine) (runner : Runner σ) s w, e.enter runner stage s w =
        runner.assign token (Streams.ofFiles (stage.stdio.resolve e.std)) s w) ∧
      ∀ (e : Engine) table w, Begun e table [token] true (stage.stdio.resolve e.std) w
        (e.launch table (withMarker isBuiltin stage) w).1 (e.launch table (withMarker isBuiltin stage) w).2) := by
  obtain ⟨marked, plain⟩ := unmarked.words
  refine ⟨fun command => ?_, fun assigns => ?_⟩
  · have same := unmarked.same command
    obtain ⟨kind, _, _, words⟩ := bare_parts same
    refine ⟨kind, words, fun e runner => enter_bare same e runner, unmarked.launch, ?_⟩
    intro e runner before later s w v clean shown
    exact execute_bare (by simp [same]) clean shown runner s
  · have classified := unmarked.kind.symm.trans assigns
    obtain ⟨token, args, _, _⟩ := classify_assignment classified
    refine ⟨token, args, (classify_marked unmarked.given).trans (if_pos classified), fun e runner s w => ?_, fun e table w => ?_⟩
    · exact enter_assigning assigns (by rw [plain, args])
    · have begun := e.launch_begun table (withMarker isBuiltin stage) w
      rw [marked, args] at begun
      exact begun

def echoing : Stage := { args := [ascii "mecho", ascii "a"], kind := .internal }

theorem marker_same_echoing :
    Unmarked Builtin.isBuiltin echoing ∧ echoing.kind ≠ .assignment ∧
    (withMarker Builtin.isBuiltin echoing).kind = .internal ∧
    SameRun Session.onConsole.engine mixedRunner ⟨[echoing]⟩ ⟨[withMarker Builtin.isBuiltin echoing]⟩ Session.onConsole
      (Session.console []) (Session.console []) := by
  have unmarked : Unmarked Builtin.isBuiltin echoing := ⟨by decide, by decide, by decide⟩
  have command : echoing.kind ≠ .assignment := by decide
  obtain ⟨kind, _, _, _, runs⟩ := (marker_same unmarked).1 command
  exact ⟨unmarked, command, kind, runs Session.onConsole.engine mixedRunner [] [] Session.onConsole _ _ rfl rfl⟩

-- An assignment is none any more with a marker behind it.
theorem marker_same_assignment :
    StageKind.classify Builtin.isBuiltin [ascii "A=1"] = .assignment ∧
      StageKind.classify Builtin.isBuiltin [ascii "A=1", backgroundToken] = .external ∧
      calledWith "A=1" = [[ascii "A=1"]] ∧ calledWith "A=1 &" = [] := by
  decide +kernel

end Engine
end LineShell
