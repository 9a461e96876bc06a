import LineShell.Proofs.Statuses

namespace LineShell
open World

-- A status that a parent process sees as it is.
def Ranged (status : Int) : Prop := 0 ≤ status ∧ status ≤ 255

theorem ranged_zero : Ranged 0 := by unfold Ranged; decide

theorem ranged_one : Ranged 1 := by unfold Ranged; decide

-- How programs end, and what failed system calls say.

def Outcome.Usual : Outcome → Prop
  | exited code => code ≤ 255
  | signaled signal => 1 ≤ signal ∧ signal ≤ 127

instance : DecidablePred Outcome.Usual
  | .exited code => inferInstanceAs (Decidable (code ≤ 255))
  | .signaled signal => inferInstanceAs (Decidable (1 ≤ signal ∧ signal ≤ 127))

theorem Fault.status_ranged {fault : Fault} (usual : fault.cause.code ≤ 255) : Ranged fault.status := by
  cases fault with
  | parse => exact ranged_one
  | spawn => exact ranged_one
  | resource call path cause =>
    have code : Ranged cause.code := ⟨Int.natCast_nonneg _, Int.ofNat_le.mpr usual⟩
    by_cases none : cause.code = 0
    · simp [status, none, ranged_one]
    · simpa [status, none] using code

namespace Builtin
open Session

-- An answer in range, if the status of the last line is, that leaves this status alone.
structure Answers (s : Session) (answer : Int × Session × World) : Prop where
  ranged : Ranged s.lastStatus → Ranged answer.1
  same : answer.2.1.lastStatus = s.lastStatus

theorem Answers.plain {s after : Session} (ranged : 0 ≤ status ∧ status ≤ 2) (same : after.lastStatus = s.lastStatus) :
    Answers s (status, after, w) :=
  ⟨fun _ => ⟨ranged.1, by omega⟩, same⟩

variable {runScript : Bytes → Streams → Session → World → (Int × Option Bytes) × Session × World}

-- A command that runs no script.
theorem run_answers (plain : scriptOf? args = none) (streams : Streams) (s : Session) (w : World) :
    Answers s (run runScript args streams s w) := by
  rcases run_cases runScript plain streams s w with done | ⟨parsed, _, same⟩
  · obtain ⟨locals, env, only⟩ := done.tables
    have ranged := done.status
    exact ⟨fun _ => ⟨ranged.1, by omega⟩, by rw [only]⟩
  · obtain ⟨status, after, exits, ranged, _⟩ := perform_exit runScript parsed streams s w
    rw [same, exits]
    refine ⟨fun before => ?_, rfl⟩
    rcases ranged with rfl | within
    · exact before
    · exact within

-- An exit with a number.
theorem run_exit_code (read : exit.usage.parse [] rest = .ok parsed) (runs : parsed.isOn letterH = false)
    (single : parsed.operands = [code]) (integer : integer? code = some n) (streams : Streams) (s : Session) (w : World) :
    (run runScript (exit.name :: rest) streams s w).1 = n % 256 := by
  have found : find? exit.name = some exit := by decide
  rw [run_performed (performed_iff.mpr ⟨found, read, runs⟩)]
  unfold perform
  dsimp only
  rw [single]
  dsimp only
  rw [integer]

end Builtin

namespace Engine

theorem outcomeStatus_ranged {outcome : Option Outcome} (usual : ∀ ended ∈ outcome, ended.Usual) : Ranged (outcomeStatus outcome) := by
  cases outcome with
  | none => exact ranged_one
  | some ended =>
    have range := usual ended rfl
    cases ended with
    | exited code =>
      have most : code ≤ 255 := range
      simp only [outcomeStatus, Ranged]
      omega
    | signaled signal =>
      have most : 1 ≤ signal ∧ signal ≤ 127 := range
      simp only [outcomeStatus, Ranged]
      omega

theorem firstFailure_ranged {statuses : List Int} (each : ∀ status ∈ statuses, Ranged status) : Ranged (firstFailure statuses) := by
  unfold firstFailure
  cases found : statuses.find? (· ≠ 0) with
  | none => exact ranged_zero
  | some status => exact each status (List.mem_of_find?_eq_some found)

theorem wait_ranged {w : World} (usual : ∀ child ∈ w.children, ∀ ended ∈ child.outcome, ended.Usual) (id : ChildId) :
    Ranged (outcomeStatus (w.wait id).1) := by
  rw [wait_answer]
  refine outcomeStatus_ranged fun ended was => ?_
  obtain ⟨child, found, outcome⟩ := Option.bind_eq_some_iff.mp (Option.mem_def.mp was)
  exact usual child (Array.mem_of_getElem? found) ended outcome

-- A stage whose program has been dealt with, once the programs are waited for.
theorem launch_ranged {e : Engine} {stage : Stage} (launched : e.launch table stage w = (.ok progress, begun))
    (ended : ∀ id, Ranged (outcomeStatus (left.wait id).1)) : Ranged (settles left progress) := by
  have answered := e.launch_begun table stage w
  rw [launched] at answered
  generalize (stripBackground stage.args).1 = words at answered
  generalize (stripBackground stage.args).2 = background at answered
  cases answered with
  | empty => exact ranged_one
  | missing =>
    have ranged : Ranged notFound := ⟨by decide, by decide⟩
    exact ranged
  | started =>
    cases background with
    | true => exact ranged_zero
    | false => exact ended _

end Engine

namespace Session
open Engine
variable {t : Turn} {scripts : ScriptRunner}

theorem assign_answers (text : Bytes) (streams : Streams) (s : Session) (w : World) :
    Builtin.Answers s (Session.assign text streams s w) := by
  unfold Session.assign
  split
  · exact .plain (by decide) rfl
  · exact .plain (by decide) rfl

-- A stage of the shell's own that runs no script.
theorem Turn.stage_answers {visit : Engine.Visit Session} (plain : visit.sourcing? t.session.engine = none) :
    Builtin.Answers visit.state
      (t.session.engine.enter (runner (runScriptAt t.session.levels)) visit.stage visit.state visit.world) := by
  rcases Engine.enter_cases plain (runScriptAt t.session.levels) with ⟨_, ran⟩ | ⟨_, _, ran⟩ | ⟨_, _, none, ran⟩
  · rw [ran]
    exact .plain (by decide) rfl
  · rw [ran]
    exact assign_answers _ _ _ _
  · rw [ran]
    exact Builtin.run_answers none _ _ _

-- The status of a script is that of its last line, or one if it did not run to its end.
theorem runScript_status (path : Bytes) (s : Session) (w : World) :
    (runScript path s w).1.1 = if (runScript path s w).1.2.isSome then 1 else (runScript path s w).2.1.lastStatus :=
  (scriptRun s.levels path s w).status

theorem ranged_ended {failed : Bool} (ended : status = if failed then 1 else last) (ranged : Ranged last) : Ranged status := by
  rw [ended]
  cases failed with
  | true => exact ranged_one
  | false => exact ranged

-- What is expected of the programs that a line waits for, and of a failed call that stops it.
structure Turn.Usual (t : Turn) : Prop where
  programs : ∀ child ∈ (t.waitedAt 0).children, ∀ ended ∈ child.outcome, ended.Usual
  calls : ∀ fault ∈ t.fault?, fault.cause.code ≤ 255

-- All statuses that come up while a line is interpreted: those of its stages, of the scripts they run, its own, and
-- that of the last line, before and afterwards.
structure Turn.Ranges (t : Turn) : Prop where
  found : Ranged t.session.lastStatus
  stages : ∀ status ∈ t.statuses, Ranged status
  scripts : ∀ call ∈ t.calls, Ranged call.result.1.1
  returned : Ranged t.result.1.1
  left : Ranged t.result.2.1.lastStatus

theorem Turn.waitedAt_children (t : Turn) (j : Nat) : (t.waitedAt j).children = (t.waitedAt 0).children := by
  unfold waitedAt
  split
  · rfl
  · unfold Engine.waitedAt
    rw [waitEach_children, waitEach_children]

theorem Turn.statuses_ranged (usual : t.Usual) (own : ∀ visit ∈ t.visits,
      Ranged (t.session.engine.enter (runner (runScriptAt t.session.levels)) visit.stage visit.state visit.world).1) :
    ∀ status ∈ t.statuses, Ranged status := by
  intro status member
  obtain ⟨j, here⟩ := List.mem_iff_getElem?.mp member
  have ended : ∀ id, Ranged (outcomeStatus ((t.waitedAt j).wait id).1) :=
    wait_ranged (by rw [t.waitedAt_children j]; exact usual.programs)
  unfold statuses waitedAt at *
  cases whole : t.left? with
  | none => simp [whole] at here
  | some both =>
    obtain ⟨left, after⟩ := both
    rw [whole] at here ended
    obtain ⟨p, opened, entries, ready, next, _, launched, entered, visits⟩ := Turn.left_some whole
    have below : j < (p.classify Builtin.isBuiltin).stages.length := by
      rw [← statuses_length launched entered]
      exact (List.getElem?_eq_some_iff.mp here).1
    obtain ⟨stage, found⟩ : ∃ stage, (p.classify Builtin.isBuiltin).stages[j]? = some stage := ⟨_, List.getElem?_eq_getElem below⟩
    obtain ⟨program, command⟩ := status_of launched entered found
    rcases classify_sorted p Builtin.isBuiltin stage (List.mem_of_getElem? found) with external | inside
    · obtain ⟨progress, begun, launching, settled⟩ := program external
      rw [Option.some.inj (here.symm.trans settled)]
      exact launch_ranged launching ended
    · obtain ⟨visit, among, whose, returned⟩ := command inside
      have entering : visit ∈ t.visits := by
        rw [visits]
        exact List.mem_of_getElem? among
      rw [Option.some.inj (here.symm.trans returned), ← whose]
      exact own visit entering

-- What ends with a status in range if it has begun with one.
def Ranging (s after : Session) : Prop := Ranged s.lastStatus → Ranged after.lastStatus

theorem ranging_lasting : Lasting Ranging where
  refl _ := id
  trans first second := second ∘ first

theorem scriptTurns_ranged (s : Session) (path : Bytes) (w : World) (starts : Ranged s.lastStatus)
    (each : ∀ inner ∈ scriptTurns s.levels path s w, Ranging inner.session inner.result.2.1) :
    Ranged (runScript path s w).1.1 ∧ Ranged (runScript path s w).2.1.lastStatus ∧
      ∀ inner ∈ scriptTurns s.levels path s w, Ranged inner.session.lastStatus := by
  obtain ⟨inside, last, outside, linked, ended⟩ := scriptTurns_linked s path w
  have lasts := linked.lasts ranging_lasting (List.forall_mem_map.mpr each)
  have left : Ranged (runScript path s w).2.1.lastStatus := by
    rw [ended]
    exact lasts.whole starts
  exact ⟨ranged_ended (runScript_status path s w) left, left,
    fun inner interprets => lasts.reached _ (List.mem_map_of_mem interprets) starts⟩

-- A stage of the shell's own, if this is so of the scripts.
theorem Turn.stage_ranged {visit : Engine.Visit Session} (entered : visit ∈ t.visits)
    (scripts : ∀ call ∈ t.calls, Ranged call.session.lastStatus → Ranged call.result.1.1 ∧ Ranged call.result.2.1.lastStatus)
    (found : Ranged visit.state.lastStatus) :
    Ranged (t.session.engine.enter (runner (runScriptAt t.session.levels)) visit.stage visit.state visit.world).1 ∧
      Ranged (visit.after t.session.engine (runner (runScriptAt t.session.levels))).lastStatus := by
  unfold Engine.Visit.after
  cases sources : visit.sourcing? t.session.engine with
  | none =>
    have answers := Turn.stage_answers sources
    refine ⟨answers.ranged found, ?_⟩
    rw [answers.same]
    exact found
  | some call =>
    obtain ⟨runs, _⟩ := Turn.sourced entered sources
    obtain ⟨_, _, same⟩ := Engine.sourcing_some sources
    have state : visit.state = call.session := by rw [same]
    rw [Engine.enter_sourcing sources, ← (t.calling runs).result]
    exact scripts call runs (by rwa [← state])

theorem Turn.ranges_stages (usual : t.Usual) (found : Ranged t.session.lastStatus)
    (scripts : ∀ call ∈ t.calls, Ranged call.session.lastStatus → Ranged call.result.1.1 ∧ Ranged call.result.2.1.lastStatus) :
    t.Ranges ∧ ∀ call ∈ t.calls, Ranged call.session.lastStatus := by
  have linked : Linked t.session (t.visits.map _) _ := lineVisits_linked (runScriptAt t.session.levels) t.line t.session t.world
  have lasts := linked.lasts ranging_lasting (List.forall_mem_map.mpr fun visit entered before =>
    (Turn.stage_ranged entered scripts before).2)
  have reached : ∀ visit ∈ t.visits, Ranged visit.state.lastStatus :=
    fun visit entered => lasts.reached _ (List.mem_map_of_mem entered) found
  have stages := Turn.statuses_ranged usual fun visit entered => (Turn.stage_ranged entered scripts (reached visit entered)).1
  have sessions : ∀ call ∈ t.calls, Ranged call.session.lastStatus := by
    intro call runs
    obtain ⟨visit, entered, sources⟩ := mem_lineCalls runs
    obtain ⟨_, _, same⟩ := Engine.sourcing_some sources
    rw [same]
    exact reached visit entered
  have ends : Ranged t.result.1.1 ∧ Ranged t.result.2.1.lastStatus := by
    by_cases blank : trimmed t.line = []
    · rw [Turn.blank_result blank]
      exact ⟨ranged_zero, found⟩
    · cases t.ended blank with
      | held fine stored result =>
        rw [result]
        exact ⟨ranged_one, ranged_one⟩
      | passed fine free result =>
        have status : Ranged t.ran.status := by
          rw [Turn.ran_status ((Turn.fault?_ran blank).symm.trans fine)]
          exact firstFailure_ranged stages
        rw [result]
        exact ⟨status, status⟩
      | failed fails unchanged result =>
        have status := Fault.status_ranged (usual.calls _ fails)
        rw [result]
        exact ⟨status, status⟩
  exact ⟨⟨found, stages, fun call runs => (scripts call runs (sessions call runs)).1, ends.1, ends.2⟩, sessions⟩

-- The lines inside a line, in the order in which they end.
def Turn.within (t : Turn) : List Turn := t.calls.flatMap fun call => call.lines.flatMap Turn.completed

theorem Turn.mem_within {u : Turn} : u ∈ t.within ↔ ∃ call ∈ t.calls, ∃ inner ∈ call.lines, u ∈ inner.completed := by
  simp [within]

theorem Turn.completed_within (t : Turn) : t.completed = t.within ++ [t] := t.completed_eq

theorem Turn.self_completed (t : Turn) : t ∈ t.completed := by
  simp [t.completed_within]

-- By induction on the scripts inside the line.
theorem Turn.ranges (t : Turn) (usual : ∀ u ∈ t.completed, u.Usual) (found : Ranged t.session.lastStatus) :
    ∀ u ∈ t.completed, u.Ranges := by
  induction t using Turn.nested with
  | step t ih =>
    have expected : ∀ call ∈ t.calls, ∀ inner ∈ call.lines, ∀ u ∈ inner.completed, u.Usual := by
      intro call runs inner interprets u ends
      refine usual u ?_
      rw [t.completed_within]
      exact List.mem_append_left _ (Turn.mem_within.mpr ⟨call, runs, inner, interprets, ends⟩)
    have ranging : ∀ call ∈ t.calls, ∀ inner ∈ call.lines, Ranging inner.session inner.result.2.1 :=
      fun call runs inner interprets before =>
        (ih call runs inner interprets (expected call runs inner interprets) before inner inner.self_completed).left
    have scripts : ∀ call ∈ t.calls, Ranged call.session.lastStatus →
        Ranged call.result.1.1 ∧ Ranged call.result.2.1.lastStatus ∧ ∀ inner ∈ call.lines, Ranged inner.session.lastStatus :=
      fun call runs before => scriptTurns_ranged call.given call.path call.world before (ranging call runs)
    obtain ⟨whole, sessions⟩ := Turn.ranges_stages (usual t t.self_completed) found fun call runs before =>
      ⟨(scripts call runs before).1, (scripts call runs before).2.1⟩
    intro u completes
    rw [t.completed_within] at completes
    rcases List.mem_append.mp completes with inside | itself
    · obtain ⟨call, runs, inner, interprets, ends⟩ := Turn.mem_within.mp inside
      have before := (scripts call runs (sessions call runs)).2.2 inner interprets
      exact ih call runs inner interprets (expected call runs inner interprets) before u ends
    · rw [List.mem_singleton.mp itself]
      exact whole

-- The status that a step of the user's returns.
def Act.status (act : Act) : Int :=
  match act.step with
  | .line text => (interpret text act.session act.world).1.1
  | .script path => (runScript path act.session act.world).1.1
  | .text text => (runText text act.session act.world).1.1
  | .command args streams => (runBuiltin args streams act.session act.world).1
  | .assignment text streams => (Session.assign text streams act.session act.world).1

-- The lines of a step, from the status it finds to the one it leaves, and the status it returns.
theorem Act.spanned (act : Act) : ∃ first last, Linked first (act.turns.map Turn.ends) last ∧
    first.lastStatus = act.session.lastStatus ∧ act.after.lastStatus = last.lastStatus ∧
    (Ranged act.session.lastStatus → (∀ turn ∈ act.turns, Ranged turn.result.1.1) → Ranged last.lastStatus → Ranged act.status) := by
  obtain ⟨step, s, w⟩ := act
  cases step with
  | line text => exact ⟨s, _, ⟨rfl, rfl⟩, rfl, rfl, fun _ turns _ => turns ⟨text, s, w⟩ (List.mem_singleton_self _)⟩
  | script path =>
    obtain ⟨inside, last, outside, linked, ended⟩ := scriptTurns_linked s path w
    have left : (runScript path s w).2.1.lastStatus = last.lastStatus := by rw [ended]
    refine ⟨_, last, linked, rfl, left, fun _ _ ranged => ranged_ended (runScript_status path s w) ?_⟩
    rwa [left]
  | text text =>
    have status := (linesRun (runScriptAt s.levels) (scriptLines text) s w).status
    exact ⟨s, _, textTurns_linked text s w, rfl, rfl, fun _ _ ranged => ranged_ended status ranged⟩
  | command args streams =>
    unfold turns
    dsimp only
    cases runs : Builtin.scriptOf? args with
    | none =>
      have answers : Builtin.Answers s (runBuiltin args streams s w) := Builtin.run_answers runs streams s w
      exact ⟨s, s, rfl, rfl, answers.same, fun found _ _ => answers.ranged found⟩
    | some path =>
      obtain ⟨inside, last, outside, linked, ended⟩ := scriptTurns_linked (s.redirectStd streams.files) path w
      have left : (runScript path (s.redirectStd streams.files) w).2.1.lastStatus = last.lastStatus := by rw [ended]
      rcases ran : sourceScript (runScriptAt s.levels) path streams s w with ⟨⟨status, message⟩, next, after⟩
      have answer : runBuiltin args streams s w = _ := Builtin.run_script runs ran
      have code : (runScript path (s.redirectStd streams.files) w).1.1 = status := congrArg (·.1.1) ran
      have kept : (runScript path (s.redirectStd streams.files) w).2.1.lastStatus = next.lastStatus :=
        congrArg (·.2.1.lastStatus) ran
      refine ⟨_, last, linked, rfl, ?_, fun _ _ ranged => ?_⟩
      · show (runBuiltin args streams s w).2.1.lastStatus = last.lastStatus
        rw [answer, ← left, kept]
      · show Ranged (runBuiltin args streams s w).1
        rw [answer]
        dsimp only
        rw [← code]
        exact ranged_ended (runScript_status path (s.redirectStd streams.files) w) (by rwa [left])
  | assignment text streams =>
    have answers := assign_answers text streams s w
    exact ⟨s, s, rfl, rfl, answers.same, fun found _ _ => answers.ranged found⟩

structure Act.Ranges (act : Act) : Prop where
  found : Ranged act.session.lastStatus
  returned : Ranged act.status
  left : Ranged act.after.lastStatus
  lines : ∀ u ∈ act.completed, u.Ranges

theorem Act.ranges (act : Act) (usual : ∀ u ∈ act.completed, u.Usual) (found : Ranged act.session.lastStatus) : act.Ranges := by
  have turns : ∀ turn ∈ act.turns, Ranged turn.session.lastStatus → ∀ u ∈ turn.completed, u.Ranges :=
    fun turn interprets => turn.ranges fun u ends => usual u (List.mem_flatMap.mpr ⟨turn, interprets, ends⟩)
  obtain ⟨first, last, linked, begins, ended, returned⟩ := act.spanned
  have lasts := linked.lasts ranging_lasting (List.forall_mem_map.mpr fun turn interprets before =>
    (turns turn interprets before turn turn.self_completed).left)
  have starts : Ranged first.lastStatus := by rwa [begins]
  have each : ∀ turn ∈ act.turns, ∀ u ∈ turn.completed, u.Ranges :=
    fun turn interprets => turns turn interprets (lasts.reached _ (List.mem_map_of_mem interprets) starts)
  refine ⟨found, ?_, ?_, fun u completes => ?_⟩
  · exact returned found (fun turn interprets => (each turn interprets turn turn.self_completed).returned) (lasts.whole starts)
  · rw [ended]
    exact lasts.whole starts
  · obtain ⟨turn, interprets, ends⟩ := List.mem_flatMap.mp completes
    exact each turn interprets u ends

-- Along a run.
theorem Run.ranges (run : Run first acts last) (usual : ∀ u ∈ acts.flatMap Act.completed, u.Usual) (found : Ranged first.lastStatus) :
    (∀ act ∈ acts, act.Ranges) ∧ Ranged last.lastStatus := by
  have each : ∀ act ∈ acts, Ranged act.session.lastStatus → act.Ranges :=
    fun act member => act.ranges fun u completes => usual u (List.mem_flatMap.mpr ⟨act, member, completes⟩)
  have linked : Linked first (acts.map Act.ends) last := run
  have lasts := linked.lasts ranging_lasting (List.forall_mem_map.mpr fun act member before => (each act member before).left)
  exact ⟨fun act member => each act member (lasts.reached _ (List.mem_map_of_mem member) found), lasts.whole found⟩

end Session
end LineShell
