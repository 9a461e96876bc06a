import LineShell.Proofs.Marker
import LineShell.Proofs.Reporting

namespace LineShell
open World

namespace Engine
variable {e : Engine} {runner : Runner σ} {table : Option (List Bytes)} {stage : Stage}

-- What waiting makes of what became of a stage.
def settles (w : World) : Progress → Int
  | .waiting => 0
  | .running child => outcomeStatus (w.wait child).1
  | .done status => status

theorem waitEach_settles {all : List Progress} {j : Nat} (found : all[j]? = some progress) (w : World) :
    (waitEach all w).1[j]? = some (settles (waitEach (all.take j) w).2 progress) := by
  induction all generalizing j w with
  | nil => cases found
  | cons first others ih =>
    cases j with
    | zero =>
      cases found
      cases progress <;> rfl
    | succ j => cases first <;> exact ih found _

theorem waitEach_children (all : List Progress) (w : World) : (waitEach all w).2.children = w.children := by
  induction all generalizing w with
  | nil => rfl
  | cons progress others ih =>
    cases progress with
    | waiting => exact ih w
    | running child => exact (ih _).trans (wait_children w child)
    | done status => exact ih w

-- The stages that are entered among these.
def countInside (stages : List Stage) : Nat := stages.countP fun stage => stage.kind = .internal ∨ stage.kind = .assignment

theorem countInside_afterLaunch (stages : List Stage) : countInside (stages.map afterLaunch) = countInside stages := by
  unfold countInside
  rw [List.countP_map]
  refine List.countP_congr fun stage _ => ?_
  have kind : (afterLaunch stage).kind = stage.kind := by
    unfold afterLaunch
    split <;> rfl
  simp [kind]

-- A stage that is entered, by its place among those that are, and what it leaves. The others are left as they are.
theorem enterAll_entered {entries : List (Stage × Progress)} {j : Nat} (e : Engine) (runner : Runner σ) (i : Nat) (s : σ)
    (w : World) (found : entries[j]? = some (stage, progress)) :
    (stage.Inside → ∃ visit, (e.visits runner i entries s w)[countInside ((entries.take j).map (·.1))]? = some visit ∧
      visit.stage = stage ∧ (e.enterAll runner i entries s w).1[j]? =
        some (released stage, .done (e.enter runner stage visit.state visit.world).1)) ∧
    (¬stage.Inside → (e.enterAll runner i entries s w).1[j]? = some (stage, progress)) := by
  induction entries generalizing i j s w with
  | nil => cases found
  | cons entry others ih =>
    obtain ⟨head, first⟩ := entry
    by_cases inside : head.Inside
    · rcases ran : e.enter runner head s (w.note (.entered i)) with ⟨status, next, middle⟩
      rw [visits_running others inside ran, enterAll_running others inside ran rfl]
      cases j with
      | zero =>
        cases found
        exact ⟨fun _ => ⟨_, rfl, rfl, by rw [ran]; rfl⟩, fun outside => absurd inside outside⟩
      | succ j =>
        have counted : countInside (((⟨head, first⟩ :: others).take (j + 1)).map (·.1)) =
            countInside ((others.take j).map (·.1)) + 1 := by
          rw [List.take_succ_cons, List.map_cons]
          exact List.countP_cons_of_pos (decide_eq_true inside)
        rw [counted]
        exact ih (i + 1) next _ found
    · rw [visits_passing others inside, enterAll_passing others inside rfl]
      cases j with
      | zero =>
        cases found
        exact ⟨fun wrong => absurd wrong inside, fun _ => rfl⟩
      | succ j =>
        have counted : countInside (((⟨head, first⟩ :: others).take (j + 1)).map (·.1)) =
            countInside ((others.take j).map (·.1)) := by
          rw [List.take_succ_cons, List.map_cons]
          exact List.countP_cons_of_neg (by simpa [Stage.Inside] using inside)
        rw [counted]
        exact ih (i + 1) s w found

-- What the loop over the programs makes of a stage, if all of them start.
theorem launchAll_progress {stages : List Stage} {j : Nat} (clear : (e.launchAll table i stages w).1 = none)
    (found : stages[j]? = some stage) : ∃ progress, (e.launchAll table i stages w).2.1[j]? = some (afterLaunch stage, progress) ∧
      (stage.kind = .external →
        ∃ begun, e.launch table stage (e.launchAll table i (stages.take j) w).2.2 = (.ok progress, begun)) := by
  induction stages generalizing i j w with
  | nil => cases found
  | cons head others ih =>
    by_cases external : head.kind = .external
    · rcases launched : e.launch table head w with ⟨result, middle⟩
      cases result with
      | error fault =>
        rw [launchAll_failing others external launched] at clear
        cases clear
      | ok progress =>
        rw [launchAll_starting others external launched rfl] at clear ⊢
        cases j with
        | zero =>
          cases found
          exact ⟨progress, by simp [afterLaunch, external], fun _ => ⟨middle, launched⟩⟩
        | succ j =>
          rw [List.take_succ_cons, launchAll_starting _ external launched rfl]
          exact ih clear found
    · rw [launchAll_passing others external rfl] at clear ⊢
      cases j with
      | zero =>
        cases found
        exact ⟨.waiting, by simp [afterLaunch, external], fun program => absurd program external⟩
      | succ j =>
        rw [List.take_succ_cons, launchAll_passing _ external rfl]
        exact ih clear found

-- The world in which it is the turn of stage number `j` to be waited for.
def waitedAt (left : List (Stage × Progress)) (w : World) (j : Nat) : World :=
  (waitEach ((left.map (·.2)).take j) (w.note .barrier).settle).2

-- The status of a stage: that of the program that was launched for it, or that of the shell's own command.
theorem status_of {stages : List Stage} {j : Nat} (launched : e.launchAll table 0 stages w = (none, entries, ready))
    (entered : e.enterAll runner 0 entries s ready = (left, next, after)) (found : stages[j]? = some stage) :
    (stage.kind = .external → ∃ progress begun,
      e.launch table stage (e.launchAll table 0 (stages.take j) w).2.2 = (.ok progress, begun) ∧
        (waitAll left after).1[j]? = some (settles (waitedAt left after j) progress)) ∧
    (stage.Inside → ∃ visit, (e.visits runner 0 entries s ready)[countInside (stages.take j)]? = some visit ∧
      visit.stage = stage ∧ (waitAll left after).1[j]? = some (e.enter runner stage visit.state visit.world).1) := by
  obtain ⟨calls, whole⟩ := launchAll_launched e table 0 stages w
  obtain ⟨progress, entry, begins⟩ := launchAll_progress (congrArg (·.1) launched) found
  rw [launched] at entry whole
  have counted : countInside ((entries.take j).map (·.1)) = countInside (stages.take j) := by
    rw [List.map_take, (whole.finished rfl).1, ← List.map_take, countInside_afterLaunch]
  have became := enterAll_entered e runner 0 s ready entry
  rw [entered, counted] at became
  have waited {last : Stage × Progress} (there : left[j]? = some last) :
      (waitAll left after).1[j]? = some (settles (waitedAt left after j) last.2) :=
    waitEach_settles (by rw [List.getElem?_map, there]; rfl) _
  constructor
  · intro external
    obtain ⟨begun, launching⟩ := begins external
    have outside : ¬(afterLaunch stage).Inside := fun inside =>
      inside.not_external (by simp [afterLaunch, released, external])
    exact ⟨progress, begun, launching, waited (became.2 outside)⟩
  · intro inside
    have kept : afterLaunch stage = stage := by simp [afterLaunch, inside.not_external]
    rw [kept] at became
    obtain ⟨visit, among, whose, leaves⟩ := became.1 inside
    exact ⟨visit, among, whose, waited leaves⟩

theorem waitEach_length (all : List Progress) (w : World) : (waitEach all w).1.length = all.length := by
  induction all generalizing w with
  | nil => rfl
  | cons progress others ih => cases progress <;> exact congrArg (· + 1) (ih _)

theorem enterAll_length (e : Engine) (runner : Runner σ) (i : Nat) (entries : List (Stage × Progress)) (s : σ) (w : World) :
    (e.enterAll runner i entries s w).1.length = entries.length := by
  induction entries generalizing i s w with
  | nil => rfl
  | cons entry others ih =>
    by_cases inside : entry.1.Inside
    · rw [enterAll_running others inside rfl rfl]
      exact congrArg (· + 1) (ih _ _ _)
    · rw [enterAll_passing others inside rfl]
      exact congrArg (· + 1) (ih _ _ _)

theorem statuses_length {stages : List Stage} (launched : e.launchAll table 0 stages w = (none, entries, ready))
    (entered : e.enterAll runner 0 entries s ready = (left, next, after)) : (waitAll left after).1.length = stages.length := by
  obtain ⟨_, whole⟩ := launchAll_launched e table 0 stages w
  rw [launched] at whole
  have begun : entries.length = stages.length := by simpa using congrArg List.length (whole.finished rfl).1
  have kept := enterAll_length e runner 0 entries s ready
  rw [entered] at kept
  unfold waitAll
  rw [waitEach_length, List.length_map, kept, begun]

theorem outcomeStatus_notFound (status : outcomeStatus outcome = notFound) : outcome = some (.exited 127) := by
  unfold outcomeStatus notFound at status
  split at status
  · cases status
  · rw [Int.ofNat.inj status]
  · omega

-- The first status that is not zero.
theorem firstFailure_iff {statuses : List Int} (failed : status ≠ 0) :
    firstFailure statuses = status ↔ ∃ j : Nat, statuses[j]? = some status ∧ ∀ k < j, statuses[k]? = some 0 := by
  unfold firstFailure
  induction statuses with
  | nil => simp [failed.symm]
  | cons first others ih =>
    by_cases zero : first = 0
    · subst zero
      rw [List.find?_cons_of_neg (by simp), ih]
      constructor
      · rintro ⟨j, here, before⟩
        refine ⟨j + 1, here, fun k below => ?_⟩
        cases k with
        | zero => rfl
        | succ k => exact before k (Nat.lt_of_succ_lt_succ below)
      · rintro ⟨j, here, before⟩
        cases j with
        | zero => exact absurd (Option.some.inj here).symm failed
        | succ j => exact ⟨j, here, fun k below => before (k + 1) (Nat.succ_lt_succ below)⟩
    · rw [List.find?_cons_of_pos (by simpa using zero)]
      constructor
      · rintro rfl
        exact ⟨0, rfl, fun k below => absurd below (Nat.not_lt_zero k)⟩
      · rintro ⟨j, here, before⟩
        cases j with
        | zero => exact Option.some.inj here
        | succ j => exact absurd (Option.some.inj (before 0 (Nat.succ_pos j))) zero

end Engine

namespace Session
open Engine
variable {t : Turn}

-- The stages of a line when all programs have been started and all commands have been run, and the world then.
def Turn.left? (t : Turn) : Option (List (Stage × Progress) × World) :=
  match compile t.session.expand (trimmed t.line) t.world with
  | (.error _, _) => none
  | (.ok p, opened) =>
    let p := p.classify Builtin.isBuiltin
    match t.session.engine.launchAll t.session.environ 0 p.stages (t.session.engine.dump p opened) with
    | (some _, _, _) => none
    | (none, entries, ready) =>
      let (left, _, after) := t.session.engine.enterAll (runner (runScriptAt t.session.levels)) 0 entries t.session ready
      some (left, after)

-- The status of each stage.
def Turn.statuses (t : Turn) : List Int :=
  match t.left? with
  | none => []
  | some (left, after) => (waitAll left after).1

-- The world in which it is the turn of stage number `j` to be waited for.
def Turn.waitedAt (t : Turn) (j : Nat) : World :=
  match t.left? with
  | none => t.world
  | some (left, after) => Engine.waitedAt left after j

theorem Turn.left_some (whole : t.left? = some (left, after)) : ∃ p opened entries ready next,
    compile t.session.expand (trimmed t.line) t.world = (.ok p, opened) ∧
    t.session.engine.launchAll t.session.environ 0 (p.classify Builtin.isBuiltin).stages
      (t.session.engine.dump (p.classify Builtin.isBuiltin) opened) = (none, entries, ready) ∧
    t.session.engine.enterAll (runner (runScriptAt t.session.levels)) 0 entries t.session ready = (left, next, after) ∧
    t.visits = t.session.engine.visits (runner (runScriptAt t.session.levels)) 0 entries t.session ready := by
  unfold left? at whole
  unfold visits lineVisits
  split at whole
  · cases whole
  · rename_i p opened compiled
    rw [compiled]
    dsimp only at whole ⊢
    rcases launched : t.session.engine.launchAll t.session.environ 0 (p.classify Builtin.isBuiltin).stages
      (t.session.engine.dump (p.classify Builtin.isBuiltin) opened) with ⟨stopped, entries, ready⟩
    rw [launched] at whole
    cases stopped with
    | some fault => cases whole
    | none =>
      rcases entered : t.session.engine.enterAll (runner (runScriptAt t.session.levels)) 0 entries t.session ready with
        ⟨all, next, last⟩
      dsimp only at whole
      rw [entered] at whole
      cases whole
      exact ⟨p, opened, entries, ready, next, rfl, launched, entered, rfl⟩

-- A line that nothing stops has the status of its first stage that failed.
theorem Turn.ran_status (fine : t.ran.fault = none) : t.ran.status = firstFailure t.statuses := by
  unfold ran at fine ⊢
  unfold statuses left?
  cases line_course (trimmed t.line) t.session t.world with
  | refused compiled =>
    rw [runLine_refused compiled] at fine
    cases fine
  | stopped compiled launched =>
    rw [runLine_stopped compiled launched] at fine
    cases fine
  | launched compiled launched =>
    rw [runLine_launched compiled launched rfl, compiled]
    dsimp only
    rw [launched]

-- How stage number `j` comes to the status of a command that is not found: no such program is found, or a program exits
-- with this status, or a command of the shell itself returns it.
inductive Unfound (t : Turn) (p : Pipeline) (opened : World) (j : Nat) (stage : Stage) : Prop where
  | missing (external : stage.kind = .external) (named : stage.args.head? = some command)
    (foreign : Builtin.isBuiltin command = false)
    (unknown : lookPath? (worldAt t.session.engine t.session.environ p opened j) t.session.searchPath command = none)
  | program (external : stage.kind = .external) (given : (stripBackground stage.args).1 = command :: args)
    (found : lookPath? (worldAt t.session.engine t.session.environ p opened j) t.session.searchPath command = some path)
    (begun : (worldAt t.session.engine t.session.environ p opened j).start path (command :: args) t.session.environ
      (stage.stdio.resolve t.session.engine.std) = (.ok child, after))
    (exited : ((t.waitedAt j).wait child).1 = some (.exited 127))
  | returned (internal : stage.kind = .internal) (given : (stripBackground stage.args).1 = command :: args)
    (entered : t.visits[countInside (p.stages.take j)]? = some visit) (whose : visit.stage = stage)
    (status : (Builtin.run (sourceScript (runScriptAt t.session.levels)) (command :: args)
      (Streams.ofFiles (stage.stdio.resolve t.session.engine.std)) visit.state visit.world).1 = notFound)

theorem classify_kind {p : Pipeline} {j : Nat} (found : (p.classify isBuiltin).stages[j]? = some stage) :
    stage.kind = StageKind.classify isBuiltin stage.args := by
  unfold Pipeline.classify at found
  rw [List.getElem?_map] at found
  obtain ⟨raw, _, rfl⟩ := Option.map_eq_some_iff.mp found
  rfl

theorem classify_foreign (kind : StageKind.classify isBuiltin (command :: more) = .external) : isBuiltin command = false := by
  cases known : isBuiltin command with
  | false => rfl
  | true => simp [StageKind.classify, known] at kind

-- A stage of the shell's own that comes to that status is a command: an assignment returns zero or one.
theorem enter_notFound {scripts : ScriptRunner} {e : Engine} (inside : stage.Inside)
    (status : (e.enter (runner scripts) stage s w).1 = notFound) :
    stage.kind = .internal ∧ ∃ command args, (stripBackground stage.args).1 = command :: args ∧
      (Builtin.run (sourceScript scripts) (command :: args) (Streams.ofFiles (stage.stdio.resolve e.std)) s w).1 = notFound := by
  cases e.handing (runner scripts) stage s w with
  | empty none answer =>
    rw [answer] at status
    cases status
  | assignment name args kind given answer =>
    rw [answer] at status
    dsimp only [runner] at status
    unfold Session.assign at status
    split at status
    · cases status
    · cases status
  | command name args kind given answer =>
    rw [answer] at status
    exact ⟨inside.resolve_right kind, name, args, given, status⟩

theorem Turn.unfound {j : Nat} (missed : t.statuses[j]? = some notFound) : ∃ p opened stage,
    compile t.session.expand (trimmed t.line) t.world = (.ok p, opened) ∧
    (p.classify Builtin.isBuiltin).stages[j]? = some stage ∧ Unfound t (p.classify Builtin.isBuiltin) opened j stage := by
  unfold statuses at missed
  cases whole : t.left? with
  | none => simp [whole] at missed
  | some both =>
    obtain ⟨left, after⟩ := both
    rw [whole] at missed
    obtain ⟨p, opened, entries, ready, next, compiled, launched, entered, visits⟩ := Turn.left_some whole
    have waited : t.waitedAt j = Engine.waitedAt left after j := by
      unfold Turn.waitedAt
      rw [whole]
    have below : j < (p.classify Builtin.isBuiltin).stages.length := by
      rw [← statuses_length launched entered]
      exact (List.getElem?_eq_some_iff.mp missed).1
    obtain ⟨stage, found⟩ : ∃ stage, (p.classify Builtin.isBuiltin).stages[j]? = some stage := ⟨_, List.getElem?_eq_getElem below⟩
    refine ⟨p, opened, stage, compiled, found, ?_⟩
    obtain ⟨program, command⟩ := status_of launched entered found
    rcases classify_sorted p Builtin.isBuiltin stage (List.mem_of_getElem? found) with external | inside
    · obtain ⟨progress, begun, launching, status⟩ := program external
      have settled : settles (Engine.waitedAt left after j) progress = notFound := Option.some.inj (status.symm.trans missed)
      have answered := launch_begun t.session.engine t.session.environ stage
        (worldAt t.session.engine t.session.environ (p.classify Builtin.isBuiltin) opened j)
      rw [show t.session.engine.launch _ stage (worldAt _ _ _ _ _) = _ from launching] at answered
      generalize handed : (stripBackground stage.args).1 = words at answered
      generalize (stripBackground stage.args).2 = background at answered
      cases answered with
      | empty => cases settled
      | @missing command args given unknown =>
        obtain ⟨more, named⟩ := stripBackground_head (handed.trans given)
        have kind := (classify_kind found).symm.trans external
        rw [named] at kind
        exact .missing external (by rw [named]; rfl) (classify_foreign kind) unknown
      | started given located begun =>
        cases background with
        | true => cases settled
        | false =>
          rw [← waited] at settled
          rw [given] at begun
          exact .program external (handed.trans given) located begun (outcomeStatus_notFound settled)
    · obtain ⟨visit, among, whose, status⟩ := command inside
      obtain ⟨internal, name, args, given, returned⟩ := enter_notFound inside (Option.some.inj (status.symm.trans missed))
      exact .returned internal given (by rw [visits]; exact among) whose returned

theorem eventKind_unknown : eventKind status fault = Event.unknownCommand ↔ fault = none ∧ status = notFound := by
  have apart : ∀ kind ∈ [Event.runCommand, Event.syntaxError, Event.resourceError, Event.spawnError],
      kind ≠ Event.unknownCommand := by decide
  cases fault with
  | none =>
    by_cases same : status = notFound
    · simp [eventKind, same]
    · simpa [eventKind, same] using apart _ List.mem_cons_self
  | some fault =>
    cases fault with
    | parse => simpa [eventKind] using apart Event.syntaxError (by decide)
    | resource => simpa [eventKind] using apart Event.resourceError (by decide)
    | spawn => simpa [eventKind] using apart Event.spawnError (by decide)

theorem Turn.mem_recorded {event : Event} (recorded : event ∈ t.recorded) : event = t.event ∧ t.reports = true := by
  unfold Turn.recorded at recorded
  split at recorded
  · rename_i both
    rw [Bool.and_eq_true] at both
    exact ⟨List.mem_singleton.mp recorded, both.1⟩
  · cases recorded

-- The event names the command of the first stage, also where another one has the status.
theorem unknown_recorded {event : Event} (t : Turn) (recorded : event ∈ t.recorded) :
    (event.kind = Event.unknownCommand ↔ t.fault? = none ∧
      ∃ j : Nat, t.statuses[j]? = some notFound ∧ ∀ k < j, t.statuses[k]? = some 0) ∧
    ∀ j : Nat, t.statuses[j]? = some notFound → ∃ p opened stage,
      compile t.session.expand (trimmed t.line) t.world = (.ok p, opened) ∧
      (p.classify Builtin.isBuiltin).stages[j]? = some stage ∧ Unfound t (p.classify Builtin.isBuiltin) opened j stage ∧
      (j = 0 → event.command = stage.args) := by
  obtain ⟨rfl, reports⟩ := Turn.mem_recorded recorded
  constructor
  · rw [Turn.fault?_ran (Turn.reports_present reports)]
    refine eventKind_unknown.trans (and_congr_right fun fine => ?_)
    rw [Turn.ran_status fine]
    exact firstFailure_iff (by decide)
  · intro j missed
    obtain ⟨p, opened, stage, compiled, found, unfound⟩ := Turn.unfound missed
    refine ⟨p, opened, stage, compiled, found, unfound, ?_⟩
    rintro rfl
    refine t.ran_command.trans ?_
    unfold Turn.command
    rw [compiled]
    obtain ⟨stages⟩ := p
    cases stages with
    | nil => cases found
    | cons first others =>
      cases found
      rfl

-- A command that is not found, in front of one that is.
def unknownFirst : Turn := ⟨ascii "nope x | A=1", fresh, console []⟩

theorem unknown_recorded_first : unknownFirst.event.kind = Event.unknownCommand ∧ unknownFirst.event.name = ascii "nope" ∧
    ∃ (p : Pipeline) (opened : World) (stage : Stage), (p.classify Builtin.isBuiltin).stages[0]? = some stage ∧
      Unfound unknownFirst (p.classify Builtin.isBuiltin) opened 0 stage ∧ unknownFirst.event.command = stage.args := by
  have missed : unknownFirst.statuses[0]? = some notFound := by decide +kernel
  obtain ⟨kind, each⟩ := unknown_recorded unknownFirst (show unknownFirst.event ∈ unknownFirst.recorded by decide +kernel)
  obtain ⟨p, opened, stage, _, found, unfound, command⟩ := each 0 missed
  refine ⟨kind.mpr ⟨by decide +kernel, 0, missed, fun k below => absurd below (Nat.not_lt_zero k)⟩, by decide +kernel, ?_⟩
  exact ⟨p, opened, stage, found, unfound, command rfl⟩

-- The other way round the event names a command of the shell itself, and so it does if that command returns the status.
def unknownLast : Turn := ⟨ascii "mecho a | nope", fresh, console []⟩
def exitUnknown : Turn := ⟨ascii "mexit 127", fresh, console []⟩

theorem unknown_recorded_known :
    (¬∀ (t : Turn) (event : Event), event ∈ t.recorded → event.kind = Event.unknownCommand →
      Builtin.isBuiltin event.name = false ∧ lookPath? t.world t.session.searchPath event.name = none) ∧
    ∃ event ∈ exitUnknown.recorded, event.kind = Event.unknownCommand ∧ Builtin.isBuiltin event.name = true := by
  constructor
  · intro claimed
    obtain ⟨foreign, _⟩ := claimed unknownLast unknownLast.event (by decide +kernel) (by decide +kernel)
    have known : Builtin.isBuiltin unknownLast.event.name = true := by decide +kernel
    rw [known] at foreign
    cases foreign
  · decide +kernel

end Session
end LineShell
