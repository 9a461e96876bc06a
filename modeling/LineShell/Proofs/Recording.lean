import LineShell.Proofs.Exiting
import Mathlib.Data.List.Basic

-- Nothing but the end of a line records anything.
namespace LineShell
open World

namespace World
variable {w middle after : World}

-- These events have been recorded in this order, and the shell's own environment is what it was.
structure Adds (w : World) (events : List Event) (after : World) : Prop where
  events : after.events = events.reverse ++ w.events
  environ : after.environ = w.environ

theorem Adds.refl (w : World) : Adds w [] w := ⟨rfl, rfl⟩

theorem Adds.trans (first : Adds w earlier middle) (second : Adds middle later after) : Adds w (earlier ++ later) after :=
  ⟨by rw [second.events, first.events, List.reverse_append, List.append_assoc], second.environ.trans first.environ⟩

theorem Adds.then_none (first : Adds w added middle) (second : Adds middle [] after) : Adds w added after := by
  simpa using first.trans second

theorem Adds.after_none (first : Adds w [] middle) (second : Adds middle added after) : Adds w added after :=
  first.trans second

theorem Still.adds (still : Still w after) : Adds w [] after := ⟨still.events, still.environ⟩

theorem Still.note (still : Still w after) (call : Call) : Still w (after.note call) :=
  ⟨still.cwd, still.environ, still.events⟩

theorem adds_passing : Passing (fun w after => Adds w [] after) (fun _ _ => True) where
  refl := Adds.refl
  trans := Adds.then_none
  fit _ := id
  emit _ _ := (emit_still _ _ _).adds
  move moved := by
    obtain ⟨cwd, rfl⟩ := changeDirectory_same moved
    exact ⟨rfl, rfl⟩

-- Parts of a run one after the other, each by the worlds it finds and leaves; nothing is recorded in between.
def Along (worlds : β → World × World) : World → List β → World → Prop
  | first, [], last => Adds first [] last
  | first, part :: rest, last => Adds first [] (worlds part).1 ∧ Along worlds (worlds part).2 rest last

variable {worlds : β → World × World} {first last : World} {parts later : List β}

theorem Along.cons {part : β} (left : worlds part = (first, middle)) (rest : Along worlds middle parts last) :
    Along worlds first (part :: parts) last := by
  unfold Along
  rw [left]
  exact ⟨Adds.refl first, rest⟩

theorem Along.append (front : Along worlds first parts middle) (back : Along worlds middle later last) :
    Along worlds first (parts ++ later) last := by
  induction parts generalizing first with
  | nil =>
    cases later with
    | nil => exact front.then_none back
    | cons part rest => exact ⟨front.then_none back.1, back.2⟩
  | cons part rest ih => exact ⟨front.1, ih front.2⟩

theorem Along.after_none (front : Adds w [] first) (along : Along worlds first parts last) : Along worlds w parts last := by
  cases parts with
  | nil => exact front.then_none along
  | cons part rest => exact ⟨front.then_none along.1, along.2⟩

theorem Along.then_none (along : Along worlds first parts last) (back : Adds last [] after) : Along worlds first parts after := by
  have whole := along.append (show Along worlds last [] after from back)
  simpa using whole

theorem Along.congr {other : β → World × World} (same : ∀ part ∈ parts, worlds part = other part)
    (along : Along worlds first parts last) : Along other first parts last := by
  induction parts generalizing first with
  | nil => exact along
  | cons part rest ih =>
    rw [List.forall_mem_cons] at same
    obtain ⟨here, following⟩ := along
    rw [same.1] at here following
    exact ⟨here, ih same.2 following⟩

-- What each part adds makes up what is added, and each of them finds the environment of the beginning.
theorem Along.adds {f : β → List Event} (along : Along worlds first parts last)
    (each : ∀ part ∈ parts, Adds (worlds part).1 (f part) (worlds part).2) :
    Adds first (parts.flatMap f) last ∧ ∀ part ∈ parts, (worlds part).1.environ = first.environ := by
  induction parts generalizing first with
  | nil => exact ⟨along, by simp⟩
  | cons part rest ih =>
    rw [List.forall_mem_cons] at each
    obtain ⟨here, following⟩ := along
    obtain ⟨added, same⟩ := ih following each.2
    have start := here.after_none each.1
    refine ⟨start.trans added, List.forall_mem_cons.mpr ⟨here.environ, fun other member => ?_⟩⟩
    exact (same other member).trans start.environ

end World

namespace Engine
variable {e : Engine} {runner : Runner σ}

def Visit.worlds (e : Engine) (runner : Runner σ) (visit : Visit σ) : World × World :=
  (visit.world, (e.enter runner visit.stage visit.state visit.world).2.2)

theorem visits_along (e : Engine) (runner : Runner σ) (i : Nat) (entries : List (Stage × Progress)) (s : σ) (w : World) :
    Along (Visit.worlds e runner) w (e.visits runner i entries s w) (e.enterAll runner i entries s w).2.2 := by
  induction entries generalizing i s w with
  | nil => exact Adds.refl w
  | cons entry others ih =>
    obtain ⟨stage, progress⟩ := entry
    by_cases inside : stage.Inside
    · rcases ran : e.enter runner stage s (w.note (.entered i)) with ⟨status, next, middle⟩
      rw [visits_running others inside ran, enterAll_running others inside ran rfl]
      obtain ⟨_, _, _, _, still⟩ := release_closes stage middle
      refine ⟨((Still.refl w).note _).adds, ?_⟩
      have leaves : (Visit.worlds e runner ⟨stage, s, w.note (.entered i)⟩).2 = middle := congrArg (·.2.2) ran
      rw [leaves]
      exact (ih (i + 1) next _).after_none still.adds
    · rw [visits_passing others inside, enterAll_passing others inside rfl]
      exact ih _ _ _

theorem waitAll_still (entries : List (Stage × Progress)) (w : World) : Still w (waitAll entries w).2 := by
  have each : ∀ (progress : List Progress) (w : World), Still w (waitEach progress w).2 := by
    intro progress
    induction progress with
    | nil => exact Still.refl
    | cons one others ih =>
      intro w
      cases one with
      | waiting => exact ih w
      | done status => exact ih w
      | running child => exact (((Still.refl w).note _).trans (wait_left w child).still).trans (ih _)
  exact (((Still.refl w).note _).trans (settle_quiet _).still).trans (each _ _)

theorem stoppedAt_still (entries : List (Stage × Progress)) (w : World) : Still w (stoppedAt entries w).2 :=
  ((Pipeline.close_footprint _ w).still.trans (waitAll_still entries _)).trans (Pipeline.close_footprint _ _).still

theorem finishedAt_still (entries : List (Stage × Progress)) (w : World) : Still w (finishedAt entries w).2 :=
  (waitAll_still entries w).trans (Pipeline.close_footprint _ _).still

end Engine

namespace Session
variable {scripts : ScriptRunner}

theorem lineVisits_along (scripts : ScriptRunner) (line : Bytes) (s : Session) (w : World) :
    Along (Engine.Visit.worlds s.engine (runner scripts)) w (lineVisits scripts line s w)
      (runLine scripts (trimmed line) s w).2.2 := by
  obtain ⟨_, footprint, _⟩ := compile_footprint s.expand (trimmed line) w
  have started : ∀ {p opened stopped entries ready}, compile s.expand (trimmed line) w = (.ok p, opened) →
      s.engine.launchAll s.environ 0 (p.classify Builtin.isBuiltin).stages
        (s.engine.dump (p.classify Builtin.isBuiltin) opened) = (stopped, entries, ready) → Still w ready := by
    intro p opened stopped entries ready compiled launched
    obtain ⟨_, launching⟩ := Engine.launchAll_launched s.engine s.environ 0 (p.classify Builtin.isBuiltin).stages
      (s.engine.dump (p.classify Builtin.isBuiltin) opened)
    rw [compiled] at footprint
    rw [launched] at launching
    exact (footprint.still.trans (Engine.dump_quiet s.engine (p.classify Builtin.isBuiltin) opened).still).trans
      launching.launching.still
  cases line_course (trimmed line) s w with
  | refused compiled =>
    rw [lineVisits_refused compiled, runLine_refused compiled]
    rw [compiled] at footprint
    exact footprint.still.adds
  | stopped compiled launched =>
    rw [lineVisits_stopped compiled launched, runLine_stopped compiled launched]
    have ready := started compiled launched
    exact ((ready.trans (Engine.stoppedAt_still _ _)).trans (Pipeline.close_footprint _ _).still).adds
  | launched compiled launched =>
    rw [lineVisits_launched compiled launched, runLine_launched compiled launched rfl]
    have ready := started compiled launched
    refine ((Engine.visits_along s.engine (runner scripts) 0 _ s _).after_none ready.adds).then_none ?_
    exact ((Engine.finishedAt_still _ _).trans (Pipeline.close_footprint _ _).still).adds

def Turn.worlds (t : Turn) : World × World := (t.world, t.result.2.2)

def Turn.worldsBy (scripts : ScriptRunner) (t : Turn) : World × World :=
  (t.world, (interpretWith scripts t.line t.session t.world).2.2)

theorem Turn.worldsBy_levels {t : Turn} (levels : t.session.levels = deeper) : t.worldsBy (runScriptAt deeper) = t.worlds := by
  unfold worldsBy worlds result interpret
  rw [levels]

theorem Turn.worldsBy_left {t : Turn} (interpreted : interpretWith scripts t.line t.session t.world = (answer, next, after)) :
    t.worldsBy scripts = (t.world, after) := by
  unfold worldsBy
  rw [interpreted]

theorem LinesRun.along (run : LinesRun scripts lines s w turns result) : Along (Turn.worldsBy scripts) w turns result.2.2 := by
  induction run with
  | finished => exact Adds.refl _
  | tooLong => exact Adds.refl _
  | fatal _ first => exact .cons (Turn.worldsBy_left first) (Adds.refl _)
  | exited _ first _ => exact .cons (Turn.worldsBy_left first) (Adds.refl _)
  | goes _ first _ _ ih => exact .cons (Turn.worldsBy_left first) ih

theorem BlocksRun.along (run : BlocksRun scripts path blocks r s w turns result) :
    Along (Turn.worldsBy scripts) w turns result.2.2 := by
  induction run with
  | spent => exact Adds.refl _
  | unreadable => exact Adds.refl _
  | tooLong => exact Adds.refl _
  | last _ run => exact run.along
  | failed _ run => exact run.along
  | exited _ run _ => exact run.along
  | goes _ run _ _ ih => exact run.along.append ih

theorem ScriptRun.along (run : ScriptRun more path s w turns result) (levels : s.levels = more) :
    Along Turn.worlds w turns result.2.2 := by
  have opening := (openScript_quiet s.storage path w).still.adds
  cases run with
  | tooDeep => exact Adds.refl w
  | unopened opens => rwa [opens] at opening
  | opened _ opens run =>
    rw [opens] at opening
    have along := run.along.congr fun inner interprets => Turn.worldsBy_levels (opened_levels levels run interprets)
    exact along.after_none opening

theorem scriptTurns_along (s : Session) (path : Bytes) (w : World) :
    Along Turn.worlds w (scriptTurns s.levels path s w) (runScript path s w).2.2 :=
  (scriptRun s.levels path s w).along rfl

-- The lines in the order in which they end: a line ends after those of the scripts it runs. By how deep scripts may
-- still be run.
def completedAt : Nat → Turn → List Turn
  | 0, t => [t]
  | levels + 1, t => t.calls.flatMap (fun call => call.lines.flatMap (completedAt levels)) ++ [t]

def Turn.completed (t : Turn) : List Turn := completedAt t.session.levels t

theorem Turn.completed_eq (t : Turn) :
    t.completed = t.calls.flatMap (fun call => call.lines.flatMap Turn.completed) ++ [t] := by
  unfold completed
  rcases levels : t.session.levels with _ | deeper
  · have none : t.calls.flatMap (fun call => call.lines.flatMap fun t => completedAt t.session.levels t) = [] := by
      refine List.flatMap_eq_nil_iff.mpr fun call runs => ?_
      have empty : call.lines = [] := by
        refine List.eq_nil_iff_forall_not_mem.mpr fun inner interprets => ?_
        have shallower := (Sourcing.entering interprets).levels
        rw [(t.calling runs).levels, levels] at shallower
        cases shallower
      rw [empty]
      rfl
    rw [none]
    rfl
  · refine congrArg (· ++ [t]) (List.flatMap_congr fun call runs => List.flatMap_congr fun inner interprets => ?_)
    have shallower := (Sourcing.entering interprets).levels
    rw [(t.calling runs).levels, levels] at shallower
    show completedAt deeper inner = completedAt inner.session.levels inner
    rw [Nat.succ.inj shallower]

theorem Inside.trans {outer middle inner : Turn} (first : Inside outer around middle) (second : Inside middle stack inner) :
    Inside outer (stack ++ around) inner := by
  induction second with
  | here => exact first
  | deeper _ runs interprets ih => exact ih.deeper runs interprets

-- They are the lines that are interpreted in the course of the line.
theorem Turn.mem_completed {t u : Turn} : u ∈ t.completed ↔ ∃ stack, Inside t stack u := by
  constructor
  · intro member
    induction t using Turn.nested generalizing u with
    | step t ih =>
      rw [t.completed_eq] at member
      rcases List.mem_append.mp member with deeper | here
      · obtain ⟨call, runs, among⟩ := List.mem_flatMap.mp deeper
        obtain ⟨inner, interprets, inside⟩ := List.mem_flatMap.mp among
        obtain ⟨stack, nested⟩ := ih call runs inner interprets inside
        exact ⟨_, (Inside.here.deeper runs interprets).trans nested⟩
      · cases List.mem_singleton.mp here
        exact ⟨[], .here⟩
  · rintro ⟨stack, nested⟩
    have inwards : ∀ t middle : Turn, middle ∈ t.completed → ∀ call ∈ middle.calls, ∀ inner ∈ call.lines, inner ∈ t.completed := by
      intro t
      induction t using Turn.nested with
      | step t ih =>
        intro middle member call runs inner interprets
        rw [t.completed_eq] at member ⊢
        refine List.mem_append_left _ ?_
        rcases List.mem_append.mp member with deeper | here
        · obtain ⟨outer, among, inside⟩ := List.mem_flatMap.mp deeper
          obtain ⟨line, found, within⟩ := List.mem_flatMap.mp inside
          exact List.mem_flatMap.mpr ⟨outer, among, List.mem_flatMap.mpr
            ⟨line, found, ih outer among line found middle within call runs inner interprets⟩⟩
        · cases List.mem_singleton.mp here
          refine List.mem_flatMap.mpr ⟨call, runs, List.mem_flatMap.mpr ⟨inner, interprets, ?_⟩⟩
          rw [inner.completed_eq]
          exact List.mem_append_right _ (List.mem_singleton_self _)
    induction nested with
    | here =>
      rw [t.completed_eq]
      exact List.mem_append_right _ (List.mem_singleton_self _)
    | deeper _ runs interprets ih => exact inwards t _ ih _ runs _ interprets

-- What running a line comes to.
def Turn.ran (t : Turn) : LineResult := (runLine (runScriptAt t.session.levels) (trimmed t.line) t.session t.world).1

theorem Turn.fault?_ran {t : Turn} (present : trimmed t.line ≠ []) : t.fault? = t.ran.fault := if_neg present

def Turn.event (t : Turn) : Event := lineEvent (trimmed t.line) t.ran.command t.ran.status t.ran.fault

-- A blank line leaves no event, and neither does one that goes through while a failure is held.
def Turn.reports (t : Turn) : Bool := !(trimmed t.line).isEmpty && (t.fault?.isSome || t.result.2.1.fatal.isNone)

-- Whether an event can be written in the session.
def writes (s : Session) (event : Event) : Bool :=
  (Entry.ofEvent ((s.recorder.map (·.session)).getD []) 0 event).writable

def Turn.recorded (t : Turn) : List Event := if t.reports && t.session.writes t.event then [t.event] else []

theorem record_adds (s : Session) (event : Event) (w : World) :
    Adds w (if s.writes event then [event] else []) (s.record event w) := by
  have noted : Adds w [event] (w.noteEvent event) := ⟨rfl, rfl⟩
  unfold record Entry.encode?
  dsimp only
  rw [show (Entry.ofEvent ((s.recorder.map (·.session)).getD []) w.clock event).writable = s.writes event from rfl]
  cases s.writes event with
  | false => exact (emit_still w _ _).adds
  | true =>
    cases s.recorder with
    | none => exact noted
    | some r => exact noted.then_none (append_quiet _ _ _).still.adds

-- Neither the recorder nor the directories of programs change while lines are interpreted.
structure Alongside (s after : Session) : Prop where
  recorder : after.recorder = s.recorder
  searchPath : after.searchPath = s.searchPath

theorem change_alongside (change : Change s after) : Alongside s after := by
  cases change with
  | exportName name =>
    obtain ⟨env, only⟩ := Builtin.exportName_only s name
    rw [only]
    exact ⟨rfl, rfl⟩
  | _ => exact ⟨rfl, rfl⟩

theorem Changes.alongside (changes : Changes s after) : Alongside s after := by
  induction changes with
  | none => exact ⟨rfl, rfl⟩
  | step _ change ih =>
    have last := change_alongside change
    exact ⟨last.recorder.trans ih.recorder, last.searchPath.trans ih.searchPath⟩

theorem writes_same {s after : Session} (same : after.recorder = s.recorder) (event : Event) : after.writes event = s.writes event := by
  unfold writes
  rw [same]

-- How a line ends, by the session and the world that its stages leave.
inductive Turn.Ended (t : Turn) (next : Session) (after : World) : Prop where
  | held (fine : t.fault? = none) (stored : next.fatal = some fault)
    (result : t.result = ((1, some fault), { next with lastStatus := 1 }, after))
  | passed (fine : t.fault? = none) (free : next.fatal = none)
    (result : t.result = ((t.ran.status, none), { next with lastStatus := t.ran.status }, next.record t.event after))
  | failed (fails : t.fault? = some fault) (unchanged : next = t.session)
    (result : t.result = ((fault.status, if fault.isSpawn then some fault else none),
      { next with
        lastStatus := fault.status
        exited := fault.isSpawn || next.exited
        fatal := if fault.isSpawn then some fault else next.fatal },
      (next.record t.event after).emit next.messages
        (next.settings.shellName ++ ascii ": " ++ fault.message ++ [Bytes.newline])))

theorem Turn.ended (t : Turn) (present : trimmed t.line ≠ []) :
    t.Ended (runLine (runScriptAt t.session.levels) (trimmed t.line) t.session t.world).2.1
      (runLine (runScriptAt t.session.levels) (trimmed t.line) t.session t.world).2.2 := by
  rcases whole : runLine (runScriptAt t.session.levels) (trimmed t.line) t.session t.world with ⟨result, next, after⟩
  have ran : t.ran = result := congrArg Prod.fst whole
  have same : t.fault? = result.fault := by rw [Turn.fault?_ran present, ran]
  have event : t.event = lineEvent (trimmed t.line) result.command result.status result.fault := by
    unfold Turn.event
    rw [ran]
  cases passed : result.fault with
  | none =>
    rw [passed] at same event
    cases stored : next.fatal with
    | some fault => exact .held same stored (interpretWith_held present whole passed stored)
    | none =>
      refine .passed same stored ?_
      rw [event, ran]
      exact interpretWith_passed present whole passed stored
  | some fault =>
    rw [passed] at same event
    obtain ⟨rfl, _⟩ := runLine_failed whole passed
    refine .failed same rfl ?_
    rw [event]
    exact interpretWith_failed present whole passed

-- When its stages are over, a line records its own event or nothing.
theorem Turn.ends_adds (t : Turn) (present : trimmed t.line ≠ []) :
    Adds (runLine (runScriptAt t.session.levels) (trimmed t.line) t.session t.world).2.2 t.recorded t.result.2.2 := by
  have follows := runLine_follows (runScriptAt_follows t.session.levels) (trimmed t.line) t.session t.world
  have shown : (trimmed t.line).isEmpty = false := by simpa using present
  have ended := t.ended present
  rcases whole : runLine (runScriptAt t.session.levels) (trimmed t.line) t.session t.world with ⟨_, next, after⟩
  rw [whole] at follows ended
  dsimp only at ended
  have recording := record_adds next t.event after
  rw [writes_same follows.changes.alongside.recorder] at recording
  unfold recorded reports
  rw [shown]
  cases ended with
  | held fine stored result =>
    rw [fine, result]
    simpa [stored] using Adds.refl after
  | passed fine free result =>
    rw [fine, result]
    simpa [free] using recording
  | failed fails unchanged result =>
    rw [fails, result]
    simpa using recording.then_none (emit_still _ _ _).adds

-- What a stage adds: the events of the script it runs, if it runs one.
theorem Turn.stage_adds {t : Turn} {visit : Engine.Visit Session} (entered : visit ∈ t.visits)
    (each : ∀ call ∈ t.calls, ∀ inner ∈ call.lines, Adds inner.world (f inner) inner.result.2.2) :
    Adds visit.world ((visit.sourcing? t.session.engine).toList.flatMap fun call => call.lines.flatMap f)
      (visit.worlds t.session.engine (runner (runScriptAt t.session.levels))).2 ∧
    ∀ call, visit.sourcing? t.session.engine = some call → ∀ inner ∈ call.lines, inner.world.environ = visit.world.environ := by
  unfold Engine.Visit.worlds
  dsimp only
  cases found : visit.sourcing? t.session.engine with
  | none =>
    refine ⟨?_, by rintro _ ⟨⟩⟩
    -- Any way of running scripts will do, also one that does nothing.
    rw [Engine.enter_plain found _ fun _ s w => ((0, none), s, w)]
    rcases Engine.enter_cases found fun _ s w => ((0, none), s, w) with ⟨_, ran⟩ | ⟨_, _, ran⟩ | ⟨args, streams, _, ran⟩
    · rw [ran]
      exact (emit_still _ _ _).adds
    · rw [ran]
      unfold Session.assign
      split
      · exact Adds.refl _
      · exact (emit_still _ _ _).adds
    · rw [ran]
      exact Builtin.run_passes adds_passing streams _ _ (fun _ _ => Adds.refl _) fun _ _ => trivial
  | some call =>
    have runs : call ∈ t.calls := List.mem_filterMap.mpr ⟨visit, entered, found⟩
    obtain ⟨_, _, same⟩ := Engine.sourcing_some found
    have along : Along Turn.worlds call.world call.lines call.result.2.2 := scriptTurns_along call.given call.path call.world
    obtain ⟨added, environs⟩ := along.adds (each call runs)
    have begins : visit.world = call.world := by rw [same]
    rw [begins]
    refine ⟨?_, by rintro _ ⟨⟩; exact environs⟩
    rw [← begins, Engine.enter_sourcing found, begins, ← (t.calling runs).result]
    have complained : Adds call.result.2.2 [] (call.back call.result).2.2 := by
      unfold Sourcing.back Builtin.complainOf
      dsimp only
      split
      · exact Adds.refl _
      · exact (emit_still _ _ _).adds
    simpa using added.then_none complained

theorem Turn.blank_result {t : Turn} (blank : trimmed t.line = []) : t.result = ((0, none), t.session, t.world) :=
  interpretWith_blank blank

theorem Turn.blank_visits {t : Turn} (blank : trimmed t.line = []) : t.visits = [] := by
  unfold visits
  cases line_course (trimmed t.line) t.session t.world with
  | refused compiled => exact lineVisits_refused compiled
  | stopped compiled => exact absurd blank (compile_present _ compiled)
  | launched compiled => exact absurd blank (compile_present _ compiled)

-- What is inside a line, stage by stage.
theorem Turn.calls_flatMap (t : Turn) (f : Turn → List β) : t.calls.flatMap (fun call => call.lines.flatMap f) =
    t.visits.flatMap fun visit => (visit.sourcing? t.session.engine).toList.flatMap fun call => call.lines.flatMap f := by
  rw [show t.calls = t.visits.filterMap (Engine.Visit.sourcing? t.session.engine) from rfl, List.filterMap_eq_flatMap_toList,
    List.flatMap_assoc]

-- What a line adds: by induction on the scripts inside it.
theorem Turn.adds (t : Turn) : Adds t.world (t.completed.flatMap recorded) t.result.2.2 ∧
    ∀ u ∈ t.completed, u.world.environ = t.world.environ := by
  induction t using Turn.nested with
  | step t ih =>
    have stages := fun visit (entered : visit ∈ t.visits) => Turn.stage_adds entered fun call runs inner interprets =>
      (ih call runs inner interprets).1
    have along : Along _ t.world t.visits _ := lineVisits_along (runScriptAt t.session.levels) t.line t.session t.world
    obtain ⟨added, environs⟩ := along.adds fun visit entered => (stages visit entered).1
    have calls : t.visits.flatMap (fun visit => (visit.sourcing? t.session.engine).toList.flatMap fun call =>
        call.lines.flatMap fun inner => inner.completed.flatMap recorded) =
        (t.calls.flatMap fun call => call.lines.flatMap Turn.completed).flatMap recorded := by
      rw [← t.calls_flatMap]
      simp only [List.flatMap_assoc]
    rw [t.completed_eq]
    constructor
    · rw [List.flatMap_append, ← calls]
      by_cases blank : trimmed t.line = []
      · rw [Turn.blank_visits blank, Turn.blank_result blank]
        have silent : t.recorded = [] := by
          unfold recorded reports
          rw [blank]
          rfl
        simpa [silent] using Adds.refl t.world
      · simpa using added.trans (t.ends_adds blank)
    · intro u member
      rcases List.mem_append.mp member with deeper | here
      · obtain ⟨call, runs, among⟩ := List.mem_flatMap.mp deeper
        obtain ⟨inner, interprets, inside⟩ := List.mem_flatMap.mp among
        obtain ⟨visit, entered, found⟩ := mem_lineCalls runs
        rw [(ih call runs inner interprets).2 u inside, (stages visit entered).2 call found inner interprets]
        exact environs visit entered
      · rw [List.mem_singleton.mp here]

-- What a run of the user's adds.

namespace Act

def left (act : Act) : World :=
  match act.step with
  | .line text => (interpret text act.session act.world).2.2
  | .script path => (runScript path act.session act.world).2.2
  | .text text => (runText text act.session act.world).2.2
  | .command args streams => (runBuiltin args streams act.session act.world).2.2
  | .assignment text streams => (Session.assign text streams act.session act.world).2.2

-- The lines that are interpreted for it, those inside other lines too, in the order in which they end.
def completed (act : Act) : List Turn := act.turns.flatMap Turn.completed

end Act

theorem Act.turns_along (act : Act) : Along Turn.worlds act.world act.turns act.left := by
  obtain ⟨step, s, w⟩ := act
  cases step with
  | line text => exact ⟨Adds.refl w, Adds.refl _⟩
  | script path => exact scriptTurns_along s path w
  | text text =>
    have along := (linesRun (runScriptAt s.levels) (scriptLines text) s w).along
    exact along.congr fun inner interprets => Turn.worldsBy_levels (text_levels interprets)
  | command args streams =>
    unfold turns left
    dsimp only
    cases runs : Builtin.scriptOf? args with
    | none =>
      have same : runBuiltin args streams s w = Builtin.run (fun _ _ s w => ((0, none), s, w)) args streams s w :=
        Builtin.run_plain runs
      rw [same]
      exact Builtin.run_passes adds_passing streams s w (fun _ _ => Adds.refl w) fun _ _ => trivial
    | some path =>
      have along := scriptTurns_along (s.redirectStd streams.files) path w
      have complained : Adds (runScript path (s.redirectStd streams.files) w).2.2 [] (runBuiltin args streams s w).2.2 := by
        rcases ran : sourceScript (runScriptAt s.levels) path streams s w with ⟨⟨status, message⟩, next, after⟩
        have left : (runScript path (s.redirectStd streams.files) w).2.2 = after := congrArg (·.2.2) ran
        unfold runBuiltin
        rw [Builtin.run_script runs ran, left]
        unfold Builtin.complainOf
        dsimp only
        split
        · exact Adds.refl _
        · exact (emit_still _ _ _).adds
      exact along.then_none complained
  | assignment text streams =>
    unfold turns left Session.assign
    dsimp only
    split
    · exact Adds.refl w
    · exact (emit_still _ _ _).adds

-- The sessions that lines find have been reached by changes from that of the beginning.

theorem Sourcing.line_changes {call : Sourcing} {inner : Turn} (interprets : inner ∈ call.lines) : Changes call.given inner.session := by
  have follows := Sourcing.keeps interprets fun deeper => keeps_follows (runScriptAt_follows deeper)
  exact (Change.nest _).once.trans follows.changes

theorem inside_changes {inner : Turn} (nested : Inside outer stack inner) : Changes outer.session inner.session := by
  induction nested with
  | here => exact .none
  | @deeper stack middle call inner around runs interprets ih =>
    have given : Changes call.session call.given := (Change.redirect _ _ _).once
    exact ((ih.trans (middle.calling runs).follows.changes).trans given).trans (Sourcing.line_changes interprets)

theorem ScriptRun.changes {inner : Turn} (run : ScriptRun more path s w turns result) (interprets : inner ∈ turns) :
    Changes s inner.session := by
  cases run with
  | tooDeep => cases interprets
  | unopened => cases interprets
  | opened _ opens run =>
    have follows := (keeps_follows (runScriptAt_follows _)).of_blocks run inner interprets
    exact (Change.nest _).once.trans follows.changes

theorem scriptTurns_changes {inner : Turn} (interprets : inner ∈ scriptTurns s.levels path s w) : Changes s inner.session :=
  (scriptRun s.levels path s w).changes interprets

theorem Act.turn_changes {act : Act} {turn : Turn} (interprets : turn ∈ act.turns) : Changes act.session turn.session := by
  obtain ⟨step, s, w⟩ := act
  cases step with
  | line text =>
    cases List.mem_singleton.mp interprets
    exact .none
  | script path => exact scriptTurns_changes interprets
  | text text => 
    have follows := (keeps_follows (runScriptAt_follows s.levels)).of_lines (linesRun _ (scriptLines text) s w)
    exact (follows.1 turn interprets).changes
  | command args streams =>
    unfold turns at interprets
    dsimp only at interprets
    split at interprets
    · have given : Changes s (s.redirectStd streams.files) := (Change.redirect _ _ _).once
      exact given.trans (scriptTurns_changes interprets)
    · cases interprets
  | assignment text streams => cases interprets

-- Whatever is run, what is recorded is what its lines record, in the order in which they end. Each of them finds
-- the environment, the recorder and the directories of programs of the beginning.
theorem Act.adds (act : Act) : Adds act.world (act.completed.flatMap Turn.recorded) act.left ∧
    ∀ u ∈ act.completed, u.world.environ = act.world.environ ∧ Alongside act.session u.session := by
  obtain ⟨added, environs⟩ := act.turns_along.adds fun turn _ => turn.adds.1
  unfold completed
  rw [List.flatMap_assoc]
  refine ⟨added, fun u member => ?_⟩
  obtain ⟨turn, interprets, inside⟩ := List.mem_flatMap.mp member
  obtain ⟨stack, nested⟩ := Turn.mem_completed.mp inside
  exact ⟨(turn.adds.2 u inside).trans (environs turn interprets),
    ((turn_changes interprets).trans (inside_changes nested)).alongside⟩

end Session
end LineShell
