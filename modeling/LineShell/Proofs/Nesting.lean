import LineShell.Proofs.Changes
import LineShell.Proofs.Failures

namespace LineShell
open World

namespace Engine

-- A stage that is no program, at the moment it is entered.
structure Visit (σ : Type) where
  stage : Stage
  state : σ
  world : World

def visits (e : Engine) (runner : Runner σ) : Nat → List (Stage × Progress) → σ → World → List (Visit σ)
  | _, [], _, _ => []
  | i, (stage, _) :: rest, s, w =>
    if stage.kind = .internal ∨ stage.kind = .assignment then
      let (_, next, after) := e.enter runner stage s (w.note (.entered i))
      ⟨stage, s, w.note (.entered i)⟩ :: e.visits runner (i + 1) rest next (stage.stdio.release after).2.2
    else e.visits runner (i + 1) rest s w

variable {e : Engine} {runner : Runner σ} {R : σ → σ → Prop}

theorem visits_running (others : List (Stage × Progress)) (inside : stage.Inside)
    (ran : e.enter runner stage s (w.note (.entered i)) = (status, next, middle)) :
    e.visits runner i ((stage, progress) :: others) s w =
      ⟨stage, s, w.note (.entered i)⟩ :: e.visits runner (i + 1) others next (stage.stdio.release middle).2.2 := by
  rw [visits]
  refine (if_pos inside).trans ?_
  rw [ran]

theorem visits_passing (others : List (Stage × Progress)) (outside : ¬stage.Inside) :
    e.visits runner i ((stage, progress) :: others) s w = e.visits runner (i + 1) others s w := by
  rw [visits]
  exact if_neg outside

theorem visits_within (within : Within runner R) (i : Nat) (entries : List (Stage × Progress)) (s : σ) (w : World)
    (entered : visit ∈ e.visits runner i entries s w) : R s visit.state := by
  induction entries generalizing i s w with
  | nil => cases entered
  | cons entry others ih =>
    obtain ⟨stage, progress⟩ := entry
    by_cases inside : stage.Inside
    · rcases ran : e.enter runner stage s (w.note (.entered i)) with ⟨status, next, middle⟩
      rw [visits_running others inside ran] at entered
      rcases List.mem_cons.mp entered with rfl | later
      · exact within.refl s
      · have first := enter_within within e stage s (w.note (.entered i))
        rw [ran] at first
        exact within.trans first (ih _ _ _ later)
    · rw [visits_passing others inside] at entered
      exact ih _ _ _ entered

end Engine

namespace Session

-- A stage about to run a script: the path, and the files the stage was given.
structure Sourcing where
  stage : Stage
  path : Bytes
  files : Triple (Option FileId)
  session : Session
  world : World

end Session

namespace Engine
open Session

def Visit.sourcing? (e : Engine) (visit : Visit Session) : Option Sourcing :=
  if visit.stage.kind = .assignment then none
  else
    (Builtin.scriptOf? (stripBackground visit.stage.args).1).map fun path =>
      ⟨visit.stage, path, visit.stage.stdio.resolve e.std, visit.state, visit.world⟩

end Engine

namespace Session

def lineVisits (scripts : ScriptRunner) (line : Bytes) (s : Session) (w : World) : List (Engine.Visit Session) :=
  match compile s.expand (trimmed line) w with
  | (.error _, _) => []
  | (.ok p, w) =>
    let p := p.classify Builtin.isBuiltin
    match s.engine.launchAll s.environ 0 p.stages (s.engine.dump p w) with
    | (some _, _, _) => []
    | (none, entries, w) => s.engine.visits (runner scripts) 0 entries s w

def lineCalls (scripts : ScriptRunner) (line : Bytes) (s : Session) (w : World) : List Sourcing :=
  (lineVisits scripts line s w).filterMap (Engine.Visit.sourcing? s.engine)

def Turn.result (t : Turn) : (Int × Option Fault) × Session × World := interpret t.line t.session t.world

-- What goes wrong with the line itself, if anything.
def Turn.fault? (t : Turn) : Option Fault :=
  if trimmed t.line = [] then none
  else (runLine (runScriptAt t.session.levels) (trimmed t.line) t.session t.world).1.fault

def Turn.visits (t : Turn) : List (Engine.Visit Session) :=
  lineVisits (runScriptAt t.session.levels) t.line t.session t.world

def Turn.callsBy (t : Turn) (scripts : ScriptRunner) : List Sourcing := lineCalls scripts t.line t.session t.world

def Turn.calls (t : Turn) : List Sourcing := t.callsBy (runScriptAt t.session.levels)

-- What is said of a script that did not run to its end; a fatal failure has been reported where it happened.
def unreported : Option ScriptFault → Option Bytes
  | none => none
  | some (.fatal _) => none
  | some fault => some fault.message

namespace Sourcing

-- The session the script gets.
def given (call : Sourcing) : Session := call.session.redirectStd call.files

def result (call : Sourcing) : (Int × Option ScriptFault) × Session × World := runScript call.path call.given call.world

def lines (call : Sourcing) : List Turn := scriptTurns call.given.levels call.path call.given call.world

-- What the stage makes of a run of the script: the session with its old files, and a message if there is
-- something left to report.
def back (call : Sourcing) (ran : (Int × Option ScriptFault) × Session × World) : Int × Session × World :=
  (ran.1.1, ran.2.1.restoreStd call.session, Builtin.complainOf (unreported ran.1.2) call.files.error ran.2.2)

end Sourcing

-- A line and the script it runs at the moment.
structure Frame where
  turn : Turn
  call : Sourcing

-- The lines interpreted in the course of a line, each with the lines and scripts around it, the nearest first.
inductive Inside (outer : Turn) : List Frame → Turn → Prop where
  | here : Inside outer [] outer
  | deeper {inner : Turn} (around : Inside outer stack middle) (runs : call ∈ middle.calls)
      (interprets : inner ∈ call.lines) : Inside outer (⟨middle, call⟩ :: stack) inner

end Session

namespace Engine
open Session
variable {e : Engine} {visit : Visit Session} {call : Sourcing}

theorem sourcing_some (found : visit.sourcing? e = some call) :
    visit.stage.kind ≠ .assignment ∧ Builtin.scriptOf? (stripBackground visit.stage.args).1 = some call.path ∧
      call = ⟨visit.stage, call.path, visit.stage.stdio.resolve e.std, visit.state, visit.world⟩ := by
  unfold Visit.sourcing? at found
  split at found
  · cases found
  · rename_i command
    obtain ⟨path, runs, rfl⟩ := Option.map_eq_some_iff.mp found
    exact ⟨command, runs, rfl⟩

theorem enter_sourcing (found : visit.sourcing? e = some call) (scripts : ScriptRunner) :
    e.enter (runner scripts) visit.stage visit.state visit.world =
      call.back (scripts call.path call.given call.world) := by
  obtain ⟨command, runs, same⟩ := sourcing_some found
  rcases ran : scripts call.path call.given call.world with ⟨⟨status, fault⟩, after, left⟩
  have given : sourceScript scripts call.path (Streams.ofFiles call.files) call.session call.world =
      ((status, unreported fault), after.restoreStd call.session, left) := by
    unfold sourceScript
    dsimp only [Streams.ofFiles]
    unfold Sourcing.given at ran
    rw [ran]
    cases fault with
    | none => rfl
    | some fault => cases fault <;> rfl
  cases words : (stripBackground visit.stage.args).1 with
  | nil =>
    rw [words] at runs
    cases runs
  | cons name args =>
    rw [words] at runs
    have whole := Builtin.run_script runs given
    rw [same] at whole ⊢
    exact (enter_commanding command words).trans whole

-- A stage that runs no script is an empty one, an assignment, or a command that runs none.
theorem enter_cases (none : visit.sourcing? e = none) (scripts : ScriptRunner) :
    (∃ file, e.enter (runner scripts) visit.stage visit.state visit.world =
      (1, visit.state, e.complain file emptyCommand visit.world)) ∨
    (∃ text streams, e.enter (runner scripts) visit.stage visit.state visit.world =
      Session.assign text streams visit.state visit.world) ∨
    ∃ args streams, Builtin.scriptOf? args = .none ∧ e.enter (runner scripts) visit.stage visit.state visit.world =
      Builtin.run (sourceScript scripts) args streams visit.state visit.world := by
  unfold Visit.sourcing? at none
  cases e.handing (runner scripts) visit.stage visit.state visit.world with
  | empty lacking answer => exact .inl ⟨_, answer⟩
  | assignment name args kind given answer => exact .inr (.inl ⟨name, _, answer⟩)
  | command name args kind given answer =>
    rw [if_neg kind, given] at none
    exact .inr (.inr ⟨name :: args, _, Option.map_eq_none_iff.mp none, answer⟩)

theorem enter_plain (none : visit.sourcing? e = none) (scripts other : ScriptRunner) :
    e.enter (runner scripts) visit.stage visit.state visit.world =
      e.enter (runner other) visit.stage visit.state visit.world := by
  unfold Visit.sourcing? at none
  cases e.handing (runner scripts) visit.stage visit.state visit.world with
  | empty lacking answer => rw [answer, enter_empty lacking]
  | assignment name args kind given answer =>
    rw [answer, enter_assigning kind given]
    rfl
  | command name args kind given answer =>
    rw [if_neg kind, given] at none
    rw [answer, enter_commanding kind given]
    exact Builtin.run_plain (Option.map_eq_none_iff.mp none)

end Engine

namespace Session
variable {turn : Turn} {call : Sourcing} {scripts : ScriptRunner}

theorem Turn.failed (fails : turn.fault? = some fault) :
    ∃ result after, turn.result = ((fault.status, if fault.isSpawn then some fault else none),
      { turn.session with
        lastStatus := fault.status
        exited := fault.isSpawn || turn.session.exited
        fatal := if fault.isSpawn then some fault else turn.session.fatal },
      turn.session.reported (trimmed turn.line) result fault after) := by
  unfold fault? at fails
  split at fails
  · cases fails
  · rename_i present
    rcases ran : runLine (runScriptAt turn.session.levels) (trimmed turn.line) turn.session turn.world with
      ⟨result, next, after⟩
    rw [ran] at fails
    obtain ⟨rfl, _⟩ := runLine_failed ran fails
    exact ⟨result, after, interpretWith_failed present ran fails⟩

-- Where in a line a script is run.

theorem mem_lineCalls (runs : call ∈ lineCalls scripts line s w) :
    ∃ visit ∈ lineVisits scripts line s w, visit.sourcing? s.engine = some call :=
  List.mem_filterMap.mp runs

theorem lineVisits_refused (compiled : compile s.expand (trimmed line) w = (.error fault, after)) :
    lineVisits scripts line s w = [] := by
  unfold lineVisits
  rw [compiled]

theorem lineVisits_stopped (compiled : compile s.expand (trimmed line) w = (.ok p, opened))
    (launched : s.engine.launchAll s.environ 0 (p.classify Builtin.isBuiltin).stages
      (s.engine.dump (p.classify Builtin.isBuiltin) opened) = (some fault, entries, ready)) :
    lineVisits scripts line s w = [] := by
  unfold lineVisits
  rw [compiled]
  dsimp only
  rw [launched]

theorem lineVisits_launched (compiled : compile s.expand (trimmed line) w = (.ok p, opened))
    (launched : s.engine.launchAll s.environ 0 (p.classify Builtin.isBuiltin).stages
      (s.engine.dump (p.classify Builtin.isBuiltin) opened) = (none, entries, ready)) :
    lineVisits scripts line s w = s.engine.visits (runner scripts) 0 entries s ready := by
  unfold lineVisits
  rw [compiled]
  dsimp only
  rw [launched]

theorem lineVisits_follows (follow : ScriptsFollow scripts) (entered : visit ∈ lineVisits scripts line s w) :
    Follows s visit.state := by
  cases line_course (trimmed line) s w with
  | refused compiled =>
    rw [lineVisits_refused compiled] at entered
    cases entered
  | stopped compiled launched =>
    rw [lineVisits_stopped compiled launched] at entered
    cases entered
  | launched compiled launched =>
    rw [lineVisits_launched compiled launched] at entered
    exact Engine.visits_within (runner_within follow) _ _ _ _ entered

theorem Turn.visit_follows (entered : visit ∈ turn.visits) : Follows turn.session visit.state :=
  lineVisits_follows (runScriptAt_follows _) entered

-- A script is run with the session as its line left it to the stage, and with the stage's files.
structure Calling (turn : Turn) (call : Sourcing) : Prop where
  follows : Follows turn.session call.session
  files : call.files = call.stage.stdio.resolve turn.session.engineStd

theorem Turn.calling (runs : call ∈ turn.calls) : Calling turn call := by
  obtain ⟨visit, entered, found⟩ := mem_lineCalls runs
  obtain ⟨_, _, same⟩ := Engine.sourcing_some found
  rw [same]
  exact ⟨turn.visit_follows entered, rfl⟩

theorem Calling.levels (calling : Calling turn call) : call.given.levels = turn.session.levels :=
  congrArg (maxDepth - ·) calling.follows.depth

theorem Calling.result (calling : Calling turn call) :
    call.result = runScriptAt turn.session.levels call.path call.given call.world := by
  unfold Sourcing.result runScript
  rw [calling.levels]

-- Which lines of a script are interpreted. What one line that can be gone on after keeps, all lines in front of
-- an interpreted one have kept.
structure Keeps (scripts : ScriptRunner) (R : Session → Session → Prop) : Prop where
  refl : ∀ s, R s s
  trans : ∀ {first middle last}, R first middle → R middle last → R first last
  line : ∀ {line s w status after left}, interpretWith scripts line s w = ((status, none), after, left) → R s after

namespace Keeps
variable {R : Session → Session → Prop}

theorem of_lines (keeps : Keeps scripts R) (run : LinesRun scripts lines s w turns result) :
    (∀ turn ∈ turns, R s turn.session) ∧ (result.1.2 = none → R s result.2.1) := by
  induction run with
  | finished => exact ⟨by simp, fun _ => keeps.refl _⟩
  | tooLong => exact ⟨by simp, by rintro ⟨⟩⟩
  | fatal => exact ⟨by simpa using keeps.refl _, by rintro ⟨⟩⟩
  | exited _ first _ => exact ⟨by simpa using keeps.refl _, fun _ => keeps.line first⟩
  | goes _ first _ _ ih =>
    have kept := keeps.line first
    refine ⟨List.forall_mem_cons.mpr ⟨keeps.refl _, ?_⟩, fun fine => keeps.trans kept (ih.2 fine)⟩
    exact fun turn later => keeps.trans kept (ih.1 turn later)

theorem of_blocks (keeps : Keeps scripts R) (run : BlocksRun scripts path blocks r s w turns result) :
    ∀ turn ∈ turns, R s turn.session := by
  induction run with
  | spent => simp
  | unreadable => simp
  | tooLong => simp
  | last _ run => exact (keeps.of_lines run).1
  | failed _ run => exact (keeps.of_lines run).1
  | exited _ run _ => exact (keeps.of_lines run).1
  | goes _ run _ _ ih =>
    obtain ⟨front, passed⟩ := keeps.of_lines run
    intro turn interprets
    rcases List.mem_append.mp interprets with here | later
    · exact front turn here
    · exact keeps.trans (passed rfl) (ih turn later)

end Keeps

theorem keeps_follows (follow : ScriptsFollow scripts) : Keeps scripts Follows where
  refl := .refl
  trans := .trans
  line := follows_of_interpretWith follow

-- The lines of a script that is entered are those of its file.
theorem Sourcing.lines_opened (levels : call.given.levels = deeper + 1)
    (opens : call.given.storage.openScript call.path call.world = (.ok channel, opened)) :
    call.lines = blocksTurns (runScriptAt deeper) (LineReader.blockLimit { channel := channel } opened)
      { channel := channel } { call.given with depth := call.given.depth + 1 } opened := by
  unfold Sourcing.lines scriptTurns
  rw [levels]
  dsimp only
  rw [opens]

theorem Sourcing.opened_of_lines {inner : Turn} (interprets : inner ∈ call.lines) :
    ∃ deeper channel opened, call.given.levels = deeper + 1 ∧
      call.given.storage.openScript call.path call.world = (.ok channel, opened) := by
  unfold lines at interprets
  rcases levels : call.given.levels with _ | deeper
  · rw [levels] at interprets
    cases interprets
  · rw [levels] at interprets
    unfold scriptTurns at interprets
    dsimp only at interprets
    split at interprets
    · cases interprets
    · rename_i channel opened opens
      exact ⟨deeper, channel, opened, rfl, opens⟩

theorem Sourcing.keeps {inner : Turn} {R : Session → Session → Prop} (interprets : inner ∈ call.lines)
    (keep : ∀ deeper, Keeps (runScriptAt deeper) R) :
    R { call.given with depth := call.given.depth + 1 } inner.session := by
  obtain ⟨deeper, channel, opened, levels, opens⟩ := opened_of_lines interprets
  rw [lines_opened levels opens] at interprets
  exact (keep deeper).of_blocks (blocksRun _ [] _ _ _ _) inner interprets

-- A line of a script finds the files the script was given, one level deeper.
structure Entering (call : Sourcing) (inner : Turn) : Prop where
  std : inner.session.std = call.given.std
  engine : inner.session.engineStd = inner.session.std
  messages : inner.session.messages = call.given.messages
  depth : inner.session.depth = call.given.depth + 1
  shallow : call.given.depth < maxDepth

theorem Sourcing.entering {inner : Turn} (interprets : inner ∈ call.lines) : Entering call inner := by
  have follows := Sourcing.keeps interprets fun deeper => keeps_follows (runScriptAt_follows deeper)
  obtain ⟨deeper, _, _, levels, _⟩ := opened_of_lines interprets
  refine ⟨follows.std, follows.engine rfl, follows.messages, follows.depth, ?_⟩
  unfold Session.levels at levels
  omega

theorem Entering.levels {inner : Turn} (entering : Entering call inner) : call.given.levels = inner.session.levels + 1 := by
  have deeper := entering.depth
  have shallow := entering.shallow
  unfold Session.levels
  omega

end Session
end LineShell
