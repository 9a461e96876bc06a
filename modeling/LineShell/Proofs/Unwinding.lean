import LineShell.Proofs.Redirecting

-- The line that ends a session is the last one of its script; if the script is all that the line around it runs, that
-- line is the last one of its own, and so on outwards.
namespace LineShell
open World

namespace Engine
variable {e : Engine} {runner : Runner σ} {stage : Stage}

-- The world when the only stage of a pipeline has returned.
def settled (stage : Stage) (w : World) : World := ((stage.stdio.release w).2.2.note .barrier).settle

theorem firstFailure_single (status : Int) : firstFailure [status] = status := by
  unfold firstFailure
  by_cases zero : status = 0
  · simp [zero]
  · simp [zero]

end Engine

namespace Builtin
open Bytes

theorem numeral_head (value : numeral? 10 (c :: digits) = some n) : c ≠ 0x2D ∧ c ≠ 0x2B := by
  constructor
  · rintro rfl
    cases value
  · rintro rfl
    cases value

theorem word_of_small {n : Nat} (small : (n : Int) < signedLimit) : isWord (n : Int) = true := by
  have lower : -signedLimit ≤ (n : Int) := Int.le_trans (by decide) (Int.natCast_nonneg n)
  unfold isWord
  rw [decide_eq_true lower, decide_eq_true small]
  rfl

-- The check is a variable here: reducing the bound it stands for takes too long.
theorem numeral_kept (fits : Int → Bool) {n : Nat} (value : numeral? 10 digits = some n) (word : fits n = true) :
    (do
      let n ← numeral? 10 digits
      let value : Int := if false then -(n : Int) else n
      if fits value then some value else none) = some (n : Int) := by
  simp [value, word]

theorem integer_numeral {n : Nat} (written : code = digits ∨ code = 0x2B :: digits) (value : numeral? 10 digits = some n)
    (word : isWord n = true) : integer? code = some (n : Int) := by
  unfold integer?
  split
  rename_i negative number sign
  have read : negative = false ∧ number = digits := by
    cases digits with
    | nil => cases value
    | cons c digits =>
      obtain ⟨minus, plus⟩ := numeral_head value
      rcases written with rfl | rfl
      · split at sign
        · rename_i same
          exact absurd (List.cons.inj same).1 minus
        · rename_i same
          exact absurd (List.cons.inj same).1 plus
        · cases sign
          exact ⟨rfl, rfl⟩
      · cases sign
        exact ⟨rfl, rfl⟩
  obtain ⟨rfl, rfl⟩ := read
  exact numeral_kept isWord value word

variable {runScript : Bytes → Streams → Session → World → (Int × Option Bytes) × Session × World}

theorem run_exit (written : code = digits ∨ code = 0x2B :: digits) (value : numeral? 10 digits = some n)
    (small : (n : Int) < signedLimit) :
    run runScript [exit.name, code] streams s w = (((n % 256 : Nat) : Int), { s with exited := true }, w) := by
  have operand : exit.usage.parse [] [code] = .ok ⟨[], [code]⟩ := by
    have plain : ∃ c rest, code = c :: rest ∧ c ≠ 0x2D := by
      cases digits with
      | nil => cases value
      | cons c digits =>
        rcases written with rfl | rfl
        · exact ⟨c, digits, rfl, (numeral_head value).1⟩
        · exact ⟨0x2B, c :: digits, rfl, by decide⟩
    obtain ⟨c, rest, rfl, minus⟩ := plain
    unfold Usage.parse
    split
    · rename_i same
      exact absurd (List.cons.inj same).1 minus
    · rename_i same
      exact absurd (List.cons.inj same).1 minus
    · rename_i same
      exact absurd (List.cons.inj same).1 minus
    · rename_i same
      exact absurd (List.cons.inj same).1 minus
    · rfl
  have found : find? exit.name = some exit := by decide +kernel
  rw [run_performed (performed_iff.mpr ⟨found, operand, by simp [Usage.Parsed.isOn]⟩)]
  unfold perform
  dsimp only
  rw [integer_numeral written value (word_of_small small)]
  simp

end Builtin

namespace Session
variable {scripts : ScriptRunner}

-- A stage as it is run.
def classified (stage : Stage) : Stage := { stage with kind := StageKind.classify Builtin.isBuiltin stage.args }

-- What a line of one stage does before that stage is entered.
def entrance (s : Session) (stage : Stage) (opened : World) : World :=
  (s.engine.dump ⟨[classified stage]⟩ opened).note (.entered 0)

theorem runLine_sole (compiled : compile s.expand line w = (.ok ⟨[stage]⟩, opened)) (inside : (classified stage).Inside)
    (ran : s.engine.enter (runner scripts) (classified stage) s (s.entrance stage opened) = (status, next, after)) :
    runLine scripts line s w =
      ({ command := stage.args, status := status }, next, Engine.settled (classified stage) after) := by
  have launched : s.engine.launchAll s.environ 0 [classified stage] (s.engine.dump ⟨[classified stage]⟩ opened) =
      (none, [(classified stage, .waiting)], s.engine.dump ⟨[classified stage]⟩ opened) :=
    Engine.launchAll_passing [] inside.not_external rfl
  have entered : s.engine.enterAll (runner scripts) 0 [(classified stage, .waiting)] s (s.engine.dump ⟨[classified stage]⟩ opened) =
      ([(Engine.released (classified stage), .done status)], next, ((classified stage).stdio.release after).2.2) :=
    Engine.enterAll_running [] inside ran rfl
  rw [runLine_launched compiled launched entered]
  have code : Engine.firstFailure (Engine.waitAll [(Engine.released (classified stage), .done status)]
      ((classified stage).stdio.release after).2.2).1 = status := Engine.firstFailure_single status
  rw [code]
  rfl

theorem lineVisits_sole (compiled : compile s.expand (trimmed line) w = (.ok ⟨[stage]⟩, opened))
    (entered : visit ∈ lineVisits scripts line s w) :
    (classified stage).Inside ∧ visit = ⟨classified stage, s, s.entrance stage opened⟩ := by
  unfold lineVisits at entered
  rw [compiled] at entered
  dsimp only at entered
  rw [show Pipeline.classify ⟨[stage]⟩ Builtin.isBuiltin = ⟨[classified stage]⟩ from rfl] at entered
  by_cases external : (classified stage).kind = .external
  · split at entered
    · cases entered
    · rename_i entries ready launched
      rcases started : s.engine.launch s.environ (classified stage) (s.engine.dump ⟨[classified stage]⟩ opened) with
        ⟨result, middle⟩
      cases result with
      | error fault =>
        rw [Engine.launchAll_failing [] external started] at launched
        cases launched
      | ok progress =>
        rw [Engine.launchAll_starting [] external started rfl] at launched
        cases launched
        have outside : ¬(Engine.released (classified stage)).Inside := fun inside => absurd external inside.not_external
        rw [Engine.visits_passing [] outside] at entered
        cases entered
  · rw [Engine.launchAll_passing [] external rfl] at entered
    dsimp only at entered
    by_cases inside : (classified stage).Inside
    · rw [Engine.visits_running [] inside rfl] at entered
      exact ⟨inside, List.mem_singleton.mp entered⟩
    · rw [Engine.visits_passing [] inside] at entered
      cases entered

theorem compile_present (expand : Bytes → Bytes) (compiled : compile expand line w = (.ok p, after)) : line ≠ [] := by
  rintro rfl
  have refused : (compile expand [] w).1 = .error (.parse .emptyStage Pipeline.pipeToken) := rfl
  rw [compiled] at refused
  cases refused

-- The stage of a line that has no other.
def Turn.sole? (t : Turn) : Option Stage :=
  match compile t.session.expand (trimmed t.line) t.world with
  | (.ok ⟨[stage]⟩, _) => some stage
  | _ => none

variable {turn inner : Turn} {call : Sourcing}

theorem Turn.sole_compiled (alone : turn.sole? = some stage) :
    ∃ opened, compile turn.session.expand (trimmed turn.line) turn.world = (.ok ⟨[stage]⟩, opened) := by
  unfold sole? at alone
  split at alone
  · rename_i opened compiled
    cases alone
    exact ⟨opened, compiled⟩
  · cases alone

-- A script that is all a line runs: what the line does in front of it, and that the line comes to what the
-- script comes to.
structure Solely (turn : Turn) (stage : Stage) (call : Sourcing) : Prop where
  opened : ∃ opened, compile turn.session.expand (trimmed turn.line) turn.world = (.ok ⟨[stage]⟩, opened) ∧
    call.world = turn.session.entrance stage opened
  entered : call.stage = classified stage
  session : call.session = turn.session
  ran : runLine (runScriptAt turn.session.levels) (trimmed turn.line) turn.session turn.world =
    ({ command := stage.args, status := call.result.1.1 }, (call.back call.result).2.1,
      Engine.settled call.stage (call.back call.result).2.2)

theorem Turn.solely (alone : turn.sole? = some stage) (runs : call ∈ turn.calls) : Solely turn stage call := by
  obtain ⟨opened, compiled⟩ := turn.sole_compiled alone
  obtain ⟨visit, entered, found⟩ := mem_lineCalls runs
  obtain ⟨inside, rfl⟩ := lineVisits_sole compiled entered
  have ran := Engine.enter_sourcing found (runScriptAt turn.session.levels)
  rw [← (turn.calling runs).result] at ran
  obtain ⟨_, _, same⟩ := Engine.sourcing_some found
  have stages : call.stage = classified stage := by rw [same]
  have world : call.world = turn.session.entrance stage opened := by rw [same]
  refine ⟨⟨opened, compiled, world⟩, stages, by rw [same], ?_⟩
  rw [stages]
  exact runLine_sole compiled inside ran

-- How a session ends: with a status, or with status one and a failure it cannot go on after.
inductive Ending where
  | exit (status : Int)
  | failure (fault : Fault)

namespace Ending

def status : Ending → Int
  | exit status => status
  | failure _ => 1

def fault? : Ending → Option Fault
  | exit _ => none
  | failure fault => some fault

-- What a line and a script return.
def ofLine (ending : Ending) : Int × Option Fault := (ending.status, ending.fault?)
def ofScript (ending : Ending) : Int × Option ScriptFault := (ending.status, ending.fault?.map .fatal)

-- Whether a session has ended like that.
structure Holds (ending : Ending) (s : Session) : Prop where
  status : s.lastStatus = ending.status
  fatal : s.fatal = ending.fault?
  exited : ending.fault? = none → s.exited = true

end Ending

-- The ending a status is asked for with; a failure that is already there has the last word.
def endingWith (s : Session) (status : Int) : Ending :=
  match s.fatal with
  | none => .exit status
  | some fault => .failure fault

variable {ending : Ending} {s : Session}

theorem endingWith_ending (fatal : s.fatal = ending.fault?) : s.endingWith ending.status = ending := by
  unfold endingWith
  rw [fatal]
  cases ending <;> rfl

-- What a line comes to if nothing goes wrong with it and the session has ended in its course.
theorem interpretWith_ended (present : trimmed line ≠ []) (ran : runLine scripts (trimmed line) s w = (result, next, after))
    (fine : result.fault = none) (stops : next.fatal = none → next.exited = true) :
    (interpretWith scripts line s w).1 = (next.endingWith result.status).ofLine ∧
      (next.endingWith result.status).Holds (interpretWith scripts line s w).2.1 ∧
      (next.fatal.isSome = true → (interpretWith scripts line s w).2.2 = after) := by
  unfold endingWith
  cases stored : next.fatal with
  | none =>
    rw [interpretWith_passed present ran fine stored]
    exact ⟨rfl, ⟨rfl, stored, fun _ => stops stored⟩, by rintro ⟨⟩⟩
  | some fault =>
    rw [interpretWith_held present ran fine stored]
    exact ⟨rfl, ⟨rfl, stored, by rintro ⟨⟩⟩, fun _ => rfl⟩

-- A line that ends the session is the last one that is interpreted, and what it returns is returned.

theorem LinesRun.ended (run : LinesRun scripts lines s w turns result) (interprets : turn ∈ turns)
    (ran : interpretWith scripts turn.line turn.session turn.world = (ending.ofLine, after, left)) (holds : ending.Holds after) :
    turns.getLast? = some turn ∧ result = (ending.ofScript, after, left) := by
  induction run with
  | finished => cases interprets
  | tooLong => cases interprets
  | fatal _ first =>
    cases List.mem_singleton.mp interprets
    rw [first] at ran
    cases ending with
    | exit status => cases ran
    | failure fault =>
      cases ran
      exact ⟨rfl, rfl⟩
  | exited _ first _ =>
    cases List.mem_singleton.mp interprets
    rw [first] at ran
    cases ending with
    | exit status =>
      cases ran
      exact ⟨rfl, by rw [show _ = status from holds.status]; rfl⟩
    | failure fault => cases ran
  | goes _ first active _ ih =>
    rcases List.mem_cons.mp interprets with rfl | later
    · rw [first] at ran
      cases ending with
      | exit status =>
        cases ran
        rw [holds.exited rfl] at active
        cases active
      | failure fault => cases ran
    · obtain ⟨last, whole⟩ := ih later
      exact ⟨by rw [List.getLast?_cons, last]; rfl, whole⟩

theorem BlocksRun.ended (run : BlocksRun scripts path blocks r s w turns result) (interprets : turn ∈ turns)
    (ran : interpretWith scripts turn.line turn.session turn.world = (ending.ofLine, after, left)) (holds : ending.Holds after) :
    turns.getLast? = some turn ∧ result = (ending.ofScript, after, left) := by
  induction run with
  | spent => cases interprets
  | unreadable => cases interprets
  | tooLong => cases interprets
  | last _ run => exact run.ended interprets ran holds
  | failed _ run => exact run.ended interprets ran holds
  | exited _ run _ => exact run.ended interprets ran holds
  | goes _ run active _ ih =>
    rcases List.mem_append.mp interprets with here | later
    · obtain ⟨_, whole⟩ := run.ended here ran holds
      cases ending with
      | exit status =>
        cases whole
        rw [holds.exited rfl] at active
        cases active
      | failure fault => cases whole
    · obtain ⟨last, whole⟩ := ih later
      exact ⟨by rw [List.getLast?_append, last]; rfl, whole⟩

theorem ScriptRun.ended (run : ScriptRun (deeper + 1) path s w turns result) (interprets : turn ∈ turns)
    (ran : interpretWith (runScriptAt deeper) turn.line turn.session turn.world = (ending.ofLine, after, left))
    (holds : ending.Holds after) :
    turns.getLast? = some turn ∧ result = (ending.ofScript, { after with depth := after.depth - 1 }, left) := by
  cases run with
  | unopened => cases interprets
  | opened _ _ run =>
    obtain ⟨last, rfl⟩ := run.ended interprets ran holds
    exact ⟨last, rfl⟩

theorem Sourcing.ended (interprets : inner ∈ call.lines) (ran : inner.result = (ending.ofLine, after, left))
    (holds : ending.Holds after) :
    call.lines.getLast? = some inner ∧ call.result = (ending.ofScript, { after with depth := after.depth - 1 }, left) := by
  have levels := (entering interprets).levels
  unfold lines at interprets ⊢
  unfold result runScript
  rw [levels] at interprets ⊢
  exact (scriptRun _ _ _ _).ended interprets ran holds

-- A line whose one script ends the session returns the same, and says nothing about a failure.
theorem Solely.ended (solely : Solely turn stage call) (ran : call.result = (ending.ofScript, after, left))
    (holds : ending.Holds after) :
    turn.result.1 = ending.ofLine ∧ ending.Holds turn.result.2.1 ∧
      (ending.fault?.isSome = true → turn.result.2.2 = Engine.settled call.stage left) := by
  have silent : unreported (ending.fault?.map .fatal) = none := by cases ending <;> rfl
  have back : call.back call.result = (ending.status, after.restoreStd call.session, left) := by
    rw [ran]
    unfold Sourcing.back Ending.ofScript
    rw [silent]
    rfl
  have line := solely.ran
  rw [back, ran] at line
  obtain ⟨opened, compiled, _⟩ := solely.opened
  have present := compile_present turn.session.expand compiled
  have whole := interpretWith_ended present line rfl fun none => holds.exited (holds.fatal.symm.trans none)
  have fatal : (after.restoreStd call.session).fatal = ending.fault? := holds.fatal
  dsimp only at whole
  rw [show ending.ofScript.1 = ending.status from rfl, endingWith_ending fatal, fatal] at whole
  exact whole

-- Lines in front of the one that ends the session leave its failure, or that it has none, as it is.

theorem change_fatal (change : Change s after) (failed : s.fatal.isSome = true) : after.fatal.isSome = true := by
  cases change with
  | exportName name =>
    obtain ⟨env, only⟩ := Builtin.exportName_only s name
    rwa [only]
  | stop => rfl
  | _ => exact failed

theorem interpretWith_fatal (follow : ScriptsFollow scripts)
    (interpreted : interpretWith scripts line s w = ((status, none), after, left)) : after.fatal = s.fatal := by
  have follows := runLine_follows follow (trimmed line) s w
  cases closing scripts line s w with
  | blank absent whole =>
    rw [whole] at interpreted
    cases interpreted
    rfl
  | held present result next middle fault ran passed stored whole =>
    rw [whole] at interpreted
    cases interpreted
  | passed present result next middle ran fine free whole =>
    rw [ran] at follows
    rw [whole] at interpreted
    cases interpreted
    cases before : s.fatal with
    | none => exact free
    | some fatal =>
      have kept := follows.changes.keep change_fatal (by rw [before]; rfl)
      rw [free] at kept
      cases kept
  | failed present result next middle fault ran fails whole =>
    obtain ⟨rfl, _⟩ := runLine_failed ran fails
    rw [whole] at interpreted
    cases spawned : fault.isSpawn with
    | true => simp [spawned] at interpreted
    | false =>
      simp only [spawned] at interpreted
      cases interpreted
      rfl

theorem keeps_fatal (follow : ScriptsFollow scripts) : Keeps scripts fun s after => after.fatal = s.fatal where
  refl _ := rfl
  trans first second := second.trans first
  line := interpretWith_fatal follow

-- Every script on the way is all that its line runs.
def Alone (stack : List Frame) : Prop := ∀ frame ∈ stack, ∃ stage, frame.turn.sole? = some stage

theorem inside_fatal (nested : Inside outer stack inner) (alone : Alone stack) : inner.session.fatal = outer.session.fatal := by
  induction nested with
  | here => rfl
  | deeper around runs interprets ih =>
    obtain ⟨stage, single⟩ := alone _ List.mem_cons_self
    have kept := Sourcing.keeps interprets fun deeper => keeps_fatal (runScriptAt_follows deeper)
    have same := congrArg Session.fatal (Turn.solely single runs).session
    exact kept.trans (same.trans (ih fun frame member => alone frame (List.mem_cons_of_mem _ member)))

-- A line that ends the session.
def Turn.Ends (t : Turn) (ending : Ending) : Prop := t.result.1 = ending.ofLine ∧ ending.Holds t.result.2.1

theorem Turn.ends_spawn (fails : turn.fault? = some fault) (spawn : fault.isSpawn = true) : turn.Ends (.failure fault) := by
  obtain ⟨result, after, whole⟩ := turn.failed fails
  unfold Ends
  rw [whole, spawn, Fault.status_of_spawn spawn]
  exact ⟨rfl, ⟨rfl, rfl, by rintro ⟨⟩⟩⟩

theorem stripBackground_head (words : (Engine.stripBackground args).1 = name :: rest) : ∃ more, args = name :: more := by
  unfold Engine.stripBackground at words
  cases args with
  | nil => cases words
  | cons first others =>
    split at words
    · cases others with
      | nil => cases words
      | cons second others => exact ⟨_, congrArg (· :: _) (List.cons.inj words).1⟩
    · exact ⟨others, congrArg (· :: _) (List.cons.inj words).1⟩

theorem Turn.ends_exit (alone : turn.sole? = some stage)
    (words : (Engine.stripBackground stage.args).1 = [Builtin.exit.name, code])
    (written : code = digits ∨ code = 0x2B :: digits) (value : numeral? 10 digits = some n)
    (small : (n : Int) < signedLimit) :
    turn.Ends (turn.session.endingWith ((n % 256 : Nat) : Int)) := by
  obtain ⟨opened, compiled⟩ := turn.sole_compiled alone
  have known : Builtin.isBuiltin Builtin.exit.name = true := by decide +kernel
  have internal : (classified stage).kind = .internal := by
    obtain ⟨more, head⟩ := stripBackground_head words
    unfold classified
    rw [head]
    dsimp only
    unfold StageKind.classify
    dsimp only
    rw [if_pos known]
  have entered : ∀ w, turn.session.engine.enter (runner (runScriptAt turn.session.levels)) (classified stage) turn.session w =
      (((n % 256 : Nat) : Int), { turn.session with exited := true }, w) := by
    intro w
    have command : (classified stage).kind ≠ .assignment := by
      rw [internal]
      decide
    have given : (Engine.stripBackground (classified stage).args).1 = [Builtin.exit.name, code] := words
    rw [Engine.enter_commanding command given]
    exact Builtin.run_exit written value small
  have ran := runLine_sole compiled (.inl internal) (entered _)
  have whole := interpretWith_ended (compile_present _ compiled) ran rfl fun _ => rfl
  exact ⟨whole.1, whole.2.1⟩

-- One script on the way and the line that runs it: the line inside is the last of the script, the script returns
-- what ended the session, and the line that runs it does nothing about a failure but remember it.
structure Unwound (ending : Ending) (frame : Frame) (inner : Turn) : Prop where
  last : frame.call.lines.getLast? = some inner
  script : frame.call.result.1 = ending.ofScript
  status : frame.turn.result.2.1.lastStatus = ending.status
  silent : ending.fault?.isSome = true → ∃ stage opened,
    compile frame.turn.session.expand (trimmed frame.turn.line) frame.turn.world = (.ok ⟨[stage]⟩, opened) ∧
    frame.call.world = frame.turn.session.entrance stage opened ∧
    frame.turn.result.2.2 = Engine.settled frame.call.stage frame.call.result.2.2

def Unwinds (ending : Ending) : List Frame → Turn → Prop
  | [], inner => inner.result.1 = ending.ofLine
  | frame :: around, inner => inner.result.1 = ending.ofLine ∧ Unwound ending frame inner ∧ Unwinds ending around frame.turn

theorem Turn.ends_outwards (ends : inner.Ends ending) (alone : turn.sole? = some stage) (runs : call ∈ turn.calls)
    (interprets : inner ∈ call.lines) : turn.Ends ending ∧ Unwound ending ⟨turn, call⟩ inner := by
  obtain ⟨returned, holds⟩ := ends
  rcases ran : inner.result with ⟨value, after, left⟩
  rw [ran] at returned holds
  cases returned
  obtain ⟨last, script⟩ := Sourcing.ended interprets ran holds
  have solely := turn.solely alone runs
  obtain ⟨line, session, silent⟩ := solely.ended script ⟨holds.status, holds.fatal, holds.exited⟩
  obtain ⟨opened, compiled, world⟩ := solely.opened
  refine ⟨⟨line, session⟩, last, by rw [script], session.status, ?_⟩
  intro failed
  exact ⟨stage, opened, compiled, world, by rw [script]; exact silent failed⟩

-- From the innermost line outwards, by induction on the scripts around it.
theorem inside_unwinds (nested : Inside outer stack inner) (alone : Alone stack) (ends : inner.Ends ending) :
    Unwinds ending stack inner := by
  induction nested with
  | here => exact ends.1
  | deeper around runs interprets ih =>
    obtain ⟨stage, single⟩ := alone _ List.mem_cons_self
    obtain ⟨outwards, unwound⟩ := Turn.ends_outwards ends single runs interprets
    exact ⟨ends.1, unwound, ih (fun frame member => alone frame (List.mem_cons_of_mem _ member)) outwards⟩

-- A line that exits, or finds a program that does not start, ends all scripts it is in and the lines that run
-- them, if these run nothing else.
theorem sourcing_unwinds (nested : Inside outer stack inner) (alone : Alone stack) :
    (∀ stage code digits n, inner.sole? = some stage →
      (Engine.stripBackground stage.args).1 = [Builtin.exit.name, code] → (code = digits ∨ code = 0x2B :: digits) →
      numeral? 10 digits = some n → (n : Int) < signedLimit → Unwinds (outer.session.endingWith ((n % 256 : Nat) : Int)) stack inner) ∧
    ∀ fault, inner.fault? = some fault → fault.isSpawn = true → Unwinds (.failure fault) stack inner := by
  constructor
  · intro stage code digits n single words written value small
    have ends := Turn.ends_exit single words written value small
    have same : inner.session.endingWith ((n % 256 : Nat) : Int) = outer.session.endingWith ((n % 256 : Nat) : Int) := by
      unfold endingWith
      rw [inside_fatal nested alone]
    rw [same] at ends
    exact inside_unwinds nested alone ends
  · intro fault fails spawn
    exact inside_unwinds nested alone (Turn.ends_spawn fails spawn)

-- A directory with a file that is no program.
def unstartable (scripts : List (String × String)) : World :=
  { scripted scripts with tree := Tree.empty.add Tree.root (ascii "bad") (.file (ascii "x") false) }

def denied : Fault := .spawn (ascii "./bad") (.onPath (ascii "fork/exec") (ascii "./bad") (.errno 13))

-- Two scripts in each other, the inner one with a line that exits and with one that cannot be run.
def exiting : Turn := ⟨ascii ". a", sourcing, scripted [("a", "A=1\n. b\nA=2"), ("b", "mexit 300\nB=1")]⟩
def stopping : Turn := ⟨ascii ". a", sourcing, unstartable [("a", "A=1\n. b\nA=2"), ("b", "./bad | B=1\nB=2")]⟩

theorem sourcing_unwinds_nested :
    (∃ stack inner, Inside exiting stack inner ∧ Alone stack ∧ stack.length = 2 ∧ Unwinds (.exit 44) stack inner ∧
      exiting.result.1 = (44, none)) ∧
    ∃ stack inner, Inside stopping stack inner ∧ Alone stack ∧ stack.length = 2 ∧ Unwinds (.failure denied) stack inner ∧
      stopping.result.1 = (1, some denied) := by
  constructor
  · have single : exiting.sole?.isSome = true := by decide +kernel
    obtain ⟨call, runs, middle, interprets, deeper, runsDeeper, inner, interpretsInner, singleMiddle, words⟩ :
        ∃ call ∈ exiting.calls, ∃ middle ∈ call.lines, ∃ deeper ∈ middle.calls, ∃ inner ∈ deeper.lines,
          middle.sole?.isSome = true ∧
          inner.sole?.any (fun stage => (Engine.stripBackground stage.args).1 = [Builtin.exit.name, ascii "300"]) = true := by
      decide +kernel
    have nested := (Inside.here.deeper runs interprets).deeper runsDeeper interpretsInner
    have alone : Alone [⟨middle, deeper⟩, ⟨exiting, call⟩] := by
      simp [Alone, Option.isSome_iff_exists.mp single, Option.isSome_iff_exists.mp singleMiddle]
    obtain ⟨stage, lone, given⟩ : ∃ stage, inner.sole? = some stage ∧
        (Engine.stripBackground stage.args).1 = [Builtin.exit.name, ascii "300"] := by simpa [Option.any_eq_true] using words
    have ended := (sourcing_unwinds nested alone).1 stage (ascii "300") (ascii "300") 300 lone given (.inl rfl)
      (by decide +kernel) (by decide)
    exact ⟨_, inner, nested, alone, rfl, ended, ended.2.2.2.2⟩
  · obtain ⟨call, runs, middle, interprets, deeper, runsDeeper, inner, interpretsInner, single, singleMiddle, fails⟩ :
        ∃ call ∈ stopping.calls, ∃ middle ∈ call.lines, ∃ deeper ∈ middle.calls, ∃ inner ∈ deeper.lines,
          stopping.sole?.isSome = true ∧ middle.sole?.isSome = true ∧ inner.fault? = some denied := by
      decide +kernel
    have nested := (Inside.here.deeper runs interprets).deeper runsDeeper interpretsInner
    have alone : Alone [⟨middle, deeper⟩, ⟨stopping, call⟩] := by
      simp [Alone, Option.isSome_iff_exists.mp single, Option.isSome_iff_exists.mp singleMiddle]
    have ended := (sourcing_unwinds nested alone).2 denied fails rfl
    exact ⟨_, inner, nested, alone, rfl, ended, ended.2.2.2.2⟩

-- What is left when a program did not start, and a script after that.
def denying : World := unstartable [("s", "mexit 3")]
def failed : Session := (interpret (ascii "./bad") sourcing denying).2.1
def afterwards : Turn := ⟨ascii ". s", failed, (interpret (ascii "./bad") sourcing denying).2.2⟩

-- The status of an exit is lost to the failure that is already there; and a number is read as one with a sign.
theorem sourcing_unwinds_stored :
    Reachable failed ∧ afterwards.sole?.isSome = true ∧
    (∃ call ∈ afterwards.calls, ∃ inner ∈ call.lines, inner.line = ascii "mexit 3" ∧ inner.sole?.isSome = true) ∧
    afterwards.result.1 = (1, some denied) ∧
    (interpret (ascii ". s") sourcing (scripted [("s", "mexit 9223372036854775808")])).1 = (2, none) := by
  refine ⟨sourcing_reachable.interpreted _ _, ?_⟩
  decide +kernel

end Session
end LineShell
