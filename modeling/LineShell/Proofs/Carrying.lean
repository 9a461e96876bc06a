import LineShell.Proofs.Redirecting

-- What each call of the world keeps, a whole run keeps, lines of scripts inside scripts included. Where this depends on
-- which files are written to, it is enough that those that lead out of the session and of its stages are fit for it.
namespace LineShell
open World

structure World.Carrying (R : World → World → Prop) (Fit : World → Option FileId → Prop) : Prop extends Passing R Fit where
  log : ∀ {w after}, R w after → after.log = w.log
  write : ∀ {w f}, Fit w (some f) → ∀ data, R w (w.write f data).2
  note : ∀ w call, R w (w.note call)
  noteEvent : ∀ w event, R w (w.noteEvent event)
  start : ∀ w path arguments table given, R w (w.start path arguments table given).2
  settle : ∀ w, R w w.settle
  wait : ∀ w child, R w (w.wait child).2
  files : ∀ {w requests after}, Footprint w requests after → R w after

variable {R : World → World → Prop} {Fit : World → Option FileId → Prop} {w after : World}

namespace Session

-- The files a session writes to.
structure Outlets (Fit : World → Option FileId → Prop) (s : Session) (w : World) : Prop where
  std : ∀ slot, slot ≠ .input → Fit w (s.std.get slot)
  engine : ∀ slot, slot ≠ .input → Fit w (s.engineStd.get slot)
  messages : Fit w s.messages
  recorder : Fit w (s.recorder.map (·.file))
  debug : Fit w (s.debug.map (·.file))
  log : Fit w w.log

variable {s next : Session}

theorem fit_or (first : Fit w file) (second : Fit w other) : Fit w (file.or other) := by
  cases file with
  | none => exact second
  | some f => exact first

theorem Outlets.follows (carries : Carrying R Fit) (outlets : Outlets Fit s w) (run : R w after) (follows : Follows s next) :
    Outlets Fit next after := by
  have later : ∀ {file}, Fit w file → Fit after file := carries.fit run
  obtain ⟨recorder, debug⟩ := follows.changes.logs
  refine ⟨fun slot out => ?_, fun slot out => ?_, ?_, ?_, ?_, ?_⟩
  · rw [follows.std]
    exact later (outlets.std slot out)
  · rcases follows.copied with same | same
    · rw [same]
      exact later (outlets.engine slot out)
    · rw [same]
      exact later (outlets.std slot out)
  · rw [follows.messages]
    exact later outlets.messages
  · rw [recorder]
    exact later outlets.recorder
  · rw [debug]
    exact later outlets.debug
  · rw [carries.log run]
    exact later outlets.log

theorem Outlets.redirectStd (outlets : Outlets Fit s w) (files : Triple (Option FileId))
    (fits : ∀ slot, slot ≠ .input → Fit w (files.get slot)) : Outlets Fit (s.redirectStd files) w where
  std slot out := by
    rw [Session.redirectStd, get_orElse]
    exact fit_or (fits slot out) (outlets.std slot out)
  engine slot out := by
    rw [Session.redirectStd, get_orElse]
    exact fit_or (fits slot out) (outlets.std slot out)
  messages := fit_or (fits .error (by decide)) outlets.messages
  recorder := outlets.recorder
  debug := outlets.debug
  log := outlets.log

-- One level deeper nothing else is written to.
theorem Outlets.nest (outlets : Outlets Fit s w) (depth : Nat) : Outlets Fit { s with depth := depth } w :=
  ⟨outlets.std, outlets.engine, outlets.messages, outlets.recorder, outlets.debug, outlets.log⟩

end Session

namespace World.Carrying
open Engine Session
variable {e : Engine} {stage : Stage} {s : Session} {scripts : ScriptRunner} {table : Option (List Bytes)}

section
variable (carries : Carrying R Fit)
include carries

theorem dump (p : Pipeline) (fits : Fit w (e.debug.map (·.file))) : R w (e.dump p w) := by
  unfold Engine.dump
  cases shown : e.debug with
  | none => exact carries.refl w
  | some sink =>
    rw [shown] at fits
    dsimp only
    induction describe p w generalizing w with
    | nil => exact carries.refl w
    | cons line others ih =>
      have first := carries.emit fits (sink.label ++ line ++ [Bytes.newline])
      exact carries.trans first (ih (carries.fit first fits))

theorem launch (table : Option (List Bytes)) (fits : Fit w (stage.stdio.resolve e.std).error) : R w (e.launch table stage w).2 := by
  rcases launched : e.launch table stage w with ⟨result, begun⟩
  have starts : ∀ {path arguments given answer left}, w.start path arguments table given = (answer, left) → R w left := by
    intro path arguments given answer left started
    have kept := carries.start w path arguments table given
    rwa [started] at kept
  rcases launch_cases launched with ⟨_, _, answered⟩ | ⟨_, _, _, refused⟩
  · cases answered with
    | empty => exact carries.emit fits _
    | missing => exact carries.emit fits _
    | started _ _ begun => exact starts begun
  · exact starts refused

theorem release (stdio : Stdio) (w : World) : R w (stdio.release w).2.2 := carries.files (stdio.release_footprint w)

theorem launchAll (e : Engine) (table : Option (List Bytes)) (i : Nat) (stages : List Stage)
    (fits : ∀ stage ∈ stages, stage.kind = .external → Fit w (stage.stdio.resolve e.std).error) :
    R w (e.launchAll table i stages w).2.2 := by
  induction stages generalizing i w with
  | nil => exact carries.refl w
  | cons stage others ih =>
    obtain ⟨first, rest⟩ := List.forall_mem_cons.mp fits
    by_cases external : stage.kind = .external
    · have begun := carries.launch table (first external)
      rcases launched : e.launch table stage w with ⟨result, middle⟩
      rw [launched] at begun
      have freed := carries.trans (carries.trans begun (carries.note middle (.dispatched i))) (carries.release stage.stdio _)
      cases result with
      | error fault =>
        rw [launchAll_failing others external launched]
        exact freed
      | ok progress =>
        rw [launchAll_starting others external launched rfl]
        exact carries.trans freed (ih (i + 1) fun other member program => carries.fit freed (rest other member program))
    · rw [launchAll_passing others external rfl]
      exact ih (i + 1) rest

theorem waitEach (progress : List Progress) (w : World) : R w (Engine.waitEach progress w).2 := by
  induction progress generalizing w with
  | nil => exact carries.refl w
  | cons one others ih =>
    cases one with
    | waiting => exact ih w
    | done status => exact ih w
    | running child => exact carries.trans (carries.wait w child) (ih _)

theorem waitAll (entries : List (Stage × Progress)) (w : World) : R w (Engine.waitAll entries w).2 :=
  carries.trans (carries.note w .barrier) (carries.trans (carries.settle _) (carries.waitEach _ _))

theorem close (p : Pipeline) (w : World) : R w (p.close w).2.2 := carries.files (p.close_footprint w)

theorem stoppedAt (entries : List (Stage × Progress)) (w : World) : R w (Engine.stoppedAt entries w).2 :=
  carries.trans (carries.close _ w) (carries.trans (carries.waitAll entries _) (carries.close _ _))

theorem finishedAt (entries : List (Stage × Progress)) (w : World) : R w (Engine.finishedAt entries w).2 :=
  carries.trans (carries.waitAll entries w) (carries.close _ _)

-- A stage of the session's own writes where it was given to, and a script it runs does what scripts do.
theorem enter (outlets : Outlets Fit s w) (fits : ∀ slot, slot ≠ .input → Fit w ((stage.stdio.resolve e.std).get slot))
    (runs : ∀ call, Visit.sourcing? e ⟨stage, s, w⟩ = some call → Outlets Fit call.given call.world →
      R call.world (scripts call.path call.given call.world).2.2) :
    R w (e.enter (runner scripts) stage s w).2.2 := by
  cases e.handing (runner scripts) stage s w with
  | empty none answer =>
    rw [answer]
    exact carries.emit (fits .error (by decide)) _
  | assignment name args kind given answer =>
    rw [answer]
    dsimp only [runner]
    unfold assign
    split
    · exact carries.refl w
    · exact carries.emit (fits .error (by decide)) _
  | command name args kind given answer =>
    rw [answer]
    refine Builtin.run_passes carries.toPassing _ s w ?_ ?_
    · intro script sources
      refine runs ⟨stage, script, stage.stdio.resolve e.std, s, w⟩ ?_ (outlets.redirectStd _ fits)
      unfold Visit.sourcing?
      rw [if_neg kind, given, sources]
      rfl
    · intro file outlet
      cases outlet with
      | output => exact fits .output (by decide)
      | error => exact fits .error (by decide)

theorem enterAll (follow : ScriptsFollow scripts) (i : Nat) (entries : List (Stage × Progress)) (outlets : Outlets Fit s w)
    (std : ∀ slot, slot ≠ .input → Fit w (e.std.get slot))
    (fits : ∀ entry ∈ entries, entry.1.Inside → ∀ slot, slot ≠ .input → Fit w (entry.1.stdio.get slot))
    (runs : ∀ visit ∈ e.visits (runner scripts) i entries s w, ∀ call, visit.sourcing? e = some call →
      Outlets Fit call.given call.world → R call.world (scripts call.path call.given call.world).2.2) :
    R w (e.enterAll (runner scripts) i entries s w).2.2 := by
  induction entries generalizing i s w with
  | nil => exact carries.refl w
  | cons entry others ih =>
    obtain ⟨stage, progress⟩ := entry
    obtain ⟨first, rest⟩ := List.forall_mem_cons.mp fits
    by_cases inside : stage.Inside
    · have marked := carries.note w (.entered i)
      rcases ran : e.enter (runner scripts) stage s (w.note (.entered i)) with ⟨status, next, middle⟩
      rw [visits_running others inside ran] at runs
      obtain ⟨here, later⟩ := List.forall_mem_cons.mp runs
      have follows := enter_within (runner_within follow) e stage s (w.note (.entered i))
      have given : ∀ slot, slot ≠ .input → Fit (w.note (.entered i)) ((stage.stdio.resolve e.std).get slot) := by
        intro slot out
        rw [Stdio.resolve, get_orElse]
        exact carries.fit marked (fit_or (first inside slot out) (std slot out))
      have entered := carries.enter (outlets.follows carries marked (.refl s)) given here
      rw [ran] at entered
      rw [ran] at follows
      have freed := carries.trans (carries.trans marked entered) (carries.release stage.stdio middle)
      rw [enterAll_running others inside ran rfl]
      exact carries.trans freed (ih (i + 1) (outlets.follows carries freed follows)
        (fun slot out => carries.fit freed (std slot out))
        (fun other member own slot out => carries.fit freed (rest other member own slot out)) later)
    · rw [visits_passing others inside] at runs
      rw [enterAll_passing others inside rfl]
      exact ih (i + 1) outlets std rest runs

theorem logLine (log : Fit w w.log) (line : Bytes) : R w (w.logLine line) := carries.emit log _

theorem append (fit : Fit w (some f)) (log : Fit w w.log) (line : Bytes) : R w (Session.append f line w) := by
  unfold Session.append
  dsimp only
  split
  · exact carries.refl w
  · split
    · exact carries.logLine log _
    · have wrote := carries.write fit line
      split
      · rename_i written
        rwa [written] at wrote
      · rename_i failed
        rw [failed] at wrote
        refine carries.trans wrote (carries.logLine ?_ _)
        rw [carries.log wrote]
        exact carries.fit wrote log

theorem record (outlets : Outlets Fit s w) (event : Event) : R w (s.record event w) := by
  have noted := carries.noteEvent w event
  have later := outlets.follows carries noted (.refl s)
  unfold Session.record
  dsimp only
  split
  · exact carries.logLine outlets.log _
  · exact noted
  · rename_i line r _ recorded
    refine carries.trans noted (carries.append ?_ later.log line)
    have goes := later.recorder
    rw [recorded] at goes
    exact goes

theorem reported (outlets : Outlets Fit s w) (line : Bytes) (result : LineResult) (fault : Fault) :
    R w (s.reported line result fault w) := by
  have recorded := carries.record outlets (lineEvent line result.command result.status (some fault))
  exact carries.trans recorded (carries.emit (carries.fit recorded outlets.messages) _)

end

end World.Carrying

namespace Session
open Engine
variable {s : Session} {scripts : ScriptRunner} {outer turn : Turn}

-- The files that a line gives to its stages: those of programs are written to if they cannot be started, those of the
-- session's own stages when the programs have been dealt with.
structure Fitted (Fit : World → Option FileId → Prop) (line : Bytes) (s : Session) (w : World) : Prop where
  programs : ∀ p opened, compile s.expand (trimmed line) w = (.ok p, opened) →
    ∀ stage ∈ (p.classify Builtin.isBuiltin).stages, stage.kind = .external → Fit opened (stage.stdio.get .error)
  commands : ∀ p opened entries ready, compile s.expand (trimmed line) w = (.ok p, opened) →
    s.engine.launchAll s.environ 0 (p.classify Builtin.isBuiltin).stages
      (s.engine.dump (p.classify Builtin.isBuiltin) opened) = (none, entries, ready) →
    ∀ stage ∈ (p.classify Builtin.isBuiltin).stages, stage.Inside → ∀ slot, slot ≠ .input →
      Fit ready (stage.stdio.get slot)

section
variable (carries : World.Carrying R Fit) (follow : ScriptsFollow scripts)
include carries follow

theorem runLine_carried (outlets : Outlets Fit s w) (fitted : Fitted Fit line s w)
    (runs : ∀ call ∈ lineCalls scripts line s w, Outlets Fit call.given call.world →
      R call.world (scripts call.path call.given call.world).2.2) : R w (runLine scripts (trimmed line) s w).2.2 := by
  obtain ⟨_, footprint, _⟩ := compile_footprint s.expand (trimmed line) w
  have launches : ∀ {p opened}, compile s.expand (trimmed line) w = (.ok p, opened) →
      R w (s.engine.launchAll s.environ 0 (p.classify Builtin.isBuiltin).stages
        (s.engine.dump (p.classify Builtin.isBuiltin) opened)).2.2 := by
    intro p opened compiled
    rw [compiled] at footprint
    have made := carries.files footprint
    have shown := carries.dump (e := s.engine) (p.classify Builtin.isBuiltin) (carries.fit made outlets.debug)
    have begun := carries.trans made shown
    refine carries.trans begun (carries.launchAll _ _ 0 _ fun stage member external => ?_)
    exact fit_or (carries.fit shown (fitted.programs p opened compiled stage member external))
      (carries.fit begun (outlets.engine .error (by decide)))
  cases line_course (trimmed line) s w with
  | refused compiled =>
    rw [runLine_refused compiled]
    rw [compiled] at footprint
    exact carries.files footprint
  | stopped compiled launched =>
    have begun := launches compiled
    rw [launched] at begun
    rw [runLine_stopped compiled launched]
    exact carries.trans begun (carries.trans (carries.stoppedAt _ _) (carries.close _ _))
  | @launched p entries opened ready compiled launched =>
    have begun := launches compiled
    obtain ⟨_, shape⟩ := launchAll_launched s.engine s.environ 0 (p.classify Builtin.isBuiltin).stages
      (s.engine.dump (p.classify Builtin.isBuiltin) opened)
    rw [launched] at begun shape
    rw [runLine_launched compiled launched rfl]
    refine carries.trans begun (carries.trans (carries.enterAll follow 0 entries (outlets.follows carries begun (.refl s))
      (fun slot out => carries.fit begun (outlets.engine slot out)) ?_ ?_)
      (carries.trans (carries.finishedAt _ _) (carries.close _ _)))
    · intro entry member inside
      obtain ⟨stage, progress⟩ := entry
      obtain ⟨j, found⟩ := List.mem_iff_getElem?.mp member
      exact fitted.commands p opened entries ready compiled launched stage
        (List.mem_of_getElem? (stage_of_entry (shape.finished rfl).1 found inside)) inside
    · intro visit entered call sources
      rw [← lineVisits_launched compiled launched] at entered
      exact runs call (List.mem_filterMap.mpr ⟨visit, entered, sources⟩)

theorem interpretWith_carried (outlets : Outlets Fit s w) (fitted : Fitted Fit line s w)
    (runs : ∀ call ∈ lineCalls scripts line s w, Outlets Fit call.given call.world →
      R call.world (scripts call.path call.given call.world).2.2) : R w (interpretWith scripts line s w).2.2 := by
  have inside := runLine_carried carries follow outlets fitted runs
  have follows := runLine_follows follow (trimmed line) s w
  cases closing scripts line s w with
  | blank absent answer =>
    rw [answer]
    exact carries.refl w
  | held present result next after fault ran passed stored answer =>
    rw [ran] at inside
    rw [answer]
    exact inside
  | passed present result next after ran fine free answer =>
    rw [ran] at inside follows
    rw [answer]
    exact carries.trans inside (carries.record (outlets.follows carries inside follows) _)
  | failed present result next after fault ran fails answer =>
    rw [ran] at inside follows
    rw [answer]
    exact carries.trans inside (carries.reported (outlets.follows carries inside follows) _ _ _)

-- If each line does, so do all of them one after the other. Every line finds the outlets of the first.

theorem LinesRun.carried (run : LinesRun scripts lines s w turns result) (outlets : Outlets Fit s w)
    (each : ∀ turn ∈ turns, Outlets Fit turn.session turn.world →
      R turn.world (interpretWith scripts turn.line turn.session turn.world).2.2) : R w result.2.2 := by
  induction run with
  | finished => exact carries.refl _
  | tooLong => exact carries.refl _
  | fatal _ first =>
    have kept := each _ List.mem_cons_self outlets
    rwa [first] at kept
  | exited _ first _ =>
    have kept := each _ List.mem_cons_self outlets
    rwa [first] at kept
  | goes _ first _ _ ih =>
    obtain ⟨head, rest⟩ := List.forall_mem_cons.mp each
    have kept := head outlets
    rw [first] at kept
    exact carries.trans kept (ih (outlets.follows carries kept (follows_of_interpretWith follow first)) rest)

theorem BlocksRun.carried (run : BlocksRun scripts path blocks r s w turns result) (outlets : Outlets Fit s w)
    (each : ∀ turn ∈ turns, Outlets Fit turn.session turn.world →
      R turn.world (interpretWith scripts turn.line turn.session turn.world).2.2) : R w result.2.2 := by
  induction run with
  | spent => exact carries.refl _
  | unreadable => exact carries.refl _
  | tooLong => exact carries.refl _
  | last _ run => exact run.carried carries follow outlets each
  | failed _ run => exact run.carried carries follow outlets each
  | exited _ run _ => exact run.carried carries follow outlets each
  | goes _ run _ _ ih =>
    obtain ⟨front, later⟩ := List.forall_mem_append.mp each
    have kept := run.carried carries follow outlets front
    exact carries.trans kept (ih (outlets.follows carries kept (run.follows follow)) later)

end

theorem openScript_footprint (storage : Storage) (path : Bytes) (w : World) : Footprint w [] (storage.openScript path w).2 := by
  unfold Storage.openScript
  split
  · exact Footprint.refl w
  · split
    · rename_i asked
      exact nextFault_footprint asked
    · rename_i asked
      exact nextFault_footprint asked

theorem ScriptRun.carried (carries : World.Carrying R Fit) (run : ScriptRun left path s w turns result)
    (outlets : Outlets Fit s w)
    (each : ∀ deeper, left = deeper + 1 → ∀ turn ∈ turns, Outlets Fit turn.session turn.world →
      R turn.world (interpretWith (runScriptAt deeper) turn.line turn.session turn.world).2.2) : R w result.2.2 := by
  have opening := carries.files (openScript_footprint s.storage path w)
  cases run with
  | tooDeep => exact carries.refl w
  | unopened opens =>
    rw [opens] at opening
    exact opening
  | opened ran opens run =>
    rw [opens] at opening
    exact carries.trans opening (run.carried carries (runScriptAt_follows _)
      ((outlets.follows carries opening (.refl s)).nest _) (each _ rfl))

end Session

namespace World

theorem start_left (w : World) (path : Bytes) (arguments : List Bytes) (table : Option (List Bytes))
    (given : Triple (Option FileId)) :
    Endures w (w.start path arguments table given).2 ∧ (w.start path arguments table given).2.halted = w.halted := by
  rcases started : w.start path arguments table given with ⟨answer, after⟩
  cases answer with
  | error cause =>
    rcases start_error started with rfl | ⟨fault, asked⟩
    · exact ⟨.refl _, rfl⟩
    · obtain ⟨faults, rfl⟩ := nextFault_same asked
      exact ⟨nextFault_endures asked, rfl⟩
  | ok number =>
    obtain ⟨granted, child, asked, _, _, _, rfl⟩ := start_ok started
    have pushed : Endures granted ({ granted with children := granted.children.push child }.note (.started number)) :=
      endures_of_same rfl rfl rfl rfl rfl rfl
    obtain ⟨faults, rfl⟩ := nextFault_same asked
    exact ⟨(nextFault_endures asked).trans pushed, rfl⟩

theorem move_endures (moved : w.changeDirectory directory = .ok after) : Endures w after ∧ after.halted = w.halted := by
  obtain ⟨cwd, rfl⟩ := changeDirectory_same moved
  exact ⟨endures_of_same rfl rfl rfl rfl rfl rfl, rfl⟩

theorem endures_carries : Carrying Endures (fun _ _ => True) where
  refl := .refl
  trans := .trans
  fit _ := id
  emit _ data := emit_endures _ _ data
  move moved := (move_endures moved).1
  log endures := endures.log
  write _ data := write_endures _ _ data
  note := note_endures
  noteEvent _ _ := endures_of_same rfl rfl rfl rfl rfl rfl
  start w path arguments table given := (start_left w path arguments table given).1
  settle w := (settle_quiet w).endures
  wait w child := (note_endures w _).trans (wait_left w child).endures
  files footprint := footprint.flows.endures

end World

namespace Session

-- Nothing has to be known of the files for what lasts.

theorem anywhere (s : Session) (w : World) : Outlets (fun _ _ => True) s w :=
  ⟨fun _ _ => trivial, fun _ _ => trivial, trivial, trivial, trivial, trivial⟩

theorem interpretWith_endures {scripts : ScriptRunner} (follow : ScriptsFollow scripts)
    (lasting : ∀ path s w, Endures w (scripts path s w).2.2) (line : Bytes) (s : Session) (w : World) :
    Endures w (interpretWith scripts line s w).2.2 :=
  interpretWith_carried endures_carries follow (anywhere s w)
    ⟨fun _ _ _ _ _ _ => trivial, fun _ _ _ _ _ _ _ _ _ _ _ => trivial⟩ fun call _ _ => lasting call.path call.given call.world

theorem runLines_endures {scripts : ScriptRunner} (follow : ScriptsFollow scripts)
    (lasting : ∀ path s w, Endures w (scripts path s w).2.2) (lines : List Bytes) (s : Session) (w : World) :
    Endures w (runLines scripts lines s w).2.2 :=
  (linesRun scripts lines s w).carried endures_carries follow (anywhere s w) fun turn _ _ =>
    interpretWith_endures follow lasting turn.line turn.session turn.world

theorem runScriptAt_endures (left : Nat) (path : Bytes) (s : Session) (w : World) : Endures w (runScriptAt left path s w).2.2 := by
  induction left generalizing path s w with
  | zero => exact .refl w
  | succ deeper ih =>
    refine (scriptRun (deeper + 1) path s w).carried endures_carries (anywhere s w) fun below same turn _ _ => ?_
    cases same
    exact interpretWith_endures (runScriptAt_follows deeper) ih _ _ _

end Session
end LineShell
