import LineShell.Proofs.Acceptance
import LineShell.Proofs.Order

namespace LineShell
open World

-- Files and programs may have come and gone. No stage of the session itself was run, and the directory
-- is the one it was.
structure World.Apart (w after : World) : Prop where
  calls : ∃ calls, w.Reaches calls after ∧ ∀ i, .entered i ∉ calls
  cwd : after.cwd = w.cwd

-- The status a fault asks for: that of the system error it comes from, if there is one, else one.
def Fault.Due (fault : Fault) (status : Int) : Prop :=
  match fault with
  | .resource _ _ cause =>
    (∃ n : Errno, .errno n ∈ cause.chain ∧ n ≠ 0 ∧ status = n) ∨ (∀ n, .errno n ∈ cause.chain → n = 0) ∧ status = 1
  | _ => status = 1

-- The system error stands at the end of the chain of causes.
theorem Cause.code_of_mem (cause : Cause) (raised : .errno n ∈ cause.chain) : cause.code = n := by
  induction cause with
  | onPath call path cause ih =>
    rcases List.mem_cons.mp raised with wrong | inner
    · cases wrong
    · exact ih inner
  | onCall call cause ih =>
    rcases List.mem_cons.mp raised with wrong | inner
    · cases wrong
    · exact ih inner
  | errno code =>
    cases List.mem_singleton.mp raised
    rfl
  | _ => cases List.mem_singleton.mp raised

theorem Cause.mem_of_code (cause : Cause) (present : cause.code ≠ 0) : .errno cause.code ∈ cause.chain := by
  induction cause with
  | onPath call path cause ih => exact List.mem_cons_of_mem _ (ih present)
  | onCall call cause ih => exact List.mem_cons_of_mem _ (ih present)
  | errno code => exact List.mem_singleton.mpr rfl
  | _ => exact absurd rfl present

theorem Fault.status_due (fault : Fault) : fault.Due fault.status := by
  cases fault with
  | parse => rfl
  | spawn => rfl
  | resource call path cause =>
    unfold Due status
    by_cases none : cause.code = 0
    · refine .inr ⟨?_, if_pos none⟩
      intro n raised
      rw [← cause.code_of_mem raised, none]
    · exact .inl ⟨cause.code, cause.mem_of_code none, none, if_neg none⟩

section
variable {w middle after : World}

theorem World.Apart.trans (first : Apart w middle) (second : Apart middle after) : Apart w after := by
  obtain ⟨earlier, reached, outside⟩ := first.calls
  obtain ⟨later, reachedLater, outsideLater⟩ := second.calls
  refine ⟨⟨later ++ earlier, reached.trans reachedLater, ?_⟩, second.cwd.trans first.cwd⟩
  intro i entered
  rcases List.mem_append.mp entered with late | early
  · exact outsideLater i late
  · exact outside i early

theorem World.Quiet.apart (quiet : Quiet w after) : Apart w after :=
  ⟨⟨[], quiet.reached, by simp⟩, quiet.still.cwd⟩

theorem World.note_apart (w : World) (call : Call) (mark : ∀ f, call ≠ .closed f) (outside : ∀ i, call ≠ .entered i) :
    Apart w (w.note call) := by
  refine ⟨⟨[call], note_reaches w call mark, ?_⟩, rfl⟩
  intro i entered
  exact outside i (List.mem_singleton.mp entered).symm

theorem Footprint.apart (footprint : Footprint w opened after) : Apart w after := by
  obtain ⟨calls, reached, only, _⟩ := footprint.calls
  refine ⟨⟨calls, reached, ?_⟩, footprint.still.cwd⟩
  intro i entered
  cases only _ entered

namespace Engine
variable {e : Engine} {table : Option (List Bytes)}

theorem Launching.apart (launching : Launching table w calls after) : Apart w after :=
  ⟨⟨calls, launching.reached, launching.outside⟩, launching.still.cwd⟩

theorem waitEach_apart (progress : List Progress) (w : World) : Apart w (waitEach progress w).2 := by
  induction progress generalizing w with
  | nil => exact (Quiet.refl w).apart
  | cons one others ih =>
    cases one with
    | waiting => exact ih w
    | done status => exact ih w
    | running child =>
      have noted := note_apart w (.waited child) (by simp) (by simp)
      exact (noted.trans (wait_left w child).apart).trans (ih _)

theorem waitAll_apart (entries : List (Stage × Progress)) (w : World) : Apart w (waitAll entries w).2 := by
  have marked := note_apart w .barrier (by simp) (by simp)
  exact (marked.trans (settle_quiet _).apart).trans (waitEach_apart _ _)

theorem stoppedAt_apart (entries : List (Stage × Progress)) (w : World) : Apart w (stoppedAt entries w).2 := by
  have closed := (Pipeline.close_footprint ⟨entries.map (·.1)⟩ w).apart
  exact (closed.trans (waitAll_apart entries _)).trans (Pipeline.close_footprint _ _).apart

-- The loop over the programs fails only if one of them does not start.
theorem launchAll_spawn (e : Engine) (table : Option (List Bytes)) (i : Nat) (stages : List Stage) (w : World)
    (failed : (e.launchAll table i stages w).1 = some fault) : fault.isSpawn = true := by
  induction stages generalizing i w with
  | nil => cases failed
  | cons stage others ih =>
    by_cases external : stage.kind = .external
    · rcases launched : e.launch table stage w with ⟨result, middle⟩
      rcases launch_cases launched with ⟨progress, rfl, _⟩ | ⟨path, cause, rfl, _⟩
      · rw [launchAll_starting others external launched rfl] at failed
        exact ih _ _ failed
      · rw [launchAll_failing others external launched] at failed
        cases failed
        rfl
    · rw [launchAll_passing others external rfl] at failed
      exact ih _ _ failed

end Engine

theorem Pipeline.classify_passes {p : Pipeline} (isBuiltin : Bytes → Bool) (passed : p.rejectSubshells = none) :
    (p.classify isBuiltin).rejectSubshells = none := by
  refine (rejectStages_none _).mpr ?_
  have regions := (rejectStages_none _).mp passed
  simpa [classify] using regions

namespace Session
variable {scripts : ScriptRunner}

-- How far a line gets: it is not compiled, a program of it does not start, or all programs are dealt with.
inductive Course (line : Bytes) (s : Session) (w : World) : Prop where
  | refused {after : World} (compiled : compile s.expand line w = (.error fault, after))
  | stopped {opened ready : World} (compiled : compile s.expand line w = (.ok p, opened))
    (launched : s.engine.launchAll s.environ 0 (p.classify Builtin.isBuiltin).stages
      (s.engine.dump (p.classify Builtin.isBuiltin) opened) = (some fault, entries, ready))
  | launched {opened ready : World} (compiled : compile s.expand line w = (.ok p, opened))
    (launched : s.engine.launchAll s.environ 0 (p.classify Builtin.isBuiltin).stages
      (s.engine.dump (p.classify Builtin.isBuiltin) opened) = (none, entries, ready))

theorem line_course (line : Bytes) (s : Session) (w : World) : Course line s w := by
  rcases compiled : compile s.expand line w with ⟨outcome, opened⟩
  cases outcome with
  | error fault => exact .refused compiled
  | ok p =>
    rcases launched : s.engine.launchAll s.environ 0 (p.classify Builtin.isBuiltin).stages
      (s.engine.dump (p.classify Builtin.isBuiltin) opened) with ⟨stopped, entries, ready⟩
    cases stopped with
    | some fault => exact .stopped compiled launched
    | none => exact .launched compiled launched

-- The arguments of the first stage.
def leading (p : Pipeline) : List Bytes :=
  match p.stages with
  | stage :: _ => stage.args
  | [] => []

section
variable {s : Session} {w opened ready : World}

theorem runLine_refused (compiled : compile s.expand line w = (.error fault, after)) :
    runLine scripts line s w = ({ fault := some fault }, s, after) := by
  unfold runLine
  rw [compiled]

-- The check for command substitution is passed a second time.
theorem runLine_stopped (compiled : compile s.expand line w = (.ok p, opened))
    (launched : s.engine.launchAll s.environ 0 (p.classify Builtin.isBuiltin).stages
      (s.engine.dump (p.classify Builtin.isBuiltin) opened) = (some fault, entries, ready)) :
    runLine scripts line s w =
      ({ command := leading (p.classify Builtin.isBuiltin), status := 1, fault := some fault }, s,
        ((Engine.stoppedAt entries ready).1.close (Engine.stoppedAt entries ready).2).2.2) := by
  have clean := Pipeline.classify_passes Builtin.isBuiltin (compile_ok s.expand compiled).2
  unfold runLine
  rw [compiled]
  dsimp only
  rw [Engine.execute_stopped clean launched]
  rfl

theorem runLine_launched (compiled : compile s.expand line w = (.ok p, opened))
    (launched : s.engine.launchAll s.environ 0 (p.classify Builtin.isBuiltin).stages
      (s.engine.dump (p.classify Builtin.isBuiltin) opened) = (none, entries, ready))
    (entered : s.engine.enterAll (runner scripts) 0 entries s ready = (left, next, after)) :
    runLine scripts line s w =
      ({ command := leading (p.classify Builtin.isBuiltin), status := Engine.firstFailure (Engine.waitAll left after).1 }, next,
        ((Engine.finishedAt left after).1.close (Engine.finishedAt left after).2).2.2) := by
  have clean := Pipeline.classify_passes Builtin.isBuiltin (compile_ok s.expand compiled).2
  unfold runLine
  rw [compiled]
  dsimp only
  rw [Engine.execute_finished clean launched entered]
  rfl

end

-- The two ways a line can fail: it is not compiled, or it is and one of its programs does not start.
theorem runLine_failed (ran : runLine scripts line s w = (result, next, after)) (failed : result.fault = some fault) :
    next = s ∧
    ((compile s.expand line w = (.error fault, after) ∧ result = { fault := some fault }) ∨
      ∃ p middle entries launched, compile s.expand line w = (.ok p, middle) ∧ fault.isSpawn = true ∧
        s.engine.launchAll s.environ 0 (p.classify Builtin.isBuiltin).stages
          (s.engine.dump (p.classify Builtin.isBuiltin) middle) = (some fault, entries, launched) ∧
        after = ((Engine.stoppedAt entries launched).1.close (Engine.stoppedAt entries launched).2).2.2) := by
  cases line_course line s w with
  | refused compiled =>
    rw [runLine_refused compiled] at ran
    cases ran
    cases failed
    exact ⟨rfl, .inl ⟨compiled, rfl⟩⟩
  | stopped compiled launched =>
    have spawned := Engine.launchAll_spawn _ _ _ _ _ (congrArg (·.1) launched)
    rw [runLine_stopped compiled launched] at ran
    cases ran
    cases failed
    exact ⟨rfl, .inr ⟨_, _, _, _, compiled, spawned, launched, rfl⟩⟩
  | launched compiled launched =>
    rw [runLine_launched compiled launched rfl] at ran
    cases ran
    cases failed

theorem runLine_failed_apart (ran : runLine scripts line s w = (result, next, after)) (failed : result.fault = some fault) :
    Apart w after := by
  obtain ⟨_, footprint, _⟩ := compile_footprint s.expand line w
  obtain ⟨_, ⟨compiled, _⟩ | ⟨p, middle, entries, launched, compiled, _, launching, rfl⟩⟩ := runLine_failed ran failed
  · rw [compiled] at footprint
    exact footprint.apart
  · rw [compiled] at footprint
    obtain ⟨_, started⟩ := Engine.launchAll_launched s.engine s.environ 0 (p.classify Builtin.isBuiltin).stages
      (s.engine.dump (p.classify Builtin.isBuiltin) middle)
    rw [launching] at started
    have ready := (footprint.apart.trans (Engine.dump_quiet _ _ _).apart).trans started.launching.apart
    exact (ready.trans (Engine.stoppedAt_apart entries launched)).trans (Pipeline.close_footprint _ _).apart

-- Whatever stops a line, none of its own commands and assignments has run. The session is as it was but
-- for the status, and the end of it if a program did not start; one message says what went wrong.
theorem interpret_failed (line : Bytes) (s : Session) (w : World) (active : s.exited = false) (present : trimmed line ≠ [])
    (ran : runLine (runScriptAt s.levels) (trimmed line) s w = (result, next, after)) (failed : result.fault = some fault) :
    interpret line s w = ((fault.status, if fault.isSpawn then some fault else none),
      { s with
        lastStatus := fault.status
        exited := fault.isSpawn
        fatal := if fault.isSpawn then some fault else s.fatal },
      s.reported (trimmed line) result fault after) ∧
    fault.Due fault.status ∧
    (∃ calls, (s.reported (trimmed line) result fault after).trace = calls ++ w.trace ∧ ∀ i, .entered i ∉ calls) ∧
    (s.reported (trimmed line) result fault after).cwd = w.cwd := by
  obtain ⟨rfl, _⟩ := runLine_failed ran failed
  have reporting : Apart after (next.reported (trimmed line) result fault after) :=
    ⟨⟨[], reported_reaches next _ _ _ _, by simp⟩, reported_cwd next _ _ _ _⟩
  have apart := (runLine_failed_apart ran failed).trans reporting
  obtain ⟨calls, reached, outside⟩ := apart.calls
  refine ⟨?_, fault.status_due, ⟨calls, reached.trace, outside⟩, apart.cwd⟩
  have whole := interpretWith_failed present ran failed
  rwa [active, Bool.or_false] at whole

-- A session whose messages go to its standard error.
def talking : Session := { onConsole with messages := onConsole.std.error }

-- The second stage has its file created, then the third has none to read: `A` has no value and the
-- shell goes on.
theorem interpret_failed_reading :
    talking.exited = false ∧ trimmed (ascii "A=1 | mecho > f | mcd < none # all") ≠ [] ∧
    ∃ result after, runLine (runScriptAt talking.levels) (ascii "A=1 | mecho > f | mcd < none") talking (console []) =
        (result, talking, after) ∧
      result.fault = some (.resource (ascii "open") (ascii "none") (.errno 2)) ∧
      interpret (ascii "A=1 | mecho > f | mcd < none # all") talking (console []) =
        ((2, none), { talking with lastStatus := 2 },
          talking.reported (ascii "A=1 | mecho > f | mcd < none") result
            (.resource (ascii "open") (ascii "none") (.errno 2)) after) ∧
      (interpret (ascii "A=1 | mecho > f | mcd < none # all") talking (console [])).2.2.memory.read? (ascii "err") =
        some (ascii "myshell: open none: no such file or directory\n") := by
  have active : talking.exited = false := rfl
  have trim : trimmed (ascii "A=1 | mecho > f | mcd < none # all") = ascii "A=1 | mecho > f | mcd < none" := by decide +kernel
  have present : trimmed (ascii "A=1 | mecho > f | mcd < none # all") ≠ [] := by
    rw [trim]
    decide
  refine ⟨active, present, ?_⟩
  have stopped : (runLine (runScriptAt talking.levels) (ascii "A=1 | mecho > f | mcd < none") talking (console [])).1.fault =
      some (.resource (ascii "open") (ascii "none") (.errno 2)) := by decide +kernel
  rcases ran : runLine (runScriptAt talking.levels) (ascii "A=1 | mecho > f | mcd < none") talking (console []) with
    ⟨result, next, after⟩
  rw [ran] at stopped
  obtain ⟨rfl, _⟩ := runLine_failed ran stopped
  rw [← trim] at ran
  obtain ⟨whole, _⟩ := interpret_failed _ talking (console []) active present ran stopped
  rw [trim] at whole
  exact ⟨result, after, rfl, stopped, whole, by decide +kernel⟩

end Session
end
end LineShell
