import LineShell.Session.Builtin
import Mathlib.Logic.Relation

-- A command comes to its end by steps of a few kinds, so what none of these steps breaks is kept by it.
namespace LineShell.Builtin
open Session Relation

-- The command that is meant, with its options and operands, unless it is refused or only explained.
def performed? : List Bytes → Option (Builtin × Usage.Parsed)
  | [] => none
  | name :: rest =>
    match find? name with
    | none => none
    | some b =>
      match b.usage.parse [] rest with
      | .error _ => none
      | .ok parsed => if parsed.isOn letterH then none else some (b, parsed)

-- The script a command runs, if it runs one.
def scriptOf? : List Bytes → Option Bytes
  | [] => none
  | name :: rest =>
    if find? name = some source then
      match source.usage.parse [] rest with
      | .ok parsed =>
        match parsed.isOn letterH, parsed.operands with
        | false, [script] => some script
        | _, _ => none
      | .error _ => none
    else none

-- The message about a script, if there is something to say.
def complainOf (message : Option Bytes) (errors : Option FileId) (w : World) : World :=
  match message with
  | none => w
  | some text => w.emit errors (source.name ++ ascii ": " ++ text ++ [Bytes.newline])

theorem performed_iff {command : Bytes} {b : Builtin} {parsed : Usage.Parsed} :
    performed? (command :: rest) = some (b, parsed) ↔
      find? command = some b ∧ b.usage.parse [] rest = .ok parsed ∧ parsed.isOn letterH = false := by
  unfold performed?
  dsimp only
  cases found : find? command with
  | none => simp
  | some meant =>
    dsimp only
    cases read : meant.usage.parse [] rest with
    | error message =>
      simp only [reduceCtorEq, Option.some.injEq, false_iff]
      rintro ⟨rfl, accepted, _⟩
      cases read.symm.trans accepted
    | ok given =>
      simp only [Option.ite_none_left_eq_some, Option.some.injEq, Prod.mk.injEq, Bool.not_eq_true]
      constructor
      · rintro ⟨wanted, rfl, rfl⟩
        exact ⟨rfl, read, wanted⟩
      · rintro ⟨rfl, accepted, wanted⟩
        cases read.symm.trans accepted
        exact ⟨wanted, rfl, rfl⟩

theorem scriptOf_iff : scriptOf? args = some script ↔
    ∃ parsed, performed? args = some (source, parsed) ∧ parsed.operands = [script] := by
  cases args with
  | nil => simp [scriptOf?, performed?]
  | cons command rest =>
    simp only [performed_iff]
    unfold scriptOf?
    dsimp only
    by_cases sources : find? command = some source
    · rw [if_pos sources]
      cases read : source.usage.parse [] rest with
      | error message => simp
      | ok parsed =>
        dsimp only
        split
        · rename_i wanted operands
          simp only [sources, Except.ok.injEq, true_and, Option.some.injEq]
          constructor
          · rintro rfl
            exact ⟨parsed, ⟨rfl, wanted⟩, operands⟩
          · rintro ⟨_, ⟨rfl, _⟩, same⟩
            exact (List.cons.inj (operands.symm.trans same)).1
        · rename_i other
          simp only [sources, Except.ok.injEq, true_and, reduceCtorEq, false_iff]
          rintro ⟨_, ⟨rfl, wanted⟩, operands⟩
          exact other _ wanted operands
    · simp [sources]

variable {runScript other : Bytes → Streams → Session → World → (Int × Option Bytes) × Session × World}
variable {parsed : Usage.Parsed} {b : Builtin}

theorem run_performed (does : performed? args = some (b, parsed)) (streams : Streams) (s : Session) (w : World) :
    run runScript args streams s w = b.perform runScript parsed streams s w := by
  cases args with
  | nil => cases does
  | cons command rest =>
    obtain ⟨found, read, wanted⟩ := performed_iff.mp does
    unfold run
    dsimp only
    rw [found]
    dsimp only
    rw [read]
    exact if_neg (by simp [wanted])

-- Where a command writes to.
inductive Outlet (streams : Streams) : Option FileId → Prop where
  | output : Outlet streams streams.channels.output
  | error : Outlet streams streams.channels.error

-- One step of a command that neither runs a script nor exits.
inductive Deed (streams : Streams) : Session × World → Session × World → Prop where
  | write (outlet : Outlet streams file) (data : Bytes) : Deed streams (s, w) (s, w.emit file data)
  | move (moved : w.changeDirectory directory = .ok after) : Deed streams (s, w) (s, after)
  | enter (directory : Bytes) : Deed streams (s, w) ({ s with env := s.env.set pwdVar directory }, w)
  | publish (name value : Bytes) :
    Deed streams (s, w) ({ s with locals := s.locals.set name value, env := s.env.set name value }, w)
  | unexport (name : Bytes) : Deed streams (s, w) (unexport s name, w)
  | exportName (name : Bytes) : Deed streams (s, w) (exportName s name, w)

-- The answer of such a command.
structure Done (streams : Streams) (s : Session) (w : World) (answer : Int × Session × World) : Prop where
  status : 0 ≤ answer.1 ∧ answer.1 ≤ 2
  deeds : ReflTransGen (Deed streams) (s, w) answer.2

section
variable {status : Int} {streams : Streams} {s : Session} {w : World}

theorem Done.of_deeds (ranged : 0 ≤ status ∧ status ≤ 2) (deeds : ReflTransGen (Deed streams) (s, w) after) :
    Done streams s w (status, after) :=
  ⟨ranged, deeds⟩

theorem Done.head (deed : Deed streams (s, w) (next, middle)) (done : Done streams next middle answer) :
    Done streams s w answer :=
  ⟨done.status, .head deed done.deeds⟩

theorem Done.said (ranged : 0 ≤ status ∧ status ≤ 2) (data : Bytes) :
    Done streams s w (status, s, w.emit streams.channels.output data) :=
  .of_deeds ranged (.single (.write .output data))

theorem Done.refused (ranged : 0 ≤ status ∧ status ≤ 2) (data : Bytes) :
    Done streams s w (status, s, w.emit streams.channels.error data) :=
  .of_deeds ranged (.single (.write .error data))

end

-- What no step breaks holds between the ends.
theorem Done.along {R : Session × World → Session × World → Prop} (refl : ∀ before, R before before)
    (trans : ∀ {before middle after}, R before middle → R middle after → R before after)
    (step : ∀ {before after}, Deed streams before after → R before after) (done : Done streams s w answer) :
    R (s, w) answer.2 := by
  have deeds := done.deeds
  generalize answer.2 = last at deeds
  induction deeds with
  | refl => exact refl _
  | tail _ deed ih => exact trans ih (step deed)

theorem exportName_only (s : Session) (key : Bytes) : ∃ env, exportName s key = { s with env := env } := by
  unfold exportName
  split
  · exact ⟨_, rfl⟩
  · split
    · exact ⟨s.env, rfl⟩
    · exact ⟨_, rfl⟩

-- Of the session these steps change the tables of variables only.
theorem Done.tables (done : Done streams s w answer) : ∃ locals env, answer.2.1 = { s with locals := locals, env := env } := by
  refine done.along (R := fun before after => ∃ locals env, after.1 = { before.1 with locals := locals, env := env }) ?_ ?_ ?_
  · exact fun before => ⟨before.1.locals, before.1.env, rfl⟩
  · rintro before middle after ⟨_, _, first⟩ ⟨locals, env, second⟩
    rw [first] at second
    exact ⟨locals, env, second⟩
  · intro before after deed
    cases deed with
    | write => exact ⟨_, _, rfl⟩
    | move => exact ⟨_, _, rfl⟩
    | enter => exact ⟨_, _, rfl⟩
    | publish => exact ⟨_, _, rfl⟩
    | unexport => exact ⟨_, _, rfl⟩
    | exportName key =>
      obtain ⟨env, only⟩ := exportName_only _ key
      exact ⟨_, env, only⟩

theorem exportAll_done (streams : Streams) (command : Bytes) (operands : List Bytes) (s : Session) (w : World)
    (ranged : 0 ≤ status ∧ status ≤ 2) :
    Done streams s w (exportAll streams.channels.error command status operands s w) := by
  induction operands generalizing status s w with
  | nil => exact ⟨ranged, .refl⟩
  | cons operand others ih =>
    unfold exportAll
    split
    · rename_i name value _
      exact .head (.publish name value) (ih _ w ranged)
    · split
      · exact .head (.exportName operand) (ih _ w ranged)
      · exact .head (.write .error _) (ih s _ (by decide))

theorem unexportAll_deeds (streams : Streams) (names : List Bytes) (s : Session) (w : World) :
    ReflTransGen (Deed streams) (s, w) (names.foldl unexport s, w) := by
  induction names generalizing s with
  | nil => exact .refl
  | cons name others ih => exact .head (.unexport name) (ih (unexport s name))

theorem enterDirectory_done (streams : Streams) (directory command : Bytes) (s : Session) (w : World) :
    Done streams s w (enterDirectory directory command streams.channels.error s w) := by
  unfold enterDirectory
  split
  · exact .refused (by decide) _
  · rename_i after moved
    split
    · rename_i pwd _
      exact .of_deeds (by decide) (.tail (.single (.move moved)) (.enter pwd))
    · exact .of_deeds (by decide) (.single (.move moved))

theorem perform_done (ordinary : b ≠ exit) (plain : b = source → ∀ script, parsed.operands ≠ [script]) (streams : Streams)
    (s : Session) (w : World) : Done streams s w (b.perform runScript parsed streams s w) := by
  cases b with
  | source =>
    unfold perform
    dsimp only
    split
    · rename_i script operands
      exact absurd operands (plain rfl script)
    · exact .refused (by decide) _
  | defineAlias => exact .refused (by decide) _
  | help => exact .said (by decide) _
  | changeDirectory =>
    unfold perform
    dsimp only
    split
    · split
      · exact .refused (by decide) _
      · exact enterDirectory_done streams _ _ s w
    · exact enterDirectory_done streams _ _ s w
    · exact .refused (by decide) _
  | echo => exact .said (by decide) _
  | showStatus => exact .said (by decide) _
  | exit => exact absurd rfl ordinary
  | exportVariables =>
    unfold perform
    dsimp only
    split
    · exact .of_deeds (by decide) (unexportAll_deeds streams _ s w)
    · split
      · exact .said (by decide) _
      · exact exportAll_done streams _ _ s w (by decide)
  | workingDirectory =>
    unfold perform
    dsimp only
    split
    · exact .said (by decide) _
    · exact .refused (by decide) _

-- A command that is refused or only explained.
theorem run_refused (refused : performed? args = none) (streams : Streams) (s : Session) (w : World) :
    ∃ answer, Done streams s w answer ∧ ∀ runScript, run runScript args streams s w = answer := by
  cases args with
  | nil => exact ⟨_, .of_deeds (by decide) .refl, fun _ => rfl⟩
  | cons command rest =>
    unfold run
    dsimp only
    cases found : find? command with
    | none => exact ⟨_, .refused (by decide) _, fun _ => rfl⟩
    | some b =>
      dsimp only
      cases read : b.usage.parse [] rest with
      | error message => exact ⟨_, .refused (by decide) _, fun _ => rfl⟩
      | ok parsed =>
        dsimp only
        cases asked : parsed.isOn letterH with
        | true => exact ⟨_, .said (by decide) _, fun _ => rfl⟩
        | false => cases refused.symm.trans (performed_iff.mpr ⟨found, read, asked⟩)

theorem run_script (runs : scriptOf? args = some script) (ran : runScript script streams s w = ((status, message), next, after)) :
    run runScript args streams s w = (status, next, complainOf message streams.channels.error after) := by
  obtain ⟨parsed, does, operands⟩ := scriptOf_iff.mp runs
  rw [run_performed does]
  unfold perform
  dsimp only
  rw [operands]
  dsimp only
  rw [ran]
  cases message with
  | none => rfl
  | some text => rfl

theorem not_script (plain : scriptOf? args = none) (does : performed? args = some (b, parsed)) :
    b = source → ∀ script, parsed.operands ≠ [script] := by
  rintro rfl script operands
  cases plain.symm.trans (scriptOf_iff.mpr ⟨parsed, does, operands⟩)

-- A command that runs no script does not depend on how scripts are run.
theorem run_plain (plain : scriptOf? args = none) : run runScript args streams s w = run other args streams s w := by
  cases does : performed? args with
  | none =>
    obtain ⟨answer, _, same⟩ := run_refused does streams s w
    rw [same, same]
  | some performed =>
    obtain ⟨b, parsed⟩ := performed
    rw [run_performed does, run_performed does]
    cases b with
    | source =>
      have several := not_script plain does rfl
      unfold perform
      dsimp only
      split
      · rename_i script operands
        exact absurd operands (several script)
      · rfl
    | _ => rfl

-- A command that runs no script is done by such steps, or it exits.
theorem run_cases (runScript : Bytes → Streams → Session → World → (Int × Option Bytes) × Session × World)
    (plain : scriptOf? args = none) (streams : Streams) (s : Session) (w : World) :
    Done streams s w (run runScript args streams s w) ∨
    ∃ parsed, performed? args = some (exit, parsed) ∧
      run runScript args streams s w = exit.perform runScript parsed streams s w := by
  cases does : performed? args with
  | none =>
    obtain ⟨answer, done, same⟩ := run_refused does streams s w
    rw [same]
    exact .inl done
  | some performed =>
    obtain ⟨b, parsed⟩ := performed
    rw [run_performed does]
    by_cases exits : b = exit
    · cases exits
      exact .inr ⟨parsed, rfl, rfl⟩
    · exact .inl (perform_done exits (not_script plain does) streams s w)

-- An exit is in effect unless it has more than one operand. It writes at most a complaint.
theorem perform_exit (runScript : Bytes → Streams → Session → World → (Int × Option Bytes) × Session × World)
    (parsed : Usage.Parsed) (streams : Streams) (s : Session) (w : World) :
    ∃ (status : Int) (after : World), exit.perform runScript parsed streams s w =
        (status, { s with exited := decide (parsed.operands.length ≤ 1) }, after) ∧
      (status = s.lastStatus ∨ 0 ≤ status ∧ status ≤ 255) ∧ (after = w ∨ ∃ data, after = w.emit streams.channels.error data) := by
  unfold perform
  dsimp only
  rcases parsed.operands with _ | ⟨code, _ | ⟨other, more⟩⟩
  · exact ⟨_, w, rfl, .inl rfl, .inl rfl⟩
  · dsimp only
    split
    · exact ⟨_, w, rfl, .inr (by omega), .inl rfl⟩
    · exact ⟨_, _, rfl, .inr (by decide), .inr ⟨_, rfl⟩⟩
  · have several : ¬(code :: other :: more).length ≤ 1 := by simp
    rw [decide_eq_false several]
    exact ⟨1, _, rfl, .inr (by decide), .inr ⟨_, rfl⟩⟩

end LineShell.Builtin
