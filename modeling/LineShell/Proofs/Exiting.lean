import LineShell.Proofs.History
import LineShell.Proofs.Unwinding

namespace LineShell

namespace Builtin

-- Whether a command takes an exit back.
def recants : List Bytes → Bool
  | [] => false
  | name :: rest =>
    if find? name = some exit then
      match exit.usage.parse [] rest with
      | .ok parsed => !parsed.isOn letterH && decide (2 ≤ parsed.operands.length)
      | .error _ => false
    else false

end Builtin

namespace Session

-- An exited session stays exited, and if no failure was held but by exited sessions, this is so afterwards.
structure Stays (s after : Session) : Prop where
  exited : s.exited = true → after.exited = true
  stored : (s.fatal.isSome = true → s.exited = true) → after.fatal.isSome = true → after.exited = true

theorem stays_lasting : Lasting Stays where
  refl _ := ⟨id, id⟩
  trans first second := ⟨second.exited ∘ first.exited, second.stored ∘ first.stored⟩

-- Most changes concern neither the flag nor the failure.
def Apart (s after : Session) : Prop := after.exited = s.exited ∧ after.fatal = s.fatal

theorem Apart.stays (apart : Apart s after) : Stays s after := by
  obtain ⟨exited, fatal⟩ := apart
  refine ⟨fun before => exited.trans before, fun held stored => ?_⟩
  rw [fatal] at stored
  exact exited.trans (held stored)

theorem Stays.leaving (s : Session) : Stays s { s with exited := true } := ⟨fun _ => rfl, fun _ _ => rfl⟩

end Session

namespace Builtin
open Session

variable {runScript : Bytes → Streams → Session → World → (Int × Option Bytes) × Session × World}

theorem Done.apart (done : Done streams s w answer) : Apart s answer.2.1 := by
  obtain ⟨locals, env, only⟩ := done.tables
  rw [only]
  exact ⟨rfl, rfl⟩

theorem recants_iff : recants args = true ↔ ∃ parsed, performed? args = some (exit, parsed) ∧ 2 ≤ parsed.operands.length := by
  cases args with
  | nil => simp [recants, performed?]
  | cons command rest =>
    simp only [performed_iff]
    unfold recants
    dsimp only
    by_cases exits : find? command = some exit
    · rw [if_pos exits]
      cases read : exit.usage.parse [] rest with
      | error message => simp
      | ok parsed => simp [exits, and_assoc]
    · simp [exits]

-- What a command that runs no script does about exiting.
def Obeys (args : List Bytes) (s after : Session) : Prop :=
  if recants args = true then after = { s with exited := false } else Stays s after

theorem run_obeys (args : List Bytes) (plain : scriptOf? args = none) (streams : Streams) (s : Session) (w : World) :
    Obeys args s (run runScript args streams s w).2.1 := by
  unfold Obeys
  by_cases back : recants args = true
  · obtain ⟨parsed, does, several⟩ := recants_iff.mp back
    obtain ⟨status, after, exits, _, _⟩ := perform_exit runScript parsed streams s w
    rw [if_pos back, run_performed does, exits]
    simp [Nat.not_le.mpr several]
  · rw [if_neg back]
    rcases run_cases runScript plain streams s w with done | ⟨parsed, does, same⟩
    · exact done.apart.stays
    · have single : parsed.operands.length ≤ 1 :=
        Nat.le_of_not_lt fun several => back (recants_iff.mpr ⟨parsed, does, several⟩)
      obtain ⟨status, after, exits, _, _⟩ := perform_exit runScript parsed streams s w
      rw [same, exits, decide_eq_true single]
      exact Stays.leaving s

end Builtin

namespace Session
open Builtin

theorem stays_carries : Carries Stays Obeys where
  toLasting := stays_lasting
  assign text streams s w := by
    unfold Session.assign
    split
    · exact Apart.stays ⟨rfl, rfl⟩
    · exact stays_lasting.refl s
  command args plain _ streams s w := run_obeys args plain streams s w
  redirect _ _ _ _ := Apart.stays ⟨rfl, rfl⟩
  nest _ _ := Apart.stays ⟨rfl, rfl⟩
  finish _ _ := Apart.stays ⟨rfl, rfl⟩
  stop _ _ := ⟨fun _ => rfl, fun _ _ => rfl⟩

def Instant.recants (instant : Instant) : Bool := instant.command.any Builtin.recants

-- Along every stretch of a run in which no command takes an exit back: once the session is exited it stays so, and
-- if it was exited or held no failure when the stretch began, it is exited whenever it holds one. A command that
-- does take an exit back clears the flag and leaves all else.
theorem exit_stays (run : Run first acts last) :
    (∀ before within later, acts.flatMap Act.history = before ++ within ++ later →
      (∀ instant ∈ within, instant.recants = false) →
      ∃ start stop, Linked first (before.map Instant.ends) start ∧ Lasts Stays start (within.map Instant.ends) stop ∧
        Linked stop (later.map Instant.ends) last) ∧
    ∀ instant ∈ acts.flatMap Act.history, instant.recants = true → instant.leaves = { instant.finds with exited := false } := by
  refine ⟨fun before within later stretch quiet => ?_, fun instant member recants => ?_⟩
  · refine stays_carries.stretch run stretch fun instant among args command s after obeys => ?_
    have plain := quiet instant among
    unfold Instant.recants at plain
    rw [command] at plain
    unfold Obeys at obeys
    rwa [if_neg (by simpa using plain)] at obeys
  · have kept := stays_carries.run acts instant member
    unfold Instant.recants at recants
    unfold Instant.Kept at kept
    split at kept
    · rename_i none
      simp [none] at recants
    · rename_i args command
      rw [command] at recants
      unfold Obeys at kept
      rwa [if_pos (by simpa using recants)] at kept

-- A line that takes an exit back before a script exits; the script's exit lasts through the rest of the line.
def exitingLate : Act := ⟨.line (ascii "mexit 1 2 | . s | A=1"), sourcing, scripted [("s", "mexit 3\nB=1")]⟩

theorem exit_stays_late :
    Run sourcing [exitingLate] exitingLate.after ∧ (∀ instant ∈ exitingLate.history.drop 3, instant.recants = false) ∧
      exitingLate.after.exited = true ∧
      ∃ instant ∈ exitingLate.history, instant.recants = true ∧ instant.leaves.exited = false := by
  have run : Run sourcing [exitingLate] exitingLate.after := ⟨rfl, rfl⟩
  have quiet : ∀ instant ∈ exitingLate.history.drop 3, instant.recants = false := by decide +kernel
  obtain ⟨lasts, recanted⟩ := exit_stays run
  obtain ⟨start, stop, _, during, last⟩ := lasts (exitingLate.history.take 3) (exitingLate.history.drop 3) [] (by simp) quiet
  have ended : stop = exitingLate.after := last
  rw [ended] at during
  obtain ⟨instant, among, exits⟩ : ∃ instant ∈ exitingLate.history.drop 3, instant.leaves.exited = true := by decide +kernel
  obtain ⟨earlier, member, recants⟩ : ∃ instant ∈ exitingLate.history, instant.recants = true := by decide +kernel
  refine ⟨run, quiet, (during.left _ (List.mem_map_of_mem among)).exited exits, earlier, member, recants, ?_⟩
  rw [recanted earlier (by simpa using member) recants]

-- A later stage takes the exit of an earlier one back, and that of a script with a program that would not start.
def recanting : Act := ⟨.line (ascii "mexit 1 | mexit 1 2"), fresh, console []⟩
def recantingFatal : Act := ⟨.line (ascii ". s | mexit 1 2"), sourcing, unstartable [("s", "./bad")]⟩

theorem exit_stays_recanted :
    (∃ instant ∈ recanting.history, instant.leaves.exited = true) ∧ recanting.after.exited = false ∧
      (∃ instant ∈ recantingFatal.history, instant.leaves.exited = true) ∧
      recantingFatal.after.fatal = some denied ∧ recantingFatal.after.exited = false := by
  decide +kernel

end Session
end LineShell
