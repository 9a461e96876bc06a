import LineShell.Proofs.Commands
import LineShell.Proofs.Steps
import LineShell.Proofs.Turns

-- A session changes in a few ways only and by one of them at a time, so a property that each of these keeps is kept by
-- every run.
namespace LineShell
open World

namespace Engine
variable {σ : Type} {R : σ → σ → Prop} {runner : Runner σ}

-- The runner moves along a relation that runs of any length stay within.
structure Within (runner : Runner σ) (R : σ → σ → Prop) : Prop where
  refl : ∀ s, R s s
  trans : ∀ {first middle last}, R first middle → R middle last → R first last
  builtin : ∀ args streams s w, R s (runner.runBuiltin args streams s w).2.1
  assign : ∀ text streams s w, R s (runner.assign text streams s w).2.1

theorem enter_within (within : Within runner R) (e : Engine) (stage : Stage) (s : σ) (w : World) :
    R s (e.enter runner stage s w).2.1 := by
  cases e.handing runner stage s w with
  | empty none answer =>
    rw [answer]
    exact within.refl s
  | assignment name args kind given answer =>
    rw [answer]
    exact within.assign _ _ s w
  | command name args kind given answer =>
    rw [answer]
    exact within.builtin _ _ s w

theorem enterAll_within (within : Within runner R) (e : Engine) (i : Nat) (entries : List (Stage × Progress)) (s : σ)
    (w : World) : R s (e.enterAll runner i entries s w).2.1 := by
  induction entries generalizing i s w with
  | nil => exact within.refl s
  | cons entry others ih =>
    obtain ⟨stage, progress⟩ := entry
    by_cases inside : stage.kind = .internal ∨ stage.kind = .assignment
    · rcases ran : e.enter runner stage s (w.note (.entered i)) with ⟨status, next, middle⟩
      have first := enter_within within e stage s (w.note (.entered i))
      rw [ran] at first
      rw [enterAll_running others inside ran rfl]
      exact within.trans first (ih _ _ _)
    · rw [enterAll_passing others inside rfl]
      exact ih _ _ _

theorem execute_within (within : Within runner R) (e : Engine) (p : Pipeline) (s : σ) (w : World) :
    R s (e.execute runner p s w).2.1 := by
  cases clean : p.rejectSubshells with
  | some fault =>
    rw [execute_rejected clean]
    exact within.refl s
  | none =>
    rcases launched : e.launchAll (runner.environ s) 0 p.stages (e.dump p w) with ⟨stopped, entries, ready⟩
    cases stopped with
    | some fault =>
      rw [execute_stopped clean launched]
      exact within.refl s
    | none =>
      rw [execute_finished clean launched rfl]
      exact enterAll_within within e 0 entries s ready

end Engine

namespace Session

-- One change of a session. The first five are those of its variables.
inductive Change (s : Session) : Session → Prop where
  | assign (name value : Bytes) : Change s (s.assignVariable name value)
  | publish (name value : Bytes) : Change s { s with locals := s.locals.set name value, env := s.env.set name value }
  | unexport (name : Bytes) : Change s (Builtin.unexport s name)
  | exportName (name : Bytes) : Change s (Builtin.exportName s name)
  | enter (directory : Bytes) : Change s { s with env := s.env.set pwdVar directory }
  | exit (flag : Bool) : Change s { s with exited := flag }
  | redirect (std engineStd : Triple (Option FileId)) (messages : Option FileId) :
    Change s { s with std := std, engineStd := engineStd, messages := messages }
  | nest (depth : Nat) : Change s { s with depth := depth }
  | finish (status : Int) : Change s { s with lastStatus := status }
  | stop (fault : Fault) : Change s { s with exited := true, fatal := some fault, lastStatus := 1 }

inductive Changes (s : Session) : Session → Prop where
  | none : Changes s s
  | step : Changes s middle → Change middle after → Changes s after

variable {s middle after : Session}

theorem Change.once (change : Change s after) : Changes s after := .step .none change

theorem Changes.trans (first : Changes s middle) (second : Changes middle after) : Changes s after := by
  induction second with
  | none => exact first
  | step _ change ih => exact .step ih change

-- A property that no change breaks is kept by every run.
theorem Changes.keep {P : Session → Prop} (kept : ∀ {s after}, Change s after → P s → P after) (run : Changes s after)
    (holds : P s) : P after := by
  induction run with
  | none => exact holds
  | step _ change ih => exact kept change ih

-- What a run leads to: a session reached by such changes, with the standard files, the file for messages and
-- the depth it began with. The engine's copy is put back from the standard files, if it is touched at all.
structure Follows (s after : Session) : Prop where
  changes : Changes s after
  std : after.std = s.std
  copied : after.engineStd = s.engineStd ∨ after.engineStd = s.std
  messages : after.messages = s.messages
  depth : after.depth = s.depth

theorem Follows.refl (s : Session) : Follows s s := ⟨.none, rfl, .inl rfl, rfl, rfl⟩

theorem Follows.engine (run : Follows s after) (same : s.engineStd = s.std) : after.engineStd = after.std := by
  rw [run.std]
  exact run.copied.elim (·.trans same) id

theorem Follows.trans (first : Follows s middle) (second : Follows middle after) : Follows s after := by
  refine ⟨first.changes.trans second.changes, second.std.trans first.std, ?_, second.messages.trans first.messages,
    second.depth.trans first.depth⟩
  rcases second.copied with same | copied
  · rw [same]
    exact first.copied
  · exact .inr (copied.trans first.std)

theorem Follows.finish (run : Follows s after) (status : Int) : Follows s { after with lastStatus := status } :=
  ⟨run.changes.step (.finish status), run.std, run.copied, run.messages, run.depth⟩

theorem Follows.stop (run : Follows s after) (fault : Fault) :
    Follows s { after with exited := true, fatal := some fault, lastStatus := 1 } :=
  ⟨run.changes.step (.stop fault), run.std, run.copied, run.messages, run.depth⟩

-- What is recorded and shown still goes where it went.
theorem Changes.logs (run : Changes s after) : after.recorder = s.recorder ∧ after.debug = s.debug := by
  refine run.keep (P := fun t => t.recorder = s.recorder ∧ t.debug = s.debug) ?_ ⟨rfl, rfl⟩
  intro before next change same
  cases change with
  | exportName key =>
    obtain ⟨env, only⟩ := Builtin.exportName_only before key
    rw [only]
    exact same
  | _ => exact same

end Session

namespace Builtin
open Session
variable {runScript : Bytes → Streams → Session → World → (Int × Option Bytes) × Session × World}

theorem Done.changes (done : Done streams s w answer) : Changes s answer.2.1 := by
  refine done.along (R := fun before after => Changes before.1 after.1) (fun _ => .none) Changes.trans ?_
  intro before after deed
  cases deed with
  | write => exact .none
  | move => exact .none
  | enter directory => exact (Change.enter directory).once
  | publish name value => exact (Change.publish name value).once
  | unexport name => exact (Change.unexport name).once
  | exportName name => exact (Change.exportName name).once

theorem Done.follows (done : Done streams s w answer) : Follows s answer.2.1 := by
  have changes := done.changes
  obtain ⟨locals, env, only⟩ := done.tables
  rw [only] at changes ⊢
  exact ⟨changes, rfl, .inl rfl, rfl, rfl⟩

theorem run_follows (scripted : ∀ path streams s w, Follows s (runScript path streams s w).2.1) (args : List Bytes)
    (streams : Streams) (s : Session) (w : World) : Follows s (run runScript args streams s w).2.1 := by
  cases runs : scriptOf? args with
  | some script =>
    have inside := scripted script streams s w
    rcases ran : runScript script streams s w with ⟨⟨status, message⟩, next, after⟩
    rw [ran] at inside
    rwa [run_script runs ran]
  | none =>
    rcases run_cases runScript runs streams s w with done | ⟨parsed, _, same⟩
    · exact done.follows
    · obtain ⟨status, after, exits, _, _⟩ := perform_exit runScript parsed streams s w
      rw [same, exits]
      exact ⟨(Change.exit _).once, rfl, .inl rfl, rfl, rfl⟩

end Builtin

namespace Session
variable {s : Session} {scripts : ScriptRunner}

-- A way of running scripts that gives the session back like this.
def ScriptsFollow (scripts : ScriptRunner) : Prop := ∀ path s w, Follows s (scripts path s w).2.1

theorem sourceScript_follows (follow : ScriptsFollow scripts) (path : Bytes) (streams : Streams) (s : Session)
    (w : World) : Follows s (sourceScript scripts path streams s w).2.1 := by
  have given : Changes s (s.redirectStd streams.files) := (Change.redirect _ _ _).once
  have ran := follow path (s.redirectStd streams.files) w
  exact ⟨(given.trans ran.changes).step (.redirect s.std s.std s.messages), rfl, .inr rfl, rfl, ran.depth⟩

theorem runner_within (follow : ScriptsFollow scripts) : Engine.Within (runner scripts) Follows where
  refl := .refl
  trans := .trans
  builtin := Builtin.run_follows (sourceScript_follows follow)
  assign := by
    intro text streams s w
    dsimp only [runner]
    unfold assign
    split
    · rename_i name value _
      exact ⟨(Change.assign name value).once, rfl, .inl rfl, rfl, rfl⟩
    · exact .refl s

theorem runLine_follows (follow : ScriptsFollow scripts) (line : Bytes) (s : Session) (w : World) :
    Follows s (runLine scripts line s w).2.1 := by
  unfold runLine
  split
  · exact .refl s
  · exact Engine.execute_within (runner_within follow) _ _ s _

theorem interpretWith_follows (follow : ScriptsFollow scripts) (line : Bytes) (s : Session) (w : World) :
    Follows s (interpretWith scripts line s w).2.1 := by
  have inside := runLine_follows follow (trimmed line) s w
  cases closing scripts line s w with
  | blank absent answer =>
    rw [answer]
    exact .refl s
  | held present result next after fault ran passed stored answer =>
    rw [ran] at inside
    rw [answer]
    exact inside.finish 1
  | passed present result next after ran fine free answer =>
    rw [ran] at inside
    rw [answer]
    exact inside.finish _
  | failed present result next after fault ran fails answer =>
    rw [ran] at inside
    rw [answer]
    cases spawned : fault.isSpawn with
    | true =>
      rw [Fault.status_of_spawn spawned]
      exact inside.stop fault
    | false => exact inside.finish _

theorem follows_of_interpretWith (follow : ScriptsFollow scripts)
    (interpreted : interpretWith scripts line s w = (answer, next, after)) : Follows s next := by
  have follows := interpretWith_follows follow line s w
  rwa [interpreted] at follows

theorem LinesRun.follows (run : LinesRun scripts lines s w turns result) (follow : ScriptsFollow scripts) :
    Follows s result.2.1 := by
  induction run with
  | finished => exact .refl _
  | tooLong => exact .refl _
  | fatal _ first => exact follows_of_interpretWith follow first
  | exited _ first _ => exact follows_of_interpretWith follow first
  | goes _ first _ _ ih => exact (follows_of_interpretWith follow first).trans ih

theorem BlocksRun.follows (run : BlocksRun scripts path blocks r s w turns result) (follow : ScriptsFollow scripts) :
    Follows s result.2.1 := by
  induction run with
  | spent => exact .refl _
  | unreadable => exact .refl _
  | tooLong => exact .refl _
  | last _ run => exact run.follows follow
  | failed _ run => exact run.follows follow
  | exited _ run _ => exact run.follows follow
  | goes _ run _ _ ih => exact (run.follows follow).trans ih

theorem ScriptRun.follows (run : ScriptRun deeper path s w turns result) : Follows s result.2.1 := by
  induction deeper generalizing path s w turns result with
  | zero =>
    cases run
    exact .refl s
  | succ deeper ih =>
    cases run with
    | unopened => exact .refl s
    | opened ran opens run =>
      have inside := run.follows fun path s w => ih (scriptRun deeper path s w)
      have changes := ((Change.nest (s.depth + 1)).once.trans inside.changes).step (.nest (ran.2.1.depth - 1))
      exact ⟨changes, inside.std, inside.copied, inside.messages, congrArg (· - 1) inside.depth⟩

-- Scripts that run scripts: by induction on how deep they still may.
theorem runScriptAt_follows (levels : Nat) : ScriptsFollow (runScriptAt levels) :=
  fun path s w => (scriptRun levels path s w).follows

theorem interpret_follows (line : Bytes) (s : Session) (w : World) : Follows s (interpret line s w).2.1 :=
  interpretWith_follows (runScriptAt_follows s.levels) line s w

end Session
end LineShell
