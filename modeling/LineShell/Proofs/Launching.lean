import LineShell.Proofs.Steps

namespace LineShell
open World

namespace Engine
variable {e : Engine} {table : Option (List Bytes)} {stage : Stage} {w middle after : World}

-- Programs are started with the directory and the environment of the beginning, and nothing else is run.
structure Launching (table : Option (List Bytes)) (w : World) (calls : List Call) (after : World) : Prop where
  reached : w.Reaches calls after
  still : Still w after
  outside : ∀ i, .entered i ∉ calls
  children : ∀ child, .started child ∈ calls → after.surroundings child = some (w.cwd, dedupe (table.getD w.environ))

theorem Launching.trans (first : Launching table w earlier middle) (second : Launching table middle later after) :
    Launching table w (later ++ earlier) after := by
  refine ⟨first.reached.trans second.reached, first.still.trans second.still, ?_, ?_⟩
  · simp [first.outside, second.outside]
  · intro child started
    rcases List.mem_append.mp started with late | early
    · have given := second.children child late
      rwa [first.still.cwd, first.still.environ] at given
    · exact second.reached.programs child _ (first.children child early)

theorem launching_of_still (reached : w.Reaches calls after) (still : Still w after)
    (none : ∀ child, .started child ∉ calls) (outside : ∀ i, .entered i ∉ calls) : Launching table w calls after :=
  ⟨reached, still, outside, fun child started => absurd started (none child)⟩

theorem Launching.before_quiet (launching : Launching table middle calls after) (quiet : Quiet w middle) :
    Launching table w calls after := by
  have first : Launching table w [] middle := launching_of_still quiet.reached quiet.still (by simp) (by simp)
  simpa using first.trans launching

theorem start_refused_still (refused : w.start path arguments table given = (.error cause, after)) : Still w after := by
  rcases start_error refused with rfl | ⟨fault, asked⟩
  · exact Still.refl _
  · exact nextFault_still asked

theorem start_launching (started : w.start path arguments table given = (.ok number, after)) :
    Launching table w [.started number] after := by
  have reached := start_reaches started
  obtain ⟨granted, child, asked, rfl, directory, entries, rfl⟩ := start_ok started
  have still := nextFault_still asked
  refine ⟨reached, ⟨still.cwd, still.environ, still.events⟩, by simp, ?_⟩
  intro k begun
  have same : k = granted.children.size := by simpa using begun
  subst same
  simp [surroundings, note, directory, entries, still.cwd]

theorem launch_launching (e : Engine) (table : Option (List Bytes)) (stage : Stage) (w : World) :
    ∃ calls, Launching table w calls (e.launch table stage w).2 := by
  have complained : ∀ file message, Launching table w [] (e.complain file message w) :=
    fun file message => launching_of_still (e.complain_quiet file message w).reached
      (e.complain_quiet file message w).still (by simp) (by simp)
  rcases launched : e.launch table stage w with ⟨result, after⟩
  rcases launch_cases launched with ⟨_, _, answered⟩ | ⟨_, _, _, refused⟩
  · cases answered with
    | empty => exact ⟨_, complained _ _⟩
    | missing => exact ⟨_, complained _ _⟩
    | started _ _ begun => exact ⟨_, start_launching begun⟩
  · exact ⟨[], launching_of_still (start_refused refused) (start_refused_still refused) (by simp) (by simp)⟩

-- Stage `j` of the list was dealt with, at the point where the stages in front of it leave the world.
def Dispatched (e : Engine) (table : Option (List Bytes)) (i : Nat) (stages : List Stage) (w : World) (j : Nat)
    (stage : Stage) (after : World) : Prop :=
  ∃ launched, Answered e table stage (e.launchAll table i (stages.take j) w).2.2 launched ∧
    ∃ later, after.trace = later ++ .dispatched (i + j) :: launched.trace

theorem Dispatched.later (dispatched : Dispatched e table i stages w j stage middle) (reached : middle.Reaches calls after) :
    Dispatched e table i stages w j stage after := by
  obtain ⟨launched, answered, later, trace⟩ := dispatched
  refine ⟨launched, answered, calls ++ later, ?_⟩
  rw [reached.trace, trace, List.append_assoc]

theorem Dispatched.shift (dispatched : Dispatched e table (i + 1) others middle j other after)
    (leaves : ∀ more, (e.launchAll table i (stage :: more) w).2.2 = (e.launchAll table (i + 1) more middle).2.2) :
    Dispatched e table i (stage :: others) w (j + 1) other after := by
  obtain ⟨launched, answered, later, trace⟩ := dispatched
  have number : i + 1 + j = i + (j + 1) := by omega
  rw [number] at trace
  refine ⟨launched, ?_, later, trace⟩
  rw [List.take_succ_cons, leaves]
  exact answered

-- One turn of the loop over the programs, up to the release of the descriptors.
theorem dispatch_launching (launched : e.launch table stage w = (result, middle)) (i : Nat) :
    ∃ calls, Launching table w calls (stage.stdio.release (middle.note (.dispatched i))).2.2 ∧ Closes calls stage ∧
      ∃ later, (stage.stdio.release (middle.note (.dispatched i))).2.2.trace = later ++ .dispatched i :: middle.trace := by
  obtain ⟨launching, started⟩ := launch_launching e table stage w
  rw [launched] at started
  have marked : Launching table middle [.dispatched i] (middle.note (.dispatched i)) :=
    launching_of_still (note_reaches _ _ (by simp)) ⟨rfl, rfl, rfl⟩ (by simp) (by simp)
  obtain ⟨closing, released, only, closes, still⟩ := release_closes stage (middle.note (.dispatched i))
  have freed : Launching table (middle.note (.dispatched i)) closing
      (stage.stdio.release (middle.note (.dispatched i))).2.2 := by
    refine launching_of_still released still ?_ ?_
    · intro child member
      obtain ⟨f, wrong⟩ := only _ member
      cases wrong
    · intro number member
      obtain ⟨f, wrong⟩ := only _ member
      cases wrong
  exact ⟨_, (started.trans marked).trans freed, closes.earlier _, closing, released.trace⟩

def afterLaunch (stage : Stage) : Stage := if stage.kind = .external then released stage else stage

-- The loop over the programs, as it looks from outside.
structure Launched (e : Engine) (table : Option (List Bytes)) (i : Nat) (stages : List Stage) (w : World)
    (calls : List Call) (stopped : Option Fault) (entries : List (Stage × Progress)) (after : World) : Prop where
  launching : Launching table w calls after
  kept : ∀ (j : Nat) stage, stages[j]? = some stage →
    (∃ progress, entries[j]? = some (stage, progress)) ∨ Closes calls stage
  finished : stopped = none → entries.map (·.1) = stages.map afterLaunch ∧
    ∀ (j : Nat) stage, stages[j]? = some stage → stage.kind = .external →
      Dispatched e table i stages w j stage after ∧ Closes calls stage

theorem Launched.pass (internal : stage.kind ≠ .external)
    (following : Launched e table (i + 1) others w calls stopped entries after) :
    Launched e table i (stage :: others) w calls stopped ((stage, .waiting) :: entries) after := by
  refine ⟨following.launching, ?_, ?_⟩
  · intro j other found
    cases j with
    | zero =>
      cases found
      exact .inl ⟨.waiting, rfl⟩
    | succ j => exact following.kept j other found
  · intro done
    obtain ⟨shape, each⟩ := following.finished done
    refine ⟨by simp [shape, afterLaunch, internal], ?_⟩
    intro j other found external
    cases j with
    | zero =>
      cases found
      exact absurd external internal
    | succ j =>
      obtain ⟨dispatched, closes⟩ := each j other found external
      refine ⟨dispatched.shift ?_, closes⟩
      intro more
      rw [launchAll_passing more internal rfl]

theorem Launched.start (external : stage.kind = .external) (launched : e.launch table stage w = (.ok progress, middle))
    (following : Launched e table (i + 1) others (stage.stdio.release (middle.note (.dispatched i))).2.2 calls stopped
      entries after) :
    ∃ earlier, Launched e table i (stage :: others) w (calls ++ earlier) stopped ((released stage, progress) :: entries)
      after := by
  obtain ⟨earlier, launching, closes, later, trace⟩ := dispatch_launching launched i
  refine ⟨earlier, launching.trans following.launching, ?_, ?_⟩
  · intro j other found
    cases j with
    | zero =>
      cases found
      exact .inr (closes.later calls)
    | succ j =>
      rcases following.kept j other found with kept | freed
      · exact .inl kept
      · exact .inr (freed.earlier earlier)
  · intro done
    obtain ⟨shape, each⟩ := following.finished done
    refine ⟨by simp [shape, afterLaunch, external], ?_⟩
    intro j other found kind
    cases j with
    | zero =>
      cases found
      rcases launch_cases launched with ⟨_, _, answered⟩ | ⟨_, _, wrong, _⟩
      · have here : Dispatched e table i (stage :: others) w 0 stage
            (stage.stdio.release (middle.note (.dispatched i))).2.2 := ⟨middle, answered, later, trace⟩
        exact ⟨here.later following.launching.reached, closes.later calls⟩
      · cases wrong
    | succ j =>
      obtain ⟨dispatched, freed⟩ := each j other found kind
      refine ⟨dispatched.shift ?_, freed.earlier earlier⟩
      intro more
      rw [launchAll_starting more external launched rfl]

theorem launchAll_launched (e : Engine) (table : Option (List Bytes)) (i : Nat) (stages : List Stage) (w : World) :
    ∃ calls, Launched e table i stages w calls (e.launchAll table i stages w).1 (e.launchAll table i stages w).2.1
      (e.launchAll table i stages w).2.2 := by
  induction stages generalizing i w with
  | nil =>
    exact ⟨[], launching_of_still (Reaches.refl w) (Still.refl w) (by simp) (by simp), by simp, fun _ => ⟨rfl, by simp⟩⟩
  | cons stage others ih =>
    by_cases external : stage.kind = .external
    · rcases launched : e.launch table stage w with ⟨result, middle⟩
      cases result with
      | error fault =>
        obtain ⟨calls, launching, closes, _⟩ := dispatch_launching launched i
        rw [launchAll_failing others external launched]
        refine ⟨calls, launching, ?_, by rintro ⟨⟩⟩
        intro j other found
        cases j with
        | zero =>
          cases found
          exact .inr closes
        | succ j =>
          have same : others[j]? = some other := found
          exact .inl ⟨.waiting, by simp [same]⟩
      | ok progress =>
        obtain ⟨calls, following⟩ := ih (i + 1) (stage.stdio.release (middle.note (.dispatched i))).2.2
        obtain ⟨earlier, whole⟩ := following.start external launched
        rw [launchAll_starting others external launched rfl]
        exact ⟨_, whole⟩
    · obtain ⟨calls, following⟩ := ih (i + 1) w
      rw [launchAll_passing others external rfl]
      exact ⟨calls, following.pass external⟩

end Engine
end LineShell
