import LineShell.Proofs.Statuses

namespace LineShell
open World

-- The program that is still to be waited for.
def Progress.child? : Progress → Option ChildId
  | .running child => some child
  | _ => none

namespace Engine
variable {e : Engine} {runner : Runner σ} {table : Option (List Bytes)} {stage : Stage} {w middle after : World}

-- The program of stage number `j` is found and started when it is its turn, to be waited for or not.
structure Starts (e : Engine) (table : Option (List Bytes)) (p : Pipeline) (w : World) (j : Nat) (stage : Stage)
    (background : Bool) (child : ChildId) : Prop where
  external : stage.kind = .external
  marked : (stripBackground stage.args).2 = background
  began : ∃ command args path begun, (stripBackground stage.args).1 = command :: args ∧
    lookPath? (worldAt e table p w j) e.searchPath command = some path ∧
    (worldAt e table p w j).start path (command :: args) table (stage.stdio.resolve e.std) = (.ok child, begun)

-- The commands of the shell itself, each when it is entered.
def entered (e : Engine) (runner : Runner σ) (p : Pipeline) (s : σ) (w : World) : List (Visit σ) :=
  let launched := e.launchAll (runner.environ s) 0 p.stages (e.dump p w)
  e.visits runner 0 launched.2.1 s launched.2.2

-- If every program that comes to its turn starts, all come to it.
theorem launchAll_clear {stages : List Stage} (starts : ∀ (j : Nat) stage, stages[j]? = some stage →
    stage.kind = .external → ∃ progress, (e.launch table stage (e.launchAll table i (stages.take j) w).2.2).1 = .ok progress) :
    (e.launchAll table i stages w).1 = none := by
  induction stages generalizing i w with
  | nil => rfl
  | cons head others ih =>
    by_cases external : head.kind = .external
    · obtain ⟨progress, first⟩ := starts 0 head rfl external
      replace first : (e.launch table head w).1 = .ok progress := first
      rcases launched : e.launch table head w with ⟨result, middle⟩
      rw [launched] at first
      cases first
      rw [launchAll_starting others external launched rfl]
      refine ih fun j stage found kind => ?_
      have turn := starts (j + 1) stage found kind
      rwa [List.take_succ_cons, launchAll_starting _ external launched rfl] at turn
    · rw [launchAll_passing others external rfl]
      refine ih fun j stage found kind => ?_
      have turn := starts (j + 1) stage found kind
      rwa [List.take_succ_cons, launchAll_passing _ external rfl] at turn

theorem launchAll_take_clear {stages : List Stage} (j : Nat) (clear : (e.launchAll table i stages w).1 = none) :
    (e.launchAll table i (stages.take j) w).1 = none := by
  induction stages generalizing i j w with
  | nil => simpa using clear
  | cons head others ih =>
    cases j with
    | zero => rfl
    | succ j =>
      rw [List.take_succ_cons]
      by_cases external : head.kind = .external
      · rcases launched : e.launch table head w with ⟨result, middle⟩
        cases result with
        | error fault =>
          rw [launchAll_failing others external launched] at clear
          cases clear
        | ok progress =>
          rw [launchAll_starting _ external launched rfl] at clear ⊢
          exact ih j clear
      · rw [launchAll_passing _ external rfl] at clear ⊢
        exact ih j clear

-- A stage that starts no program is not waited for.
theorem launchAll_idle (e : Engine) (table : Option (List Bytes)) (stages : List Stage) (i : Nat) (w : World) :
    ∀ entry ∈ (e.launchAll table i stages w).2.1, entry.1.kind ≠ .external → entry.2.child? = none := by
  induction stages generalizing i w with
  | nil => exact fun entry member => nomatch member
  | cons head others ih =>
    intro entry member outside
    by_cases external : head.kind = .external
    · rcases launched : e.launch table head w with ⟨result, middle⟩
      cases result with
      | error fault =>
        rw [launchAll_failing others external launched] at member
        rcases List.mem_cons.mp member with rfl | later
        · rfl
        · obtain ⟨stage, _, rfl⟩ := List.mem_map.mp later
          rfl
      | ok progress =>
        rw [launchAll_starting others external launched rfl] at member
        rcases List.mem_cons.mp member with rfl | later
        · exact absurd external outside
        · exact ih _ _ entry later outside
    · rw [launchAll_passing others external rfl] at member
      rcases List.mem_cons.mp member with rfl | later
      · rfl
      · exact ih _ _ entry later outside

-- The programs that are to be waited for, in stage order.
def foreground (entries : List (Stage × Progress)) : List ChildId := entries.filterMap fun entry => entry.2.child?

-- Waiting asks for one program after the other.
theorem waitEach_trace (all : List Progress) (w : World) :
    (waitEach all w).2.trace = ((all.filterMap Progress.child?).map Call.waited).reverse ++ w.trace := by
  induction all generalizing w with
  | nil => rfl
  | cons first others ih =>
    cases first with
    | waiting => exact ih w
    | done status => exact ih w
    | running child =>
      have left : (w.wait child).2.trace = .waited child :: w.trace := (wait_reaches w child).trace
      rw [List.filterMap_cons, Progress.child?, List.map_cons, List.reverse_cons, List.append_assoc, List.singleton_append,
        ← left]
      exact ih (w.wait child).2

-- Behind the barrier the programs in the foreground are waited for.
theorem waitAll_trace (entries : List (Stage × Progress)) (w : World) :
    (waitAll entries w).2.trace = ((foreground entries).map Call.waited).reverse ++ .barrier :: w.trace := by
  have listed : (entries.map (·.2)).filterMap Progress.child? = foreground entries := List.filterMap_map ..
  unfold waitAll
  rw [waitEach_trace, listed, (settle_quiet _).reached.trace]
  rfl

theorem surroundings_present {child : Nat} (known : w.surroundings child = some given) : child < w.children.size := by
  obtain ⟨started, found, _⟩ := Option.map_eq_some_iff.mp known
  exact (Array.getElem?_eq_some_iff.mp found).1

-- A program that is started is the next child, and its start is on record.
theorem Starts.launches {p : Pipeline} {j : Nat} (starts : Starts e table p w j stage background child) :
    ∃ begun, e.launch table stage (worldAt e table p w j) = (.ok (if background then .done 0 else .running child), begun) ∧
      child = (worldAt e table p w j).children.size ∧ begun.trace = .started child :: (worldAt e table p w j).trace := by
  obtain ⟨command, args, path, begun, given, found, began⟩ := starts.began
  refine ⟨begun, ?_, ?_, (start_reaches began).trace⟩
  · have split : stripBackground stage.args = (command :: args, background) := Prod.ext given starts.marked
    unfold launch
    rw [split]
    dsimp only
    rw [found]
    dsimp only
    rw [began]
  · obtain ⟨granted, _, asked, number, _⟩ := start_ok began
    obtain ⟨faults, rfl⟩ := nextFault_same asked
    exact number

-- So programs of later stages have higher numbers.
theorem Starts.before {p : Pipeline} {j k : Nat} (starts : Starts e table p w j stage background child)
    (found : p.stages[j]? = some stage) (clear : (e.launchAll table 0 p.stages (e.dump p w)).1 = none) (below : j < k) :
    child < (worldAt e table p w k).children.size := by
  obtain ⟨begun, launched, _, started⟩ := starts.launches
  have here : (p.stages.take k)[j]? = some stage := by rw [List.getElem?_take_of_lt below, found]
  have first : (p.stages.take k).take j = p.stages.take j := by rw [List.take_take, Nat.min_eq_left (Nat.le_of_lt below)]
  have turn : e.launch table stage (e.launchAll table 0 ((p.stages.take k).take j) (e.dump p w)).2.2 =
      (.ok (if background then .done 0 else .running child), begun) := by
    rw [first]
    exact launched
  obtain ⟨_, later, trace⟩ := launchAll_turn here starts.external (by rw [first]; exact launchAll_take_clear j clear) turn
  obtain ⟨calls, whole⟩ := launchAll_launched e table 0 (p.stages.take k) (e.dump p w)
  obtain ⟨earlier, prior⟩ := launchAll_launched e table 0 (p.stages.take j) (e.dump p w)
  have listed : calls = later ++ .dispatched (0 + j) :: .started child :: earlier := by
    refine List.append_cancel_right (whole.launching.reached.trace.symm.trans ?_)
    rw [trace, started, show (worldAt e table p w j).trace = _ from prior.launching.reached.trace]
    simp
  exact surroundings_present (whole.launching.children child (by simp [listed]))

variable {p : Pipeline} {entries : List (Stage × Progress)} {ready : World}

theorem entry_starts (launching : e.launchAll table 0 p.stages (e.dump p w) = (none, entries, ready)) {j : Nat}
    (here : entries[j]? = some entry) (waits : entry.2.child? = some child) :
    ∃ stage, p.stages[j]? = some stage ∧ Starts e table p w j stage false child := by
  have idle := launchAll_idle e table p.stages 0 (e.dump p w)
  obtain ⟨_, whole⟩ := launchAll_launched e table 0 p.stages (e.dump p w)
  have clear : (e.launchAll table 0 p.stages (e.dump p w)).1 = none := by rw [launching]
  rw [launching] at idle whole
  have length : entries.length = p.stages.length := by simpa using congrArg List.length (whole.finished rfl).1
  have inside : j < p.stages.length := length ▸ (List.getElem?_eq_some_iff.mp here).1
  obtain ⟨stage, found⟩ : ∃ stage, p.stages[j]? = some stage := ⟨_, List.getElem?_eq_getElem inside⟩
  refine ⟨stage, found, ?_⟩
  obtain ⟨progress, there, launch⟩ := launchAll_progress clear found
  rw [launching, here] at there
  cases there
  have external : stage.kind = .external := by
    by_contra other
    have none := idle _ (List.mem_of_getElem? here) (by simp [afterLaunch, other])
    rw [waits] at none
    cases none
  obtain ⟨begun, launched⟩ := launch external
  have answered := e.launch_begun table stage (worldAt e table p w j)
  rw [show e.launch table stage (worldAt e table p w j) = _ from launched] at answered
  generalize given : (stripBackground stage.args).1 = words at answered
  generalize marked : (stripBackground stage.args).2 = background at answered
  cases answered with
  | empty => cases waits
  | missing => cases waits
  | started words located began =>
    cases background with
    | true => cases waits
    | false =>
      cases waits
      subst words
      exact ⟨external, marked, _, _, _, _, given, located, began⟩

theorem mem_foreground (launching : e.launchAll table 0 p.stages (e.dump p w) = (none, entries, ready)) (child : ChildId) :
    child ∈ foreground entries ↔
      ∃ (j : Nat) (stage : Stage), p.stages[j]? = some stage ∧ Starts e table p w j stage false child := by
  constructor
  · intro member
    obtain ⟨entry, present, waits⟩ := List.mem_filterMap.mp member
    obtain ⟨j, here⟩ := List.mem_iff_getElem?.mp present
    obtain ⟨stage, found, starts⟩ := entry_starts launching here waits
    exact ⟨j, stage, found, starts⟩
  · rintro ⟨j, stage, found, starts⟩
    obtain ⟨begun, launched, _⟩ := starts.launches
    obtain ⟨progress, there, launch⟩ := launchAll_progress (by rw [launching]) found
    obtain ⟨_, again⟩ := launch starts.external
    cases launched.symm.trans again
    rw [launching] at there
    exact List.mem_filterMap.mpr ⟨_, List.mem_of_getElem? there, rfl⟩

theorem foreground_increasing (launching : e.launchAll table 0 p.stages (e.dump p w) = (none, entries, ready)) :
    (foreground entries).Pairwise (· < ·) := by
  refine List.pairwise_filterMap.mpr (List.pairwise_iff_getElem.mpr ?_)
  intro j k hereJ hereK below child waits other waitsOther
  obtain ⟨stage, found, starts⟩ := entry_starts launching (List.getElem?_eq_getElem hereJ) waits
  obtain ⟨_, _, startsOther⟩ := entry_starts launching (List.getElem?_eq_getElem hereK) waitsOther
  obtain ⟨_, _, number, _⟩ := startsOther.launches
  rw [number]
  exact starts.before found (by rw [launching]) below

-- A program that is not to be waited for is none of those.
theorem background_apart (launching : e.launchAll table 0 p.stages (e.dump p w) = (none, entries, ready)) {j : Nat}
    (found : p.stages[j]? = some stage) (starts : Starts e table p w j stage true child) : child ∉ foreground entries := by
  intro member
  have clear : (e.launchAll table 0 p.stages (e.dump p w)).1 = none := by rw [launching]
  obtain ⟨k, other, foundOther, startsOther⟩ := (mem_foreground launching child).mp member
  obtain ⟨_, _, number, _⟩ := starts.launches
  obtain ⟨_, _, numberOther, _⟩ := startsOther.launches
  rcases Nat.lt_trichotomy j k with before | rfl | behind
  · have smaller := starts.before found clear before
    rw [← numberOther] at smaller
    exact Nat.lt_irrefl _ smaller
  · cases found.symm.trans foundOther
    cases starts.marked.symm.trans startsOther.marked
  · have smaller := startsOther.before foundOther clear behind
    rw [← number] at smaller
    exact Nat.lt_irrefl _ smaller

-- Nothing is waited for while programs are launched.
theorem launchAll_waitless (e : Engine) (table : Option (List Bytes)) (stages : List Stage) (i : Nat) (w : World) :
    ∃ calls, w.Reaches calls (e.launchAll table i stages w).2.2 ∧ ∀ child, .waited child ∉ calls := by
  -- One turn of the loop, up to the release of the descriptors.
  have turn : ∀ (stage : Stage) (i : Nat) (w : World), ∃ calls,
      w.Reaches calls (stage.stdio.release ((e.launch table stage w).2.note (.dispatched i))).2.2 ∧
        ∀ child, .waited child ∉ calls := by
    intro stage i w
    have launches : ∃ calls, w.Reaches calls (e.launch table stage w).2 ∧ ∀ child, .waited child ∉ calls := by
      rcases launched : e.launch table stage w with ⟨result, begun⟩
      rcases launch_cases launched with ⟨_, _, answered⟩ | ⟨_, _, _, refused⟩
      · cases answered with
        | empty => exact ⟨[], (e.complain_quiet _ _ w).reached, by simp⟩
        | missing => exact ⟨[], (e.complain_quiet _ _ w).reached, by simp⟩
        | started _ _ began => exact ⟨_, start_reaches began, by simp⟩
      · exact ⟨[], start_refused refused, by simp⟩
    obtain ⟨first, launched, waitless⟩ := launches
    obtain ⟨closing, released, only, _⟩ := release_closes stage ((e.launch table stage w).2.note (.dispatched i))
    refine ⟨_, (launched.trans (note_reaches _ (.dispatched i) (by simp))).trans released, fun child member => ?_⟩
    rcases List.mem_append.mp member with closed | earlier
    · obtain ⟨f, wrong⟩ := only _ closed
      cases wrong
    · exact waitless child (by simpa using earlier)
  induction stages generalizing i w with
  | nil => exact ⟨[], Reaches.refl w, by simp⟩
  | cons head others ih =>
    by_cases external : head.kind = .external
    · obtain ⟨first, begun, waitless⟩ := turn head i w
      rcases launched : e.launch table head w with ⟨result, middle⟩
      rw [launched] at begun
      cases result with
      | error fault =>
        rw [launchAll_failing others external launched]
        exact ⟨first, begun, waitless⟩
      | ok progress =>
        obtain ⟨later, reached, waitlessLater⟩ := ih (i + 1) (head.stdio.release (middle.note (.dispatched i))).2.2
        rw [launchAll_starting others external launched rfl]
        refine ⟨_, begun.trans reached, fun child member => ?_⟩
        rcases List.mem_append.mp member with late | early
        · exact waitlessLater child late
        · exact waitless child early
    · rw [launchAll_passing others external rfl]
      exact ih (i + 1) w

-- Every program that is found when it is its turn starts.
def AllStart (e : Engine) (table : Option (List Bytes)) (p : Pipeline) (w : World) : Prop :=
  ∀ (j : Nat) stage command args path, p.stages[j]? = some stage → stage.kind = .external →
    (stripBackground stage.args).1 = command :: args → lookPath? (worldAt e table p w j) e.searchPath command = some path →
    ∃ child begun, (worldAt e table p w j).start path (command :: args) table (stage.stdio.resolve e.std) = (.ok child, begun)

theorem AllStart.clear (start : AllStart e table p w) : (e.launchAll table 0 p.stages (e.dump p w)).1 = none := by
  refine launchAll_clear fun j stage found external => ?_
  have answered := e.launch_begun table stage (worldAt e table p w j)
  generalize given : (stripBackground stage.args).1 = words at answered
  generalize (stripBackground stage.args).2 = background at answered
  unfold worldAt at answered
  generalize e.launch table stage (e.launchAll table 0 (p.stages.take j) (e.dump p w)).2.2 = launched at answered ⊢
  obtain ⟨result, begun⟩ := launched
  cases answered with
  | refused words located refused =>
    obtain ⟨child, begun, began⟩ := start j stage _ _ _ found external (given.trans words) located
    subst words
    cases refused.symm.trans began
  | _ => exact ⟨_, rfl⟩

end Engine
end LineShell
