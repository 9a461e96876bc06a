import LineShell.Proofs.Descriptors

namespace LineShell
open World

-- One call of a runner: what it was given and the world it gave back.
structure Moment where
  args : List Bytes
  streams : Streams
  world : World
  returned : World

-- The program was started by the runner, during this call.
def Moment.Starts (moment : Moment) (child : ChildId) : Prop :=
  ∃ calls, moment.returned.trace = calls ++ moment.world.trace ∧ .started child ∈ calls

-- The same runner, which also remembers its calls, the latest first.
def Runner.watched (runner : Runner σ) : Runner (σ × List Moment) where
  isBuiltin := runner.isBuiltin
  runBuiltin args streams s w :=
    let ran := runner.runBuiltin args streams s.1 w
    (ran.1, (ran.2.1, ⟨args, streams, w, ran.2.2⟩ :: s.2), ran.2.2)
  assign token streams s w :=
    let ran := runner.assign token streams s.1 w
    (ran.1, (ran.2.1, ⟨[token], streams, w, ran.2.2⟩ :: s.2), ran.2.2)
  environ s := runner.environ s.1

-- A runner may do what it likes, but it cannot take back what has happened.
structure Runner.Honest (runner : Runner σ) : Prop where
  builtin : ∀ args streams s (w : World), ∃ calls, w.Reaches calls (runner.runBuiltin args streams s w).2.2
  assign : ∀ token streams s (w : World), ∃ calls, w.Reaches calls (runner.assign token streams s w).2.2

theorem Runner.Tidy.honest {runner : Runner σ} (tidy : runner.Tidy) : runner.Honest where
  builtin args streams s w := by
    obtain ⟨calls, account⟩ := tidy.builtin args streams s w
    exact ⟨calls, account.reached⟩
  assign token streams s w := by
    obtain ⟨calls, account⟩ := tidy.assign token streams s w
    exact ⟨calls, account.reached⟩

-- A stage that the runner is asked for.
def Stage.Inside (stage : Stage) : Prop := stage.kind = .internal ∨ stage.kind = .assignment

theorem Stage.Inside.not_external {stage : Stage} (inside : stage.Inside) : stage.kind ≠ .external := by
  intro external
  rcases inside with other | other
  · exact absurd (external.symm.trans other) (by decide)
  · exact absurd (external.symm.trans other) (by decide)

namespace Engine
variable {e : Engine} {runner : Runner σ} {stage : Stage} {w middle after : World}

-- What a stage hands to the runner: an assignment one word, a command its words. If there are none
-- the runner is not called.
def givenArgs (stage : Stage) : List Bytes :=
  if stage.kind = .assignment then (stripBackground stage.args).1.take 1 else (stripBackground stage.args).1

def moments (e : Engine) (runner : Runner σ) (stage : Stage) (s : σ) (w : World) : List Moment :=
  if givenArgs stage = [] then []
  else [⟨givenArgs stage, Streams.ofFiles (stage.stdio.resolve e.std), w, (e.enter runner stage s w).2.2⟩]

theorem enter_watched (e : Engine) (runner : Runner σ) (stage : Stage) (s : σ) (seen : List Moment) (w : World) :
    e.enter runner.watched stage (s, seen) w = ((e.enter runner stage s w).1,
      ((e.enter runner stage s w).2.1, e.moments runner stage s w ++ seen), (e.enter runner stage s w).2.2) := by
  unfold moments givenArgs
  cases e.handing runner stage s w with
  | empty none answer =>
    rw [enter_empty none, answer]
    simp [none]
  | assignment name args kind given answer =>
    rw [enter_assigning kind given, answer]
    simp [kind, given, Runner.watched]
  | command name args kind given answer =>
    rw [enter_commanding kind given, answer]
    simp [kind, given, Runner.watched]

theorem enter_reaches (honest : runner.Honest) (e : Engine) (stage : Stage) (s : σ) (w : World) :
    ∃ calls, w.Reaches calls (e.enter runner stage s w).2.2 ∧ (givenArgs stage = [] → calls = []) := by
  unfold givenArgs
  cases e.handing runner stage s w with
  | empty none answer =>
    rw [answer]
    exact ⟨[], (e.complain_quiet _ _ w).reached, fun _ => rfl⟩
  | assignment name args kind given answer =>
    rw [answer]
    obtain ⟨calls, reached⟩ := honest.assign name (Streams.ofFiles (stage.stdio.resolve e.std)) s w
    exact ⟨calls, reached, by simp [kind, given]⟩
  | command name args kind given answer =>
    rw [answer]
    obtain ⟨calls, reached⟩ := honest.builtin (name :: args) (Streams.ofFiles (stage.stdio.resolve e.std)) s w
    exact ⟨calls, reached, by simp [kind, given]⟩

-- The runner is called for entry `j`, which is stage number `i + j`: all entries before that are
-- its own have been closed since `w`.
def Called (e : Engine) (i : Nat) (entries : List (Stage × Progress)) (w : World) (j : Nat) (moment : Moment) : Prop :=
  ∃ stage progress calls, entries[j]? = some (stage, progress) ∧ stage.Inside ∧ givenArgs stage ≠ [] ∧
    moment.args = givenArgs stage ∧ moment.streams = Streams.ofFiles (stage.stdio.resolve e.std) ∧
    w.Reaches (.entered (i + j) :: calls) moment.world ∧
    ∀ k other, k < j → entries[k]? = some other → other.1.Inside → Closes calls other.1

theorem Called.shift (called : Called e (i + 1) others middle j moment) (reached : w.Reaches earlier middle)
    (freed : stage.Inside → Closes earlier stage) : Called e i ((stage, progress) :: others) w (j + 1) moment := by
  obtain ⟨owner, done, calls, found, inside, given, args, streams, entered, closed⟩ := called
  have number : i + 1 + j = i + (j + 1) := by omega
  rw [number] at entered
  refine ⟨owner, done, calls ++ earlier, found, inside, given, args, streams, reached.trans entered, ?_⟩
  intro k other before at_k kind
  cases k with
  | zero =>
    cases at_k
    exact (freed kind).later calls
  | succ k => exact (closed k other (Nat.lt_of_succ_lt_succ before) at_k kind).earlier earlier

-- The loop over the commands, as it looks from outside. `runs` are the calls of the runner in the
-- order they were made, each with the position of its stage.
structure InOrder (e : Engine) (runner : Runner σ) (i : Nat) (entries : List (Stage × Progress)) (s : σ) (w : World)
    (runs : List (Nat × Moment)) (calls : List Call) : Prop where
  watched : ∀ seen, e.enterAll runner.watched i entries (s, seen) w = ((e.enterAll runner i entries s w).1,
    ((e.enterAll runner i entries s w).2.1, (runs.map (·.2)).reverse ++ seen), (e.enterAll runner i entries s w).2.2)
  reached : w.Reaches calls (e.enterAll runner i entries s w).2.2
  increasing : runs.Pairwise (fun earlier later => earlier.1 < later.1)
  each : ∀ run ∈ runs, Called e i entries w run.1 run.2
  complete : ∀ (j : Nat) (entry : Stage × Progress), entries[j]? = some entry → entry.1.Inside → givenArgs entry.1 ≠ [] → ∃ run ∈ runs, run.1 = j
  freed : ∀ (j : Nat) (entry : Stage × Progress), entries[j]? = some entry → entry.1.Inside → Closes calls entry.1
  starts : ∀ child, .started child ∈ calls → ∃ run ∈ runs, run.2.Starts child
  past : ∀ run ∈ runs, ∃ later, (e.enterAll runner i entries s w).2.2.trace = later ++ run.2.world.trace

-- The calls for the stages behind the first one, numbered from there.
def shifted (runs : List (Nat × Moment)) : List (Nat × Moment) := runs.map fun run => (run.1 + 1, run.2)

theorem shifted_moments (runs : List (Nat × Moment)) : (shifted runs).map (·.2) = runs.map (·.2) := by
  simp [shifted, Function.comp_def]

theorem shifted_increasing (increasing : runs.Pairwise (fun earlier later => earlier.1 < later.1)) :
    (shifted runs).Pairwise (fun earlier later => earlier.1 < later.1) := by
  refine List.pairwise_map.mpr (increasing.imp ?_)
  intro earlier later before
  exact Nat.succ_lt_succ before

theorem InOrder.pass (outside : ¬stage.Inside) (order : InOrder e runner (i + 1) others s w runs calls) :
    InOrder e runner i ((stage, progress) :: others) s w (shifted runs) calls := by
  have plain : e.enterAll runner i ((stage, progress) :: others) s w =
      ((stage, progress) :: (e.enterAll runner (i + 1) others s w).1, (e.enterAll runner (i + 1) others s w).2) :=
    enterAll_passing others outside rfl
  constructor
  case watched =>
    intro seen
    rw [plain, shifted_moments, enterAll_passing others outside (order.watched seen)]
  case reached =>
    rw [plain]
    exact order.reached
  case increasing => exact shifted_increasing order.increasing
  case each =>
    intro run member
    obtain ⟨later, laterMember, rfl⟩ := List.mem_map.mp member
    exact (order.each later laterMember).shift (Reaches.refl w) (fun inside => absurd inside outside)
  case complete =>
    intro j entry found inside given
    cases j with
    | zero =>
      cases found
      exact absurd inside outside
    | succ j =>
      obtain ⟨run, member, rfl⟩ := order.complete j entry found inside given
      exact ⟨_, List.mem_map.mpr ⟨run, member, rfl⟩, rfl⟩
  case freed =>
    intro j entry found inside
    cases j with
    | zero =>
      cases found
      exact absurd inside outside
    | succ j => exact order.freed j entry found inside
  case starts =>
    intro child started
    obtain ⟨run, member, starts⟩ := order.starts child started
    exact ⟨_, List.mem_map.mpr ⟨run, member, rfl⟩, starts⟩
  case past =>
    intro run member
    obtain ⟨later, laterMember, rfl⟩ := List.mem_map.mp member
    rw [plain]
    exact order.past later laterMember

theorem mem_moments (member : moment ∈ e.moments runner stage s w) :
    givenArgs stage ≠ [] ∧ moment.args = givenArgs stage ∧ moment.streams = Streams.ofFiles (stage.stdio.resolve e.std) ∧
      moment.world = w ∧ moment.returned = (e.enter runner stage s w).2.2 := by
  unfold moments at member
  split at member
  · cases member
  · rename_i given
    cases List.mem_singleton.mp member
    exact ⟨given, rfl, rfl, rfl, rfl⟩

theorem moments_given (given : givenArgs stage ≠ []) (e : Engine) (runner : Runner σ) (s : σ) (w : World) :
    ∃ moment, moment ∈ e.moments runner stage s w := by
  unfold moments
  rw [if_neg given]
  exact ⟨_, List.mem_singleton_self _⟩

-- A stage is given to the runner once at most.
theorem moments_once (e : Engine) (runner : Runner σ) (stage : Stage) (s : σ) (w : World) :
    e.moments runner stage s w = [] ∨ ∃ moment, e.moments runner stage s w = [moment] := by
  unfold moments
  split
  · exact .inl rfl
  · exact .inr ⟨_, rfl⟩

theorem moments_called (inside : stage.Inside) (member : moment ∈ e.moments runner stage s (w.note (.entered i))) :
    Called e i ((stage, progress) :: others) w 0 moment := by
  obtain ⟨given, args, streams, world, _⟩ := mem_moments member
  refine ⟨stage, progress, [], rfl, inside, given, args, streams, ?_, fun k _ wrong => absurd wrong (Nat.not_lt_zero k)⟩
  rw [world]
  exact note_reaches w (.entered i) (by simp)

-- From the mark to the release of the descriptors: what one stage of the loop asks of the world.
theorem enter_stage (honest : runner.Honest) (e : Engine) (i : Nat) (stage : Stage) (s : σ) (w : World) :
    ∃ calls, w.Reaches calls (stage.stdio.release (e.enter runner stage s (w.note (.entered i))).2.2).2.2 ∧
      Closes calls stage ∧
      (∀ child, .started child ∈ calls → ∃ moment ∈ e.moments runner stage s (w.note (.entered i)), moment.Starts child) ∧
      ∃ later, (stage.stdio.release (e.enter runner stage s (w.note (.entered i))).2.2).2.2.trace =
        later ++ (w.note (.entered i)).trace := by
  have marked := note_reaches w (.entered i) (by simp)
  obtain ⟨entering, entered, silent⟩ := enter_reaches honest e stage s (w.note (.entered i))
  obtain ⟨closing, released, only, closes, _⟩ := release_closes stage (e.enter runner stage s (w.note (.entered i))).2.2
  refine ⟨_, (marked.trans entered).trans released, closes.earlier _, ?_, _, (entered.trans released).trace⟩
  intro child started
  have during : .started child ∈ entering := by
    rcases List.mem_append.mp started with late | early
    · obtain ⟨f, wrong⟩ := only _ late
      cases wrong
    · simpa using early
  by_cases given : givenArgs stage = []
  · rw [silent given] at during
    cases during
  · obtain ⟨moment, member⟩ := moments_given given e runner s (w.note (.entered i))
    obtain ⟨_, _, _, world, returned⟩ := mem_moments member
    refine ⟨moment, member, entering, ?_, during⟩
    rw [world, returned]
    exact entered.trace

theorem InOrder.enter (honest : runner.Honest) (inside : stage.Inside)
    (ran : e.enter runner stage s (w.note (.entered i)) = (status, next, middle))
    (order : InOrder e runner (i + 1) others next (stage.stdio.release middle).2.2 runs calls) :
    ∃ earlier, InOrder e runner i ((stage, progress) :: others) s w
      ((e.moments runner stage s (w.note (.entered i))).map (0, ·) ++ shifted runs) (calls ++ earlier) := by
  obtain ⟨earlier, reached, closes, starts, since, passed⟩ := enter_stage honest e i stage s w
  have once := moments_once e runner stage s (w.note (.entered i))
  have plain : e.enterAll runner i ((stage, progress) :: others) s w =
      ((released stage, .done status) :: (e.enterAll runner (i + 1) others next (stage.stdio.release middle).2.2).1,
        (e.enterAll runner (i + 1) others next (stage.stdio.release middle).2.2).2) :=
    enterAll_running others inside ran rfl
  have watching := enter_watched e runner stage s
  rw [ran] at reached passed
  refine ⟨earlier, ?_⟩
  constructor
  case watched =>
    intro seen
    have entered := watching seen (w.note (.entered i))
    rw [ran] at entered
    rw [plain, enterAll_running others inside entered (order.watched _)]
    rcases once with none | ⟨moment, one⟩
    · simp [shifted_moments, none]
    · simp [shifted_moments, one]
  case reached =>
    rw [plain]
    exact reached.trans order.reached
  case increasing =>
    refine List.pairwise_append.mpr ⟨?_, shifted_increasing order.increasing, ?_⟩
    · rcases once with none | ⟨moment, one⟩
      · simp [none]
      · simp [one]
    · intro first member later laterMember
      obtain ⟨_, _, rfl⟩ := List.mem_map.mp member
      obtain ⟨run, _, rfl⟩ := List.mem_map.mp laterMember
      exact Nat.succ_pos run.1
  case each =>
    intro run member
    rcases List.mem_append.mp member with first | later
    · obtain ⟨moment, present, rfl⟩ := List.mem_map.mp first
      exact moments_called inside present
    · obtain ⟨run, present, rfl⟩ := List.mem_map.mp later
      exact (order.each run present).shift reached (fun _ => closes)
  case complete =>
    intro j entry found kind given
    cases j with
    | zero =>
      cases found
      obtain ⟨moment, member⟩ := moments_given given e runner s (w.note (.entered i))
      exact ⟨(0, moment), List.mem_append_left _ (List.mem_map_of_mem member), rfl⟩
    | succ j =>
      obtain ⟨run, member, rfl⟩ := order.complete j entry found kind given
      exact ⟨_, List.mem_append_right _ (List.mem_map.mpr ⟨run, member, rfl⟩), rfl⟩
  case freed =>
    intro j entry found kind
    cases j with
    | zero =>
      cases found
      exact closes.later calls
    | succ j => exact (order.freed j entry found kind).earlier earlier
  case starts =>
    intro child started
    rcases List.mem_append.mp started with late | early
    · obtain ⟨run, member, begins⟩ := order.starts child late
      exact ⟨_, List.mem_append_right _ (List.mem_map.mpr ⟨run, member, rfl⟩), begins⟩
    · obtain ⟨moment, member, begins⟩ := starts child early
      exact ⟨(0, moment), List.mem_append_left _ (List.mem_map.mpr ⟨moment, member, rfl⟩), begins⟩
  case past =>
    intro run member
    rw [plain]
    rcases List.mem_append.mp member with first | later
    · obtain ⟨moment, present, rfl⟩ := List.mem_map.mp first
      obtain ⟨_, _, _, world, _⟩ := mem_moments present
      refine ⟨calls ++ since, ?_⟩
      rw [world, order.reached.trace, passed, List.append_assoc]
    · obtain ⟨run, present, rfl⟩ := List.mem_map.mp later
      exact order.past run present

-- The whole loop: by induction on the stages that are left.
theorem enterAll_inOrder (honest : runner.Honest) (e : Engine) (i : Nat) (entries : List (Stage × Progress)) (s : σ)
    (w : World) : ∃ runs calls, InOrder e runner i entries s w runs calls := by
  induction entries generalizing i s w with
  | nil => exact ⟨[], [], fun _ => rfl, Reaches.refl w, .nil, by simp, by simp, by simp, by simp, by simp⟩
  | cons entry others ih =>
    obtain ⟨stage, progress⟩ := entry
    by_cases inside : stage.Inside
    · rcases ran : e.enter runner stage s (w.note (.entered i)) with ⟨status, next, middle⟩
      obtain ⟨runs, calls, order⟩ := ih (i + 1) next (stage.stdio.release middle).2.2
      obtain ⟨earlier, whole⟩ := order.enter honest inside ran
      exact ⟨_, _, whole⟩
    · obtain ⟨runs, calls, order⟩ := ih (i + 1) s w
      exact ⟨_, _, order.pass inside⟩

theorem enterAll_left (e : Engine) (runner : Runner σ) (i : Nat) (entries : List (Stage × Progress)) (s : σ) (w : World) :
    ∀ entry ∈ (e.enterAll runner i entries s w).1, entry.1.stdio = Stdio.inherit ∨ entry ∈ entries ∧ ¬entry.1.Inside := by
  induction entries generalizing i s w with
  | nil => simp [enterAll]
  | cons head others ih =>
    obtain ⟨stage, progress⟩ := head
    intro entry member
    by_cases inside : stage.Inside
    · rw [enterAll_running others inside rfl rfl] at member
      rcases List.mem_cons.mp member with rfl | later
      · exact .inl rfl
      · rcases ih _ _ _ entry later with empty | ⟨old, outside⟩
        · exact .inl empty
        · exact .inr ⟨List.mem_cons_of_mem _ old, outside⟩
    · rw [enterAll_passing others inside rfl] at member
      rcases List.mem_cons.mp member with rfl | later
      · exact .inr ⟨List.mem_cons_self, inside⟩
      · rcases ih _ _ _ entry later with empty | ⟨old, outside⟩
        · exact .inl empty
        · exact .inr ⟨List.mem_cons_of_mem _ old, outside⟩

end Engine
end LineShell
