import LineShell.Proofs.Entering
import LineShell.Proofs.Launching
import LineShell.Proofs.Wiring

namespace LineShell
open World

namespace Engine
variable {e : Engine} {runner : Runner σ} {table : Option (List Bytes)} {stage : Stage} {w middle after : World}

theorem waitEach_reaches (progress : List Progress) (w : World) :
    ∃ waits, w.Reaches waits (waitEach progress w).2 ∧ ∀ call ∈ waits, ∃ child, call = .waited child := by
  induction progress generalizing w with
  | nil => exact ⟨[], Reaches.refl w, by simp⟩
  | cons one others ih =>
    cases one with
    | waiting => exact ih w
    | done status => exact ih w
    | running child =>
      obtain ⟨waits, reached, only⟩ := ih (w.wait child).2
      refine ⟨waits ++ [.waited child], (wait_reaches w child).trans reached, ?_⟩
      intro call member
      rcases List.mem_append.mp member with late | early
      · exact only call late
      · exact ⟨child, by simpa using early⟩

theorem waitAll_reaches (entries : List (Stage × Progress)) (w : World) :
    ∃ waits, w.Reaches (waits ++ [.barrier]) (waitAll entries w).2 ∧ ∀ call ∈ waits, ∃ child, call = .waited child := by
  obtain ⟨waits, reached, only⟩ := waitEach_reaches (entries.map (·.2)) (w.note .barrier).settle
  have marked := (note_reaches w .barrier (by simp)).after_quiet (settle_quiet _).reached
  exact ⟨waits, marked.trans reached, only⟩

-- What is left is closed in front of the barrier, if a program did not start; behind it there is
-- nothing left to close.

theorem stoppedAt_reaches (entries : List (Stage × Progress)) (w : World) :
    ∃ waits closing, w.Reaches (waits ++ .barrier :: closing) (stoppedAt entries w).2 ∧
      (∀ call ∈ waits, ∃ child, call = .waited child) ∧ (∀ call ∈ closing, ∃ f, call = .closed f) ∧
      ∀ entry ∈ entries, Closes closing entry.1 := by
  obtain ⟨closing, closed, only, closes⟩ := Pipeline.close_closes ⟨entries.map (·.1)⟩ w
  obtain ⟨waits, waited, onlyWaits⟩ := waitAll_reaches entries (Pipeline.close ⟨entries.map (·.1)⟩ w).2.2
  have last := Pipeline.close_nothing _ (waitAll entries (Pipeline.close ⟨entries.map (·.1)⟩ w).2.2).2
    (Pipeline.held_closed ⟨entries.map (·.1)⟩ w)
  refine ⟨waits, closing, ?_, onlyWaits, only, fun entry member => closes _ (List.mem_map.mpr ⟨entry, member, rfl⟩)⟩
  have whole := (closed.trans waited).after_quiet last
  rwa [List.append_assoc, List.singleton_append] at whole

theorem finishedAt_reaches (entries : List (Stage × Progress)) (w : World)
    (empty : ∀ f, held (entries.map (·.1)) f = 0) :
    ∃ waits, w.Reaches (waits ++ [.barrier]) (finishedAt entries w).2 ∧ ∀ call ∈ waits, ∃ child, call = .waited child := by
  obtain ⟨waits, waited, onlyWaits⟩ := waitAll_reaches entries w
  exact ⟨waits, waited.after_quiet (Pipeline.close_nothing ⟨entries.map (·.1)⟩ _ empty), onlyWaits⟩

-- What holds when the runner is called for stage number `i`: the programs have been dealt with, and
-- they and the commands before have let go of their descriptors. So the shell has no end left to write
-- into a pipe the stage reads from.
structure RunnerCall (e : Engine) (table : Option (List Bytes)) (p : Pipeline) (w : World) (i : Nat) (moment : Moment) :
    Prop where
  asked : ∃ stage, p.stages[i]? = some stage ∧ stage.Inside ∧ givenArgs stage ≠ [] ∧ moment.args = givenArgs stage ∧
    moment.streams = Streams.ofFiles (stage.stdio.resolve e.std)
  dispatched : ∀ (j : Nat) other, p.stages[j]? = some other → other.kind = .external →
    Dispatched e table 0 p.stages (e.dump p w) j other moment.world
  released : ∃ calls, w.Reaches (.entered i :: calls) moment.world ∧
    ∀ (j : Nat) other, p.stages[j]? = some other → other.kind = .external ∨ j < i → Closes calls other
  drained : ∀ pipes, p.Wired pipes w → ∀ stage reader writer, p.stages[i]? = some stage →
    stage.stdio.get .input = some reader → .piped reader writer ∈ pipes → moment.world.isClosed writer = some true

-- A file that was there stays closed, or is closed by a call.
theorem isClosed_of_reached (reached : w.Reaches calls after) (present : f < w.files.size)
    (closed : w.isClosed f = some true ∨ .closed f ∈ calls) : after.isClosed f = some true := by
  rw [reached.flags f present]
  split
  · rfl
  · rename_i never
    rcases closed with before | now
    · exact before
    · exact absurd now never

theorem drained_of_released {p : Pipeline} (reached : w.Reaches (.entered i :: calls) after)
    (closes : ∀ (j : Nat) other, p.stages[j]? = some other → other.kind = .external ∨ j < i → Closes calls other) :
    ∀ pipes, p.Wired pipes w → ∀ stage reader writer, p.stages[i]? = some stage →
      stage.stdio.get .input = some reader → .piped reader writer ∈ pipes → after.isClosed writer = some true := by
  intro pipes wired stage reader writer found reads piped
  obtain ⟨present, closed | ⟨j, other, slot, before, foundOther, owns⟩⟩ := wired i stage reader writer found reads piped
  · exact isClosed_of_reached reached present (.inl closed)
  · have now := closes j other foundOther (.inr before) slot writer owns
    exact isClosed_of_reached reached present (.inr (by simp [now]))

-- A stage is a program or one of the runner's.
def Sorted (p : Pipeline) : Prop := ∀ stage ∈ p.stages, stage.kind = .external ∨ stage.Inside

theorem classify_sorted (q : Pipeline) (isBuiltin : Bytes → Bool) : Sorted (q.classify isBuiltin) := by
  intro stage member
  obtain ⟨old, _, rfl⟩ := List.mem_map.mp member
  unfold Stage.Inside StageKind.classify
  split
  · exact .inl rfl
  · split
    · exact .inr (.inl rfl)
    · split
      · exact .inr (.inr rfl)
      · exact .inl rfl

-- The commands of the shell keep their place and their descriptors while programs are dealt with.

theorem afterLaunch_inside (inside : (afterLaunch stage).Inside) : afterLaunch stage = stage := by
  unfold afterLaunch at inside ⊢
  split
  · rename_i external
    rw [if_pos external] at inside
    exact absurd external inside.not_external
  · rfl

theorem stage_of_entry {j : Nat} {entries : List (Stage × Progress)} {stages : List Stage}
    (shape : entries.map (·.1) = stages.map afterLaunch) (found : entries[j]? = some (stage, progress))
    (inside : stage.Inside) : stages[j]? = some stage := by
  have mapped : (entries.map (·.1))[j]? = some stage := by simp [found]
  rw [shape, List.getElem?_map] at mapped
  obtain ⟨old, foundOld, rfl⟩ := Option.map_eq_some_iff.mp mapped
  rw [afterLaunch_inside inside]
  exact foundOld

theorem entry_of_stage {j : Nat} {entries : List (Stage × Progress)} {stages : List Stage}
    (shape : entries.map (·.1) = stages.map afterLaunch) (found : stages[j]? = some stage) (inside : stage.Inside) :
    ∃ progress, entries[j]? = some (stage, progress) := by
  have mapped : (stages.map afterLaunch)[j]? = some stage := by simp [found, afterLaunch, inside.not_external]
  rw [← shape, List.getElem?_map] at mapped
  obtain ⟨⟨same, progress⟩, foundEntry, rfl⟩ := Option.map_eq_some_iff.mp mapped
  exact ⟨progress, foundEntry⟩

theorem runnerCall_of_called {p : Pipeline} (sorted : Sorted p)
    (launched : Launched e table 0 p.stages (e.dump p w) earlier none entries after)
    (called : Called e 0 entries after i moment) : RunnerCall e table p w i moment := by
  obtain ⟨shape, dispatched⟩ := launched.finished rfl
  obtain ⟨stage, progress, calls, found, inside, given, args, streams, entered, closed⟩ := called
  rw [Nat.zero_add] at entered
  have reached : w.Reaches (.entered i :: (calls ++ earlier)) moment.world :=
    ((e.dump_quiet p w).reached.before_quiet launched.launching.reached).trans entered
  have closes : ∀ (j : Nat) other, p.stages[j]? = some other → other.kind = .external ∨ j < i →
      Closes (calls ++ earlier) other := by
    intro j other foundOther which
    rcases sorted other (List.mem_of_getElem? foundOther) with external | insideOther
    · exact (dispatched j other foundOther external).2.later calls
    · have before : j < i := by
        rcases which with external | before
        · exact absurd external insideOther.not_external
        · exact before
      obtain ⟨otherProgress, entry⟩ := entry_of_stage shape foundOther insideOther
      exact (closed j _ before entry insideOther).earlier earlier
  refine ⟨⟨stage, stage_of_entry shape found inside, inside, given, args, streams⟩, ?_, ⟨_, reached, closes⟩,
    drained_of_released reached closes⟩
  intro j other foundOther external
  exact (dispatched j other foundOther external).1.later entered

-- A run of a pipeline, as it looks from outside. `runs` are the calls of the runner, in the order they
-- were made, each with the number of its stage.
structure Ordered (e : Engine) (runner : Runner σ) (p : Pipeline) (s : σ) (w : World) (runs : List (Nat × Moment))
    (fault : Option Fault) (after : World) : Prop where
  increasing : runs.Pairwise (fun earlier later => earlier.1 < later.1)
  each : ∀ run ∈ runs, RunnerCall e (runner.environ s) p w run.1 run.2
  complete : fault = none → ∀ (i : Nat) stage, p.stages[i]? = some stage → stage.Inside → givenArgs stage ≠ [] →
    ∃ run ∈ runs, run.1 = i
  barrier : p.rejectSubshells = none → ∃ waits calls, after.trace = waits ++ .barrier :: (calls ++ w.trace) ∧
    (∀ call ∈ waits, ∃ child, call = .waited child) ∧ (∀ stage ∈ p.stages, Closes calls stage) ∧
    ∀ run ∈ runs, ∃ later, calls ++ w.trace = later ++ run.2.world.trace
  rejected : p.rejectSubshells.isSome = true → runs = [] ∧
    ∃ calls, after.trace = calls ++ w.trace ∧ ∀ call ∈ calls, ∃ f, call = .closed f
  children : ∃ calls, after.trace = calls ++ w.trace ∧ ∀ child, .started child ∈ calls →
    (∃ run ∈ runs, run.2.Starts child) ∨
      after.surroundings child = some (w.cwd, dedupe ((runner.environ s).getD w.environ))

theorem rejected_ordered {p : Pipeline} (e : Engine) (runner : Runner σ) (s : σ) (w : World)
    (refused : p.rejectSubshells = some fault) : Ordered e runner p s w [] (some fault) (p.close w).2.2 := by
  obtain ⟨calls, reached, only, _⟩ := p.close_closes w
  refine ⟨.nil, by simp, by simp, ?_, fun _ => ⟨rfl, calls, reached.trace, only⟩, calls, reached.trace, ?_⟩
  · intro clean
    rw [refused] at clean
    cases clean
  · intro child started
    obtain ⟨f, wrong⟩ := only _ started
    cases wrong

-- Behind the barrier programs are only waited for.
theorem started_before_barrier {waits calls : List Call} (onlyWaits : ∀ call ∈ waits, ∃ child, call = .waited child)
    (started : .started k ∈ waits ++ .barrier :: calls) : .started k ∈ calls := by
  rcases List.mem_append.mp started with late | early
  · obtain ⟨child, wrong⟩ := onlyWaits _ late
    cases wrong
  · simpa using early

-- A program that does not start: what is left is closed before the programs started so far are
-- waited for.
theorem stopped_ordered {p : Pipeline} (clean : p.rejectSubshells = none)
    (launched : Launched e (runner.environ s) 0 p.stages (e.dump p w) earlier (some fault) entries after) :
    Ordered e runner p s w [] (some fault) (stoppedAt entries after).2 := by
  have launching := launched.launching.before_quiet (e.dump_quiet p w)
  obtain ⟨waits, closing, stopped, onlyWaits, only, closes⟩ := stoppedAt_reaches entries after
  have trace : (stoppedAt entries after).2.trace = (waits ++ .barrier :: (closing ++ earlier)) ++ w.trace := by
    simpa using (launching.reached.trans stopped).trace
  refine ⟨.nil, by simp, by simp, ?_, by simp [clean], _, trace, ?_⟩
  · intro _
    refine ⟨waits, closing ++ earlier, by simpa using trace, onlyWaits, ?_, by simp⟩
    intro stage member
    obtain ⟨j, found⟩ := List.mem_iff_getElem?.mp member
    rcases launched.kept j stage found with ⟨progress, kept⟩ | freed
    · exact (closes _ (List.mem_of_getElem? kept)).earlier earlier
    · exact freed.later closing
  · intro child started
    rcases List.mem_append.mp (started_before_barrier onlyWaits started) with late | early
    · obtain ⟨f, wrong⟩ := only _ late
      cases wrong
    · exact .inr (stopped.programs child _ (launching.children child early))

-- At the end of both loops no stage is left with a descriptor.
theorem held_left {p : Pipeline} (sorted : Sorted p) (shape : entries.map (·.1) = p.stages.map afterLaunch)
    (ran : e.enterAll runner 0 entries s w = (left, next, after)) (f : FileId) : held (left.map (·.1)) f = 0 := by
  refine held_none _ ?_ f
  intro stage member
  obtain ⟨entry, present, rfl⟩ := List.mem_map.mp member
  have kinds := enterAll_left e runner 0 entries s w entry
  rw [ran] at kinds
  rcases kinds present with empty | ⟨old, outside⟩
  · exact empty
  · have mapped : entry.1 ∈ p.stages.map afterLaunch := by
      rw [← shape]
      exact List.mem_map.mpr ⟨entry, old, rfl⟩
    obtain ⟨before, beforeMember, same⟩ := List.mem_map.mp mapped
    rw [← same] at outside ⊢
    unfold afterLaunch at outside ⊢
    rcases sorted before beforeMember with external | inside
    · rw [if_pos external]
      rfl
    · rw [if_neg inside.not_external] at outside
      exact absurd inside outside

theorem finished_ordered {p : Pipeline} (sorted : Sorted p) (clean : p.rejectSubshells = none)
    (launched : Launched e (runner.environ s) 0 p.stages (e.dump p w) earlier none entries ready)
    (order : InOrder e runner 0 entries s ready runs calls) (ran : e.enterAll runner 0 entries s ready = (left, next, after)) :
    Ordered e runner p s w runs none (finishedAt left after).2 := by
  have launching := launched.launching.before_quiet (e.dump_quiet p w)
  obtain ⟨shape, dispatched⟩ := launched.finished rfl
  obtain ⟨waits, finished, onlyWaits⟩ := finishedAt_reaches left after (held_left sorted shape ran)
  have reached := order.reached
  have past := order.past
  rw [ran] at reached past
  have trace : (finishedAt left after).2.trace = (waits ++ .barrier :: (calls ++ earlier)) ++ w.trace := by
    simpa using ((launching.reached.trans reached).trans finished).trace
  refine ⟨order.increasing, ?_, ?_, ?_, by simp [clean], _, trace, ?_⟩
  · intro run member
    exact runnerCall_of_called sorted launched (order.each run member)
  · intro _ i stage found inside given
    obtain ⟨progress, entry⟩ := entry_of_stage shape found inside
    exact order.complete i _ entry inside given
  · intro _
    refine ⟨waits, calls ++ earlier, by simpa using trace, onlyWaits, ?_, ?_⟩
    · intro stage member
      obtain ⟨j, found⟩ := List.mem_iff_getElem?.mp member
      rcases sorted stage member with external | inside
      · exact (dispatched j stage found external).2.later calls
      · obtain ⟨progress, entry⟩ := entry_of_stage shape found inside
        exact (order.freed j _ entry inside).earlier earlier
    · intro run member
      obtain ⟨later, before⟩ := past run member
      exact ⟨later, (launching.reached.trans reached).trace.symm.trans before⟩
  · intro child started
    rcases List.mem_append.mp (started_before_barrier onlyWaits started) with late | early
    · exact .inl (order.starts child late)
    · exact .inr ((reached.trans finished).programs child _ (launching.children child early))

-- The watched run is the run itself, and shows these calls of the runner, each with the number of its stage.
def Watches (e : Engine) (runner : Runner σ) (p : Pipeline) (s : σ) (w : World) (runs : List (Nat × Moment)) : Prop :=
  e.execute runner.watched p (s, []) w =
    ((e.execute runner p s w).1, ((e.execute runner p s w).2.1, (runs.map (·.2)).reverse), (e.execute runner p s w).2.2)

theorem execute_watched (e : Engine) (honest : runner.Honest) {p : Pipeline} (sorted : Sorted p) (s : σ) (w : World) :
    ∃ runs, Watches e runner p s w runs ∧
      Ordered e runner p s w runs (e.execute runner p s w).1.fault (e.execute runner p s w).2.2 := by
  unfold Watches
  cases clean : p.rejectSubshells with
  | some fault =>
    rw [execute_rejected clean, execute_rejected clean]
    exact ⟨[], rfl, rejected_ordered e runner s w clean⟩
  | none =>
    obtain ⟨earlier, launched⟩ := launchAll_launched e (runner.environ s) 0 p.stages (e.dump p w)
    rcases launching : e.launchAll (runner.environ s) 0 p.stages (e.dump p w) with ⟨stopped, entries, ready⟩
    rw [launching] at launched
    cases stopped with
    | some fault =>
      have watched : e.execute runner.watched p (s, []) w = _ := execute_stopped clean launching
      rw [execute_stopped clean launching, watched]
      exact ⟨[], rfl, stopped_ordered clean launched⟩
    | none =>
      obtain ⟨runs, calls, order⟩ := enterAll_inOrder honest e 0 entries s ready
      rcases ran : e.enterAll runner 0 entries s ready with ⟨left, next, after⟩
      have watching := order.watched []
      rw [ran] at watching
      have watched : e.execute runner.watched p (s, []) w = _ := execute_finished clean launching watching
      rw [execute_finished clean launching ran, watched, List.append_nil]
      exact ⟨runs, rfl, finished_ordered sorted clean launched order ran⟩

-- A pipeline is run in order, whatever becomes of its programs: the watched run is the run itself, the
-- calls of the runner it shows come in stage order, and each of them finds what it needs. The pipelines
-- of lines are wired, so a command that reads from a pipe comes to its end.
theorem execute_ordered (e : Engine) {runner : Runner σ} (honest : runner.Honest) (q : Pipeline) (s : σ) (w : World) :
    (∃ runs, e.execute runner.watched (q.classify runner.isBuiltin) (s, []) w =
        ((e.execute runner (q.classify runner.isBuiltin) s w).1,
          ((e.execute runner (q.classify runner.isBuiltin) s w).2.1, (runs.map (·.2)).reverse),
          (e.execute runner (q.classify runner.isBuiltin) s w).2.2) ∧
      Ordered e runner (q.classify runner.isBuiltin) s w runs
        (e.execute runner (q.classify runner.isBuiltin) s w).1.fault
        (e.execute runner (q.classify runner.isBuiltin) s w).2.2) ∧
    ∀ expand line before compiled after calls, Session.compile expand line before = (.ok compiled, after) →
      after.trace = calls ++ before.trace → (compiled.classify runner.isBuiltin).Wired calls after := by
  refine ⟨?_, fun expand line before compiled after calls done reached =>
    Session.compile_wired expand runner.isBuiltin done reached⟩
  exact execute_watched e honest (classify_sorted q runner.isBuiltin) s w

theorem runs_args {runs : List (Nat × Moment)} {run : Result × (σ × List Moment) × World}
    (watched : run = (result, (next, (runs.map (·.2)).reverse), after)) :
    (run.2.1.2.map (·.args)).reverse = runs.map (fun call => call.2.args) := by
  subst watched
  simp [Function.comp_def]

-- A line of two assignments around a program that does not exist, compiled and ready to run.

def mixedLine : Except Fault Pipeline × World :=
  Session.compile Session.onConsole.expand (ascii "A=1 | nosuch | B=2 > f") (Session.console [])

def mixedPipeline : Pipeline := mixedLine.1.toOption.getD ⟨[]⟩

def mixedRunner : Runner Session := Session.runner (Session.runScriptAt Session.maxDepth)

theorem execute_ordered_mixed :
    mixedRunner.Honest ∧
    ∃ runs, runs.map (fun call => call.2.args) = [[ascii "A=1"], [ascii "B=2"]] ∧
      Ordered Session.onConsole.engine mixedRunner (mixedPipeline.classify mixedRunner.isBuiltin) Session.onConsole
        mixedLine.2 runs
        (Session.onConsole.engine.execute mixedRunner (mixedPipeline.classify mixedRunner.isBuiltin) Session.onConsole
          mixedLine.2).1.fault
        (Session.onConsole.engine.execute mixedRunner (mixedPipeline.classify mixedRunner.isBuiltin) Session.onConsole
          mixedLine.2).2.2 := by
  have honest : mixedRunner.Honest := (Session.runner_tidy (Session.runScriptAt_tidy Session.maxDepth)).honest
  have shown : ((Session.onConsole.engine.execute mixedRunner.watched (mixedPipeline.classify mixedRunner.isBuiltin)
      (Session.onConsole, []) mixedLine.2).2.1.2.map (·.args)).reverse = [[ascii "A=1"], [ascii "B=2"]] := by
    decide +kernel
  obtain ⟨⟨runs, watched, ordered⟩, _⟩ :=
    execute_ordered Session.onConsole.engine honest mixedPipeline Session.onConsole mixedLine.2
  exact ⟨honest, runs, (runs_args watched).symm.trans shown, ordered⟩

end Engine
end LineShell
