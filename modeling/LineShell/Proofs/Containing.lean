import LineShell.Proofs.Collecting
import LineShell.Proofs.Refusals

namespace LineShell
open World

namespace Engine
variable {e : Engine} {runner : Runner σ} {table : Option (List Bytes)} {stage : Stage} {p : Pipeline} {w middle after : World}

-- The loop over the programs ends at stage number `k`. A pipeline with a command substitution does not get that far.
structure FailsAt (e : Engine) (table : Option (List Bytes)) (p : Pipeline) (w : World) (k : Nat) (path : Bytes)
    (cause : Cause) : Prop where
  accepted : p.rejectSubshells = none
  earlier : Clear e table p w k
  refused : ∃ stage command args begun, p.stages[k]? = some stage ∧ stage.kind = .external ∧
    (stripBackground stage.args).1 = command :: args ∧
    lookPath? (worldAt e table p w k) e.searchPath command = some path ∧
    (worldAt e table p w k).start path (command :: args) table (stage.stdio.resolve e.std) = (.error cause, begun)

-- What a run comes to whose stage number `k` does not start. `children` are the programs it waits for.
structure Contained (e : Engine) (table : Option (List Bytes)) (p : Pipeline) (w : World) (k : Nat) (path : Bytes)
    (cause : Cause) (children : List ChildId) (result : Result) (after : World) : Prop where
  status : result.status = 1
  fault : result.fault = some (.spawn path cause)
  emptied : ∀ f, held result.pipeline.stages f = 0
  foreground : ∀ child, child ∈ children ↔
    ∃ (j : Nat) (stage : Stage), j < k ∧ p.stages[j]? = some stage ∧ Starts e table p w j stage false child
  background : ∀ (j : Nat) stage child, j < k → p.stages[j]? = some stage → Starts e table p w j stage true child →
    child ∉ children
  increasing : children.Pairwise (· < ·)
  -- Up to the turn of stage number `k` programs were launched; after it files are closed, and then programs waited for.
  trace : ∃ launching closing,
    after.trace = (children.map Call.waited).reverse ++ .barrier :: (closing ++ .dispatched k :: (launching ++ w.trace)) ∧
    (worldAt e table p w k).trace = launching ++ w.trace ∧
    (∀ j, .entered j ∉ launching) ∧ (∀ child, .waited child ∉ launching) ∧
    (∀ call ∈ closing, ∃ f, call = .closed f) ∧
    ∀ stage ∈ p.stages, Closes (closing ++ .dispatched k :: launching) stage

-- The loop over the programs, in front of a stage and from it on.

theorem launchAll_append {front : List Stage} (clear : e.launchAll table i front w = (none, entries, middle)) (back : List Stage) :
    e.launchAll table i (front ++ back) w = ((e.launchAll table (i + front.length) back middle).1,
      entries ++ (e.launchAll table (i + front.length) back middle).2.1,
      (e.launchAll table (i + front.length) back middle).2.2) := by
  induction front generalizing i entries w with
  | nil =>
    cases clear
    rfl
  | cons head others ih =>
    have number : i + (head :: others).length = i + 1 + others.length := by
      rw [List.length_cons]
      omega
    rw [number, List.cons_append]
    by_cases external : head.kind = .external
    · rcases launched : e.launch table head w with ⟨result, begun⟩
      cases result with
      | error fault =>
        rw [launchAll_failing _ external launched] at clear
        cases clear
      | ok progress =>
        rw [launchAll_starting _ external launched rfl] at clear ⊢
        rcases later : e.launchAll table (i + 1) others (head.stdio.release (begun.note (.dispatched i))).2.2 with ⟨_, _, _⟩
        rw [later] at clear
        cases clear
        rw [ih later]
        rfl
    · rw [launchAll_passing _ external rfl] at clear ⊢
      rcases later : e.launchAll table (i + 1) others w with ⟨_, _, _⟩
      rw [later] at clear
      cases clear
      rw [ih later]
      rfl

-- Where it stops.
theorem launchAll_stopped {stages : List Stage} (stopped : (e.launchAll table i stages w).1 = some fault) :
    ∃ (k : Nat) (stage : Stage), stages[k]? = some stage ∧ stage.kind = .external ∧
      (e.launchAll table i (stages.take k) w).1 = none ∧
      (e.launch table stage (e.launchAll table i (stages.take k) w).2.2).1 = .error fault := by
  induction stages generalizing i w with
  | nil => cases stopped
  | cons head others ih =>
    by_cases external : head.kind = .external
    · rcases launched : e.launch table head w with ⟨result, begun⟩
      cases result with
      | error first =>
        rw [launchAll_failing others external launched] at stopped
        cases stopped
        exact ⟨0, head, rfl, external, rfl, congrArg (·.1) launched⟩
      | ok progress =>
        rw [launchAll_starting others external launched rfl] at stopped
        obtain ⟨k, stage, found, kind, clear, failed⟩ := ih stopped
        refine ⟨k + 1, stage, found, kind, ?_⟩
        rw [List.take_succ_cons, launchAll_starting _ external launched rfl]
        exact ⟨clear, failed⟩
    · rw [launchAll_passing others external rfl] at stopped
      obtain ⟨k, stage, found, kind, clear, failed⟩ := ih stopped
      refine ⟨k + 1, stage, found, kind, ?_⟩
      rw [List.take_succ_cons, launchAll_passing _ external rfl]
      exact ⟨clear, failed⟩

theorem FailsAt.launches (fails : FailsAt e table p w k path cause) : ∃ stage begun, p.stages[k]? = some stage ∧
    stage.kind = .external ∧ e.launch table stage (worldAt e table p w k) = (.error (.spawn path cause), begun) ∧
    (worldAt e table p w k).Reaches [] begun := by
  obtain ⟨stage, command, args, begun, found, external, given, located, refused⟩ := fails.refused
  refine ⟨stage, begun, found, external, ?_, start_refused refused⟩
  have split : stripBackground stage.args = (command :: args, (stripBackground stage.args).2) := Prod.ext given rfl
  unfold launch
  rw [split]
  dsimp only
  rw [located]
  dsimp only
  rw [refused]

theorem failsAt_of_launch (accepted : p.rejectSubshells = none) (found : p.stages[k]? = some stage)
    (external : stage.kind = .external) (clear : Clear e table p w k)
    (failed : (e.launch table stage (worldAt e table p w k)).1 = .error fault) :
    ∃ path cause, fault = .spawn path cause ∧ FailsAt e table p w k path cause := by
  have answered := e.launch_begun table stage (worldAt e table p w k)
  rw [failed] at answered
  generalize given : (stripBackground stage.args).1 = words at answered
  generalize (e.launch table stage (worldAt e table p w k)).2 = begun at answered
  cases answered with
  | refused words located refused =>
    subst words
    exact ⟨_, _, rfl, accepted, clear, stage, _, _, begun, found, external, given, located, refused⟩

-- The stages in front of number `k` are a pipeline of their own; nothing shows it before it runs.

def silent (e : Engine) : Engine := { e with debug := none }

theorem silent_launchAll (e : Engine) (table : Option (List Bytes)) (i : Nat) (stages : List Stage) (w : World) :
    e.silent.launchAll table i stages w = e.launchAll table i stages w := by
  induction stages generalizing i w with
  | nil => rfl
  | cons head others ih =>
    simp only [launchAll, ih]
    rfl

theorem worldAt_front (within : j ≤ k) :
    worldAt e.silent table ⟨p.stages.take k⟩ (e.dump p w) j = worldAt e table p w j := by
  unfold worldAt
  rw [silent_launchAll]
  dsimp only
  rw [List.take_take, Nat.min_eq_left within]
  rfl

theorem starts_front (within : j ≤ k) : Starts e.silent table ⟨p.stages.take k⟩ (e.dump p w) j stage background child ↔
    Starts e table p w j stage background child := by
  constructor
  · rintro ⟨external, marked, began⟩
    rw [worldAt_front within] at began
    exact ⟨external, marked, began⟩
  · rintro ⟨external, marked, began⟩
    rw [← worldAt_front within] at began
    exact ⟨external, marked, began⟩

theorem launchAll_front (launching : e.launchAll table 0 (p.stages.take k) (e.dump p w) = (none, entries, middle)) :
    e.silent.launchAll table 0 (p.stages.take k) (e.silent.dump ⟨p.stages.take k⟩ (e.dump p w)) = (none, entries, middle) :=
  (silent_launchAll e table 0 _ _).trans launching

theorem mem_foreground_front (launching : e.launchAll table 0 (p.stages.take k) (e.dump p w) = (none, entries, middle))
    (child : ChildId) : child ∈ foreground entries ↔
      ∃ (j : Nat) (stage : Stage), j < k ∧ p.stages[j]? = some stage ∧ Starts e table p w j stage false child := by
  rw [mem_foreground (p := ⟨p.stages.take k⟩) (launchAll_front launching)]
  constructor
  · rintro ⟨j, stage, found, starts⟩
    replace found : (p.stages.take k)[j]? = some stage := found
    have below : j < k := Nat.lt_of_lt_of_le (List.getElem?_eq_some_iff.mp found).1 (List.length_take_le k p.stages)
    rw [List.getElem?_take_of_lt below] at found
    exact ⟨j, stage, below, found, (starts_front (Nat.le_of_lt below)).mp starts⟩
  · rintro ⟨j, stage, below, found, starts⟩
    refine ⟨j, stage, ?_, (starts_front (Nat.le_of_lt below)).mpr starts⟩
    rw [List.getElem?_take_of_lt below, found]

theorem stoppedAt_trace (entries : List (Stage × Progress)) (w : World) :
    ∃ closing, (stoppedAt entries w).2.trace =
        ((foreground entries).map Call.waited).reverse ++ .barrier :: (closing ++ w.trace) ∧
      (∀ call ∈ closing, ∃ f, call = .closed f) ∧ ∀ entry ∈ entries, Closes closing entry.1 := by
  obtain ⟨closing, closed, only, closes⟩ := Pipeline.close_closes ⟨entries.map (·.1)⟩ w
  refine ⟨closing, ?_, only, fun entry member => closes _ (List.mem_map.mpr ⟨entry, member, rfl⟩)⟩
  have last := Pipeline.close_nothing _ (waitAll entries (Pipeline.close ⟨entries.map (·.1)⟩ w).2.2).2
    (Pipeline.held_closed ⟨entries.map (·.1)⟩ w)
  refine last.trace.trans ?_
  rw [List.nil_append, waitAll_trace, closed.trace]

theorem foreground_waiting (stages : List Stage) : foreground (stages.map (·, .waiting)) = [] := by
  refine List.filterMap_eq_nil_iff.mpr fun entry member => ?_
  obtain ⟨_, _, rfl⟩ := List.mem_map.mp member
  rfl

-- The loop up to the program that does not start. Every stage has let go of its files by then, or still has them.
structure Stopping (e : Engine) (table : Option (List Bytes)) (p : Pipeline) (w : World) (k : Nat)
    (front entries : List (Stage × Progress)) (ready : World) : Prop where
  launching : e.launchAll table 0 (p.stages.take k) (e.dump p w) = (none, front, worldAt e table p w k)
  waiting : foreground entries = foreground front
  trace : ∃ launching closing, ready.trace = closing ++ .dispatched k :: (launching ++ w.trace) ∧
    (worldAt e table p w k).trace = launching ++ w.trace ∧
    (∀ j, .entered j ∉ launching) ∧ (∀ child, .waited child ∉ launching) ∧
    (∀ call ∈ closing, ∃ f, call = .closed f) ∧
    ∀ stage ∈ p.stages, (∃ progress, (stage, progress) ∈ entries) ∨ Closes (closing ++ .dispatched k :: launching) stage

theorem FailsAt.stops (fails : FailsAt e table p w k path cause) : ∃ front entries ready,
    e.launchAll table 0 p.stages (e.dump p w) = (some (.spawn path cause), entries, ready) ∧
      Stopping e table p w k front entries ready := by
  obtain ⟨stage, begun, found, external, launched, begins⟩ := fails.launches
  have launching : e.launchAll table 0 (p.stages.take k) (e.dump p w) =
      (none, (e.launchAll table 0 (p.stages.take k) (e.dump p w)).2.1, worldAt e table p w k) := Prod.ext fails.earlier rfl
  generalize (e.launchAll table 0 (p.stages.take k) (e.dump p w)).2.1 = front at launching
  obtain ⟨inside, whose⟩ := List.getElem?_eq_some_iff.mp found
  have length : 0 + (p.stages.take k).length = k := by
    rw [List.length_take]
    omega
  have split : p.stages.take k ++ stage :: p.stages.drop (k + 1) = p.stages := by
    rw [← whose, ← List.drop_eq_getElem_cons inside, List.take_append_drop]
  have whole := launchAll_append launching (stage :: p.stages.drop (k + 1))
  rw [split, length, launchAll_failing _ external launched] at whole
  dsimp only at whole
  refine ⟨front, _, _, whole, launching, ?_, ?_⟩
  · have none : foreground ((released stage, .waiting) :: (p.stages.drop (k + 1)).map (·, .waiting)) = [] :=
      foreground_waiting (p.stages.drop (k + 1))
    refine List.filterMap_append.trans ?_
    exact (congrArg (foreground front ++ ·) none).trans (List.append_nil _)
  obtain ⟨closing, freed, only, closes, _⟩ := release_closes stage (begun.note (.dispatched k))
  obtain ⟨calls, first⟩ := launchAll_launched e table 0 (p.stages.take k) (e.dump p w)
  obtain ⟨same, reached, waitless⟩ := launchAll_waitless e table (p.stages.take k) 0 (e.dump p w)
  rw [launching] at first reached
  cases List.append_cancel_right (first.launching.reached.trace.symm.trans reached.trace)
  have before : (worldAt e table p w k).trace = calls ++ w.trace := by
    rw [reached.trace, (e.dump_quiet p w).reached.trace]
    rfl
  refine ⟨calls, closing, ?_, before, first.launching.outside, waitless, only, ?_⟩
  · rw [freed.trace, show (begun.note (.dispatched k)).trace = .dispatched k :: begun.trace from rfl, begins.trace, before]
    rfl
  · intro other member
    rw [← split] at member
    rcases List.mem_append.mp member with early | late
    · obtain ⟨j, there⟩ := List.mem_iff_getElem?.mp early
      rcases first.kept j other there with ⟨progress, kept⟩ | closed
      · exact .inl ⟨progress, List.mem_append_left _ (List.mem_of_getElem? kept)⟩
      · exact .inr ((closed.later [.dispatched k]).later closing)
    · rcases List.mem_cons.mp late with rfl | after
      · exact .inr (closes.earlier _)
      · refine .inl ⟨.waiting, List.mem_append_right _ (List.mem_cons_of_mem _ ?_)⟩
        exact List.mem_map.mpr ⟨other, after, rfl⟩

theorem FailsAt.contained (fails : FailsAt e table p w k path cause) : ∃ children result after,
    Contained e table p w k path cause children result after ∧
      ∀ (runner : Runner σ) s, runner.environ s = table → e.execute runner p s w = (result, s, after) := by
  obtain ⟨front, entries, ready, stopped, stopping⟩ := fails.stops
  refine ⟨foreground entries, ⟨1, some (.spawn path cause), (stoppedAt entries ready).1⟩, (stoppedAt entries ready).2, ?_, ?_⟩
  · constructor
    case status => rfl
    case fault => rfl
    case emptied => exact Pipeline.held_closed _ _
    case foreground =>
      rw [stopping.waiting]
      exact mem_foreground_front stopping.launching
    case background =>
      intro j stage child below found starts
      rw [stopping.waiting]
      have there : (p.stages.take k)[j]? = some stage := by rw [List.getElem?_take_of_lt below, found]
      apply background_apart (p := ⟨p.stages.take k⟩) (launchAll_front stopping.launching) there
      exact (starts_front (Nat.le_of_lt below)).mpr starts
    case increasing =>
      rw [stopping.waiting]
      exact foreground_increasing (p := ⟨p.stages.take k⟩) (launchAll_front stopping.launching)
    case trace =>
      obtain ⟨launching, first, trace, before, outside, waitless, only, left⟩ := stopping.trace
      obtain ⟨closing, whole, onlyCloses, closes⟩ := stoppedAt_trace entries ready
      refine ⟨launching, closing ++ first, ?_, before, outside, waitless, ?_, ?_⟩
      · rw [whole, trace, List.append_assoc]
      · intro call member
        exact (List.mem_append.mp member).elim (onlyCloses call) (only call)
      · intro stage member
        rw [List.append_assoc]
        rcases left stage member with ⟨progress, kept⟩ | closed
        · exact (closes _ kept).earlier _
        · exact closed.later closing
  · intro runner s given
    subst given
    exact execute_stopped fails.accepted stopped

-- A run whose program number `k` is found and does not start has the status one and names the program, whatever the commands
-- of the shell do: none of them is entered. And no run names a program for another reason.
theorem execute_contained (e : Engine) (runner : Runner σ) (p : Pipeline) (s : σ) (w : World) :
    (∀ k path cause, FailsAt e (runner.environ s) p w k path cause → ∃ children result after,
      Contained e (runner.environ s) p w k path cause children result after ∧
        ∀ other : Runner σ, other.environ s = runner.environ s → e.execute other p s w = (result, s, after)) ∧
    ∀ path cause, (e.execute runner p s w).1.fault = some (.spawn path cause) →
      ∃ k, FailsAt e (runner.environ s) p w k path cause := by
  constructor
  · intro k path cause fails
    obtain ⟨children, result, after, contained, runs⟩ := fails.contained
    exact ⟨children, result, after, contained, fun other same => runs other s same⟩
  · intro path cause failed
    cases accepted : p.rejectSubshells with
    | some fault =>
      obtain ⟨_, _, _, rfl⟩ := Pipeline.rejectStages_refusal p.stages accepted
      rw [execute_rejected accepted] at failed
      cases failed
    | none =>
      rcases launching : e.launchAll (runner.environ s) 0 p.stages (e.dump p w) with ⟨stopped, entries, ready⟩
      cases stopped with
      | some fault =>
        rw [execute_stopped accepted launching] at failed
        cases failed
        obtain ⟨k, stage, found, external, clear, failed⟩ := launchAll_stopped (congrArg (·.1) launching)
        obtain ⟨_, _, same, fails⟩ := failsAt_of_launch accepted found external clear failed
        cases same
        exact ⟨k, fails⟩
      | none =>
        rw [execute_finished accepted launching rfl] at failed
        cases failed

-- A program, an assignment, the program in the background, a file that is no program, and the program once more.

def plainSystem : World :=
  { Session.console [] with
    tree := (Tree.empty.add Tree.root (ascii "fail") (.utility .fail)).add Tree.root (ascii "plain") (.file (ascii "x") false) }

def plainLine : Except Fault Pipeline × World :=
  Session.compile Session.onConsole.expand (ascii "/fail | A=1 | /fail & | /plain | /fail") plainSystem

def plainPipeline : Pipeline := (plainLine.1.toOption.getD ⟨[]⟩).classify mixedRunner.isBuiltin

theorem execute_contained_plain : ∃ cause children result after,
    FailsAt Session.onConsole.engine (mixedRunner.environ Session.onConsole) plainPipeline plainLine.2 3 (ascii "/plain") cause ∧
      Session.onConsole.engine.execute mixedRunner plainPipeline Session.onConsole plainLine.2 =
        (result, Session.onConsole, after) ∧
      Contained Session.onConsole.engine (mixedRunner.environ Session.onConsole) plainPipeline plainLine.2 3 (ascii "/plain")
        cause children result after ∧
      after.trace.take 2 = [.waited 0, .barrier] := by
  have last : (Session.onConsole.engine.execute mixedRunner plainPipeline Session.onConsole plainLine.2).2.2.trace.take 2 =
      [.waited 0, .barrier] := by
    decide +kernel
  have refusal : (plainPipeline.stages[3]?).map (fun stage => (stage.kind, (Session.onConsole.engine.launch
      (mixedRunner.environ Session.onConsole) stage (worldAt Session.onConsole.engine (mixedRunner.environ Session.onConsole)
        plainPipeline plainLine.2 3)).1)) =
      some (.external, .error (.spawn (ascii "/plain") (.onPath (ascii "fork/exec") (ascii "/plain") (.errno 13)))) := by
    decide +kernel
  obtain ⟨stage, found, outcome⟩ := Option.map_eq_some_iff.mp refusal
  obtain ⟨external, failed⟩ := Prod.mk.inj outcome
  have clear : Clear Session.onConsole.engine (mixedRunner.environ Session.onConsole) plainPipeline plainLine.2 3 := by
    unfold Clear
    decide +kernel
  obtain ⟨path, cause, same, fails⟩ := failsAt_of_launch (by decide +kernel) found external clear failed
  cases same
  obtain ⟨children, result, after, contained, runs⟩ :=
    (execute_contained Session.onConsole.engine mixedRunner plainPipeline Session.onConsole plainLine.2).1 3 _ _ fails
  have executed := runs mixedRunner rfl
  rw [executed] at last
  exact ⟨_, children, result, after, fails, executed, contained, last⟩

end Engine
end LineShell
