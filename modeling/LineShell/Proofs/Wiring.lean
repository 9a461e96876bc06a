import LineShell.Proofs.Descriptors

namespace LineShell
open World

-- For each of the pipes that a stage reads from: its other end is closed, or a stage before owns it.
def Pipeline.Wired (p : Pipeline) (pipes : List Call) (w : World) : Prop :=
  ∀ (i : Nat) stage reader writer, p.stages[i]? = some stage → stage.stdio.get .input = some reader →
    .piped reader writer ∈ pipes → writer < w.files.size ∧
      (w.isClosed writer = some true ∨
        ∃ j other slot, j < i ∧ p.stages[j]? = some other ∧ other.stdio.get slot = some writer)

-- Who owns the one end of a pipe comes right before who owns the other, and reads from that.
def Chained (pipes : List Call) (stages : List Stage) : Prop :=
  ∀ (i j : Nat) stage other slot own reader writer, stages[i]? = some stage → stage.stdio.get slot = some writer →
    .piped reader writer ∈ pipes → stages[j]? = some other → other.stdio.get own = some reader →
      j = i + 1 ∧ own = .input

section
variable {start w after : World}

theorem exists_of_held (stages : List Stage) (owing : 0 < held stages f) :
    ∃ (j : Nat) (stage : Stage) (slot : Slot), stages[j]? = some stage ∧ stage.stdio.get slot = some f := by
  induction stages with
  | nil => cases owing
  | cons stage others ih =>
    rw [held_cons] at owing
    by_cases here : stage.stdio.refers f = true
    · obtain ⟨slot, found⟩ := (Stdio.refers_iff _ f).mp here
      exact ⟨0, stage, slot, rfl, found⟩
    · have none : stage.stdio.holds f = 0 := by simp [Stdio.holds, here]
      obtain ⟨j, other, slot, found, filled⟩ := ih (by omega)
      exact ⟨j + 1, other, slot, found, filled⟩

-- A file has one origin: what a redirection opened is no end of a pipe.
theorem opened_ne_piped (calls : List Call) (distinct : (made calls).Nodup) (opened : .opened f ∈ calls)
    (piped : .piped reader writer ∈ calls) : f ≠ reader ∧ f ≠ writer := by
  induction calls with
  | nil => cases opened
  | cons call earlier ih =>
    rw [made_cons, List.nodup_append] at distinct
    obtain ⟨_, distinctEarlier, apart⟩ := distinct
    have makes : ∀ call ∈ earlier, ∀ g ∈ call.makes, g ∈ made earlier :=
      fun call member g made => List.mem_flatMap.mpr ⟨call, member, made⟩
    rcases List.mem_cons.mp opened with rfl | openedEarlier
    · rcases List.mem_cons.mp piped with wrong | pipedEarlier
      · cases wrong
      · exact ⟨apart f (by simp [Call.makes]) reader (makes _ pipedEarlier _ (by simp [Call.makes])),
          apart f (by simp [Call.makes]) writer (makes _ pipedEarlier _ (by simp [Call.makes]))⟩
    · rcases List.mem_cons.mp piped with rfl | pipedEarlier
      · exact ⟨(apart reader (by simp [Call.makes]) f (makes _ openedEarlier _ (by simp [Call.makes]))).symm,
          (apart writer (by simp [Call.makes]) f (makes _ openedEarlier _ (by simp [Call.makes]))).symm⟩
      · exact ih distinctEarlier openedEarlier pipedEarlier

namespace Redirection

-- What redirections do to the slots of a stage: they fill them with files they open, and make no pipes.
def Refilled (s : Stdio) (w : World) (filled : Stdio) (after : World) : Prop :=
  ∃ calls, after.trace = calls ++ w.trace ∧ (∀ reader writer, .piped reader writer ∉ calls) ∧
    ∀ slot f, filled.get slot = some f → s.get slot = some f ∨ .opened f ∈ calls

theorem Refilled.refl (s : Stdio) (w : World) : Refilled s w s w := ⟨[], rfl, by simp, fun _ _ here => .inl here⟩

theorem Refilled.trans (first : Refilled s w filled middle) (second : Refilled filled middle last after) :
    Refilled s w last after := by
  obtain ⟨earlier, trace, none, kept⟩ := first
  obtain ⟨later, traceLater, noneLater, keptLater⟩ := second
  refine ⟨later ++ earlier, by rw [traceLater, trace, List.append_assoc], ?_, ?_⟩
  · intro reader writer member
    rcases List.mem_append.mp member with late | early
    · exact noneLater _ _ late
    · exact none _ _ early
  · intro slot f here
    rcases keptLater slot f here with old | new
    · rcases kept slot f old with older | opened
      · exact .inl older
      · exact .inr (List.mem_append_right _ opened)
    · exact .inr (List.mem_append_left _ new)

theorem fill_slots (f : FileId) (slots : List Slot) (s : Stdio) (w : World) (slot : Slot) (g : FileId)
    (here : (fill f slots s w).2.1.get slot = some g) : s.get slot = some g ∨ g = f := by
  induction slots generalizing s w with
  | nil => exact .inl here
  | cons next others ih =>
    have replaced := (s.replace_closing next (some f) w).1
    have set : ∀ g, (s.set next (some f)).get slot = some g → s.get slot = some g ∨ g = f := by
      intro g found
      by_cases same : slot = next
      · subst same
        rw [Triple.get_set_self] at found
        cases found
        exact .inr rfl
      · rw [Triple.get_set_of_ne s (some f) same] at found
        exact .inl found
    unfold fill at here
    split at here
    · rename_i e filled after stuck
      rw [stuck] at replaced
      cases replaced
      exact set g here
    · rename_i filled after done
      rw [done] at replaced
      cases replaced
      rcases ih _ _ here with old | new
      · exact set g old
      · exact .inr new

theorem place_refilled (path : Bytes) (s : Stdio) (w : World) (found : slots? operator = some slots) :
    Refilled s w (place operator path slots s w).2.1 (place operator path slots s w).2.2 := by
  unfold place
  split
  · rename_i fault after refused
    obtain ⟨mode, e, refused, _⟩ := openTarget_error refused
    exact ⟨[], (openFile_refused refused).trace, by simp, fun _ _ here => .inl here⟩
  · rename_i f after opening
    obtain ⟨mode, opened⟩ := openTarget_ok opening
    have reached := (openFile_reaches opened).1
    obtain ⟨paid, ⟨⟨closing, closed, only, _⟩, _⟩, _⟩ := fill_closing f slots s after (.inl (slots?_nonempty found))
    refine ⟨closing ++ [.opened f], by rw [closed.trace, reached.trace, List.append_assoc], ?_, ?_⟩
    · intro reader writer member
      rcases List.mem_append.mp member with late | early
      · obtain ⟨g, wrong⟩ := only _ late
        cases wrong
      · simp at early
    · intro slot g here
      rcases fill_slots f slots s after slot g here with old | rfl
      · exact .inl old
      · exact .inr (by simp)

theorem Applying.refilled (run : Applying expand args s w result) : Refilled s w result.2.1 result.2.2 := by
  induction run with
  | word token others s w single plain result filled after later ih => exact ih
  | stuck token s w single slots found target others plain clean fault filled after failed =>
    have placed := place_refilled (expand target) s w found
    rwa [failed] at placed
  | placed token s w single slots found target others plain clean filled after done later ih =>
    have placed := place_refilled (expand target) s w found
    rw [done] at placed
    exact placed.trans ih
  | _ => exact Refilled.refl _ _

theorem applyStage_refilled (expand : Bytes → Bytes) (stage : Stage) (w : World) :
    Refilled stage.stdio w (applyStage expand stage w).2.1.stdio (applyStage expand stage w).2.2 := by
  have applied := (applying expand (combine stage.args) stage.stdio w).refilled
  unfold applyStage
  split
  · rename_i fault slots after failed
    rwa [failed] at applied
  · rename_i kept slots after done
    rwa [done] at applied

-- The same for all stages: each slot of the result is as it was or holds a file opened since.
theorem applyStages_refilled (expand : Bytes → Bytes) (stages : List Stage) (w : World) :
    ∃ calls, (applyStages expand stages w).2.2.trace = calls ++ w.trace ∧
      (∀ reader writer, .piped reader writer ∉ calls) ∧
      ∀ (j : Nat) changed, (applyStages expand stages w).2.1[j]? = some changed →
        ∃ stage : Stage, stages[j]? = some stage ∧
          ∀ slot f, changed.stdio.get slot = some f → stage.stdio.get slot = some f ∨ .opened f ∈ calls := by
  induction stages generalizing w with
  | nil => exact ⟨[], rfl, by simp, fun j changed found => ⟨changed, found, fun _ _ here => .inl here⟩⟩
  | cons stage others ih =>
    have refilled := applyStage_refilled expand stage w
    unfold applyStages
    revert refilled
    rcases applyStage expand stage w with ⟨result, changed, middle⟩
    rintro ⟨earlier, trace, none, kept⟩
    cases result with
    | some fault =>
      refine ⟨earlier, trace, none, ?_⟩
      intro j other found
      cases j with
      | zero =>
        cases found
        exact ⟨stage, rfl, kept⟩
      | succ j => exact ⟨other, found, fun _ _ here => .inl here⟩
    | none =>
      obtain ⟨later, traceLater, noneLater, keptLater⟩ := ih middle
      refine ⟨later ++ earlier, ?_, ?_, ?_⟩
      · dsimp only
        rw [traceLater, trace, List.append_assoc]
      · intro reader writer member
        rcases List.mem_append.mp member with late | early
        · exact noneLater _ _ late
        · exact none _ _ early
      · intro j other found
        cases j with
        | zero =>
          cases found
          refine ⟨stage, rfl, fun slot f here => ?_⟩
          rcases kept slot f here with old | new
          · exact .inl old
          · exact .inr (List.mem_append_right _ new)
        | succ j =>
          obtain ⟨before, same, slots⟩ := keptLater j other found
          refine ⟨before, same, fun slot f here => ?_⟩
          rcases slots slot f here with old | new
          · exact .inl old
          · exact .inr (List.mem_append_left _ new)

end Redirection

namespace Pipeline

-- The calls that make the pipes of a line, when the first pipe gets the numbers `n` and `n + 1`.
def pipesFrom (n : Nat) : Nat → List Call
  | 0 => []
  | count + 1 => pipesFrom (n + 2) count ++ [.piped n (n + 1)]

theorem mem_pipesFrom {reader writer : Nat} (member : .piped reader writer ∈ pipesFrom n count) :
    ∃ k, reader = n + 2 * k ∧ writer = n + 2 * k + 1 := by
  induction count generalizing n with
  | zero => cases member
  | succ count ih =>
    rcases List.mem_append.mp member with later | first
    · obtain ⟨k, rfl, rfl⟩ := ih later
      exact ⟨k + 1, by omega, by omega⟩
    · cases List.mem_singleton.mp first
      exact ⟨0, rfl, rfl⟩

-- The slots of stage number `j` of stages that have been connected, the first of which reads from `input`.
def connectedSlots (input : Option FileId) (n count j : Nat) : Stdio :=
  ⟨if j = 0 then input else some (n + 2 * (j - 1)), if j < count then some (n + 2 * j + 1) else none, none⟩

-- The stages behind the first are connected as if the line began with them.
theorem connectedSlots_next (input : Option FileId) (n count j : Nat) :
    connectedSlots (some n) (n + 2) count j = connectedSlots input n (count + 1) (j + 1) := by
  have writes : n + 2 + 2 * j + 1 = n + 2 * (j + 1) + 1 := by omega
  cases j with
  | zero => simp [connectedSlots]
  | succ j =>
    have reads : n + 2 + 2 * j = n + 2 * (j + 1) := by omega
    simp [connectedSlots, writes, reads]

theorem connectedSlots_get {n count f : Nat} (here : (connectedSlots none n count j).get slot = some f) :
    slot = .input ∧ 0 < j ∧ f = n + 2 * (j - 1) ∨ slot = .output ∧ f = n + 2 * j + 1 := by
  cases slot with
  | input =>
    cases j with
    | zero => cases here
    | succ j => exact .inl ⟨rfl, j.succ_pos, (Option.some.inj here).symm⟩
  | output =>
    replace here : (if j < count then some (n + 2 * j + 1) else none) = some f := here
    split at here
    · exact .inr ⟨rfl, (Option.some.inj here).symm⟩
    · cases here
  | error => cases here

theorem connect_connected {first : Stage} {stages : List Stage} (others : List Stage) (w : World)
    (reads : first.stdio = ⟨input, none, none⟩)
    (empty : ∀ stage ∈ others, stage.stdio = Stdio.inherit) (made : connect first others w = (none, stages, after)) :
    after.trace = pipesFrom w.files.size others.length ++ w.trace ∧
      ∀ (j : Nat) stage, stages[j]? = some stage → stage.stdio = connectedSlots input w.files.size others.length j := by
  induction others generalizing first w input stages with
  | nil =>
    cases made
    refine ⟨rfl, ?_⟩
    intro j stage found
    cases j with
    | zero =>
      cases found
      exact reads
    | succ j => cases found
  | cons next others ih =>
    unfold connect at made
    split at made
    · cases made
    · rename_i reader writer middle making
      obtain ⟨reached, rfl, rfl, size, _⟩ := pipe_reaches making
      rcases rest : connect { next with stdio := next.stdio.set .input (some w.files.size) } others middle with
        ⟨failure, stagesRest, last⟩
      dsimp only at made
      rw [rest] at made
      cases made
      have nextReads : next.stdio.set .input (some w.files.size) = ⟨some w.files.size, none, none⟩ := by
        rw [empty next (by simp)]
        rfl
      obtain ⟨trace, slots⟩ := ih middle nextReads (fun stage member => empty stage (by simp [member])) rest
      rw [size] at trace slots
      refine ⟨?_, ?_⟩
      · rw [trace, reached.trace, List.length_cons, pipesFrom, List.append_assoc]
      · intro j stage found
        cases j with
        | zero =>
          cases found
          dsimp only
          rw [reads]
          simp [connectedSlots, Triple.set]
        | succ j =>
          rw [slots j stage found, List.length_cons]
          exact connectedSlots_next input _ _ j

theorem build_chained (built : build tokens w = (.ok p, after)) :
    ∃ calls, after.trace = calls ++ w.trace ∧ Chained calls p.stages := by
  obtain ⟨first, others, stages, connected, _⟩ := build_done built
  have inherit := unjoined_inherit tokens
  rw [stages, List.forall_mem_cons] at inherit
  obtain ⟨trace, slots⟩ := connect_connected others w inherit.1 inherit.2 connected
  refine ⟨_, trace, ?_⟩
  intro i j stage other slot own reader writer found owns piped foundOther reads
  obtain ⟨k, rfl, rfl⟩ := mem_pipesFrom piped
  rw [slots i stage found] at owns
  rw [slots j other foundOther] at reads
  rcases connectedSlots_get owns with ⟨_, _, even⟩ | ⟨_, odd⟩
  · omega
  · rcases connectedSlots_get reads with ⟨input, _, even⟩ | ⟨_, wrong⟩
    · exact ⟨by omega, input⟩
    · omega

end Pipeline

theorem Chained.congr {stages others : List Stage} (chained : Chained calls stages)
    (same : others.map Stage.stdio = stages.map Stage.stdio) : Chained calls others := by
  have back : ∀ (i : Nat) stage, others[i]? = some stage → ∃ old, stages[i]? = some old ∧ old.stdio = stage.stdio := by
    intro i stage found
    have mapped : (others.map Stage.stdio)[i]? = some stage.stdio := by simp [found]
    rw [same, List.getElem?_map] at mapped
    exact Option.map_eq_some_iff.mp mapped
  intro i j stage other slot own reader writer found owns member foundOther reads
  obtain ⟨old, foundOld, sameSlots⟩ := back i stage found
  obtain ⟨oldOther, foundOldOther, sameOther⟩ := back j other foundOther
  rw [← sameSlots] at owns
  rw [← sameOther] at reads
  exact chained i j old oldOther slot own reader writer foundOld owns member foundOldOther reads

-- Filling slots with other files takes pipe ends out of stages and puts none in.
theorem Chained.refilled {stages others : List Stage} (chained : Chained earlier stages)
    (distinct : (made (later ++ earlier)).Nodup) (none : ∀ reader writer, .piped reader writer ∉ later)
    (kept : ∀ (j : Nat) changed, others[j]? = some changed → ∃ stage : Stage, stages[j]? = some stage ∧
      ∀ slot f, changed.stdio.get slot = some f → stage.stdio.get slot = some f ∨ .opened f ∈ later) :
    Chained (later ++ earlier) others := by
  intro i j stage other slot own reader writer found owns member foundOther reads
  have piped : .piped reader writer ∈ earlier := by
    rcases List.mem_append.mp member with late | early
    · exact absurd late (none _ _)
    · exact early
  obtain ⟨old, foundOld, slots⟩ := kept i stage found
  obtain ⟨oldOther, foundOldOther, slotsOther⟩ := kept j other foundOther
  rcases slots slot writer owns with ownsOld | opened
  · rcases slotsOther own reader reads with readsOld | opened
    · exact chained i j old oldOther slot own reader writer foundOld ownsOld piped foundOldOther readsOld
    · exact absurd rfl (opened_ne_piped _ distinct (List.mem_append_left _ opened) member).1
  · exact absurd rfl (opened_ne_piped _ distinct (List.mem_append_left _ opened) member).2

namespace Session

theorem assemble_chained (assembled : assemble line w = (.ok p, after)) :
    ∃ calls, after.trace = calls ++ w.trace ∧ Chained calls p.stages := by
  obtain ⟨tokens, q, _, built, detects, _⟩ := assemble_done assembled
  obtain ⟨calls, trace, chained⟩ := Pipeline.build_chained built
  have detected : p = ⟨(Pipeline.detectStages q.stages).2⟩ := (congrArg Prod.snd detects).symm
  refine ⟨calls, trace, chained.congr ?_⟩
  rw [detected]
  exact Pipeline.detectStages_stdio q.stages

theorem compile_chained (expand : Bytes → Bytes) (compiled : compile expand line w = (.ok p, after))
    (reached : after.trace = calls ++ w.trace) (distinct : (made calls).Nodup) : Chained calls p.stages := by
  obtain ⟨q, middle, stages, assembled, applied, rfl⟩ := compile_done compiled
  obtain ⟨earlier, trace, chained⟩ := assemble_chained assembled
  obtain ⟨later, traceLater, none, refilled⟩ := Redirection.applyStages_refilled expand q.stages middle
  rw [applied] at traceLater refilled
  have traced : after.trace = (later ++ earlier) ++ w.trace := by rw [traceLater, trace, List.append_assoc]
  have all : calls = later ++ earlier := List.append_cancel_right (reached.symm.trans traced)
  subst all
  refine (chained.refilled distinct none refilled).congr ?_
  simp [Pipeline.substitute, Function.comp_def]

-- The calls of compiling a line, with what is owed after them and how the ends of pipes are distributed.
theorem compile_pipes (expand : Bytes → Bytes) (isBuiltin : Bytes → Bool)
    (compiled : compile expand line w = (.ok p, after)) (reached : after.trace = calls ++ w.trace) :
    Account w calls (held (p.classify isBuiltin).stages) after ∧ Chained calls (p.classify isBuiltin).stages := by
  have owes := compile_owes expand line w
  rw [compiled] at owes
  obtain ⟨recorded, account⟩ := owes
  have same : recorded = calls := List.append_cancel_right (account.reached.trace.symm.trans reached)
  subst same
  have same : (p.classify isBuiltin).stages.map Stage.stdio = p.stages.map Stage.stdio := by
    simp [Pipeline.classify, Function.comp_def]
  refine ⟨?_, (compile_chained expand compiled reached account.distinct).congr same⟩
  rw [Pipeline.held_classify]
  exact account

-- A file that was made while the line was compiled is closed or in a slot.
theorem made_closed_or_owned {p : Pipeline} (account : Account w calls (held p.stages) after)
    (present : f ∈ made calls) :
    after.isClosed f = some true ∨
      ∃ (j : Nat) (stage : Stage) (slot : Slot), p.stages[j]? = some stage ∧ stage.stdio.get slot = some f := by
  by_cases closed : Call.closed f ∈ calls
  · exact .inl (by simpa [closed] using account.flags f present)
  · right
    have count := account.balance f
    rw [account.made_once present, List.count_eq_zero.mpr closed] at count
    exact exists_of_held _ (by omega)

theorem compile_wired (expand : Bytes → Bytes) (isBuiltin : Bytes → Bool)
    (compiled : compile expand line w = (.ok p, after)) (reached : after.trace = calls ++ w.trace) :
    (p.classify isBuiltin).Wired calls after := by
  obtain ⟨account, chained⟩ := compile_pipes expand isBuiltin compiled reached
  intro i stage reader writer found reads piped
  have made : writer ∈ made calls := List.mem_flatMap.mpr ⟨_, piped, by simp [Call.makes]⟩
  refine ⟨(account.fresh writer made).2, ?_⟩
  rcases made_closed_or_owned account made with closed | ⟨j, other, slot, foundOther, owns⟩
  · exact .inl closed
  · obtain ⟨next, _⟩ := chained j i other stage slot .input reader writer foundOther owns piped found reads
    exact .inr ⟨j, other, slot, by omega, foundOther, owns⟩

end Session
end
end LineShell
