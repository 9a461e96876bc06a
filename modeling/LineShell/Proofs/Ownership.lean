import LineShell.Proofs.Compiling
import LineShell.Proofs.Ledger

-- A stage owes a file one close call however many of its slots share the file.
namespace LineShell
open World

-- Only close calls, each file as often as `paid` says.
structure Closing (w : World) (paid : FileId → Nat) (after : World) : Prop where
  calls : ∃ calls, w.Reaches calls after ∧ (∀ call ∈ calls, ∃ f, call = .closed f) ∧
    ∀ f, calls.count (.closed f) = paid f
  still : Still w after

-- What is owed, whatever calls led there.
def Owes (start : World) (owed : FileId → Nat) (w : World) : Prop := ∃ calls, Account start calls owed w

section
variable {start w middle after : World} {owed left paid : FileId → Nat}

theorem Closing.none (w : World) : Closing w (fun _ => 0) w :=
  ⟨⟨[], Reaches.refl w, by simp, by simp⟩, Still.refl w⟩

theorem Closing.trans (first : Closing w early middle) (second : Closing middle late after) :
    Closing w (fun f => early f + late f) after := by
  obtain ⟨⟨earlier, reachedFirst, onlyFirst, countFirst⟩, stillFirst⟩ := first
  obtain ⟨⟨later, reachedSecond, onlySecond, countSecond⟩, stillSecond⟩ := second
  refine ⟨⟨later ++ earlier, reachedFirst.trans reachedSecond, ?_, ?_⟩, stillFirst.trans stillSecond⟩
  · intro call present
    rcases List.mem_append.mp present with late | early
    · exact onlySecond call late
    · exact onlyFirst call early
  · intro f
    rw [List.count_append, countFirst, countSecond, Nat.add_comm]

theorem Closing.congr (closing : Closing w paid after) (same : ∀ f, paid f = left f) : Closing w left after := by
  obtain ⟨⟨calls, reached, only, count⟩, still⟩ := closing
  exact ⟨⟨calls, reached, only, fun f => (count f).trans (same f)⟩, still⟩

theorem made_of_closes (calls : List Call) (only : ∀ call ∈ calls, ∃ f, call = .closed f) : made calls = [] := by
  induction calls with
  | nil => rfl
  | cons call rest ih =>
    obtain ⟨f, rfl⟩ := only call (by simp)
    rw [made_cons, ih (fun later member => only later (by simp [member]))]
    rfl

theorem Owes.closing (owes : Owes start owed w) (closing : Closing w paid after)
    (balance : ∀ f, owed f = paid f + left f) : Owes start left after := by
  obtain ⟨earlier, account⟩ := owes
  obtain ⟨⟨calls, reached, only, count⟩, _⟩ := closing
  refine ⟨_, account.pay reached (made_of_closes calls only) ?_⟩
  intro f
  rw [count f]
  exact balance f

theorem Owes.congr (owes : Owes start owed w) (same : ∀ f, owed f = left f) : Owes start left w := by
  have equal : owed = left := funext same
  rwa [← equal]

theorem Owes.quiet (owes : Owes start owed w) (reached : w.Reaches [] after) : Owes start owed after := by
  obtain ⟨calls, account⟩ := owes
  exact ⟨calls, account.quiet reached⟩

theorem Owes.mark (owes : Owes start owed w) (reached : w.Reaches [call] after)
    (mark : call.makes = [] ∧ ∀ f, call ≠ .closed f) : Owes start owed after := by
  obtain ⟨calls, account⟩ := owes
  refine ⟨_, account.pay reached (by simp [mark.1]) ?_⟩
  intro f
  simp [mark.2 f]

theorem Owes.nested (owes : Owes start owed w) (inner : Owes w (fun _ => 0) after) : Owes start owed after := by
  obtain ⟨calls, account⟩ := owes
  obtain ⟨more, settled⟩ := inner
  exact ⟨_, account.nested settled⟩

theorem Owes.refl (w : World) : Owes w (fun _ => 0) w := ⟨[], Account.empty w⟩

end

namespace Stdio
variable {w after : World}

theorem refers_iff (s : Stdio) (f : FileId) : s.refers f = true ↔ ∃ slot, s.get slot = some f := by
  constructor
  · intro held
    simp only [refers, Triple.toList, List.contains_eq_mem, List.mem_cons, List.not_mem_nil, or_false,
      decide_eq_true_eq] at held
    rcases held with same | same | same
    · exact ⟨.input, same.symm⟩
    · exact ⟨.output, same.symm⟩
    · exact ⟨.error, same.symm⟩
  · rintro ⟨slot, same⟩
    cases slot <;> simp_all [refers, Triple.toList, Triple.get]

-- How many close calls the triple owes a file: one, however many slots share it.
def holds (s : Stdio) (f : FileId) : Nat := if s.refers f then 1 else 0

-- The same together with a file that is about to be put into a slot.
def holdsWith (s : Stdio) (handle : Option FileId) (f : FileId) : Nat := if s.refers f ∨ handle = some f then 1 else 0

theorem holdsWith_none (s : Stdio) (f : FileId) : s.holdsWith none f = s.holds f := by
  simp [holdsWith, holds]

theorem holdsWith_of_refers (s : Stdio) (held : s.refers f = true) (g : FileId) :
    s.holdsWith (some f) g = s.holds g := by
  by_cases same : f = g
  · subst same
    simp [holdsWith, holds, held]
  · simp [holdsWith, holds, same]

theorem holdsWith_new (s : Stdio) (new : s.holds f = 0) (g : FileId) :
    s.holdsWith (some f) g = s.holds g + [f].count g := by
  have absent : s.refers f = false := by
    cases held : s.refers f with
    | true => simp [holds, held] at new
    | false => rfl
  by_cases same : f = g
  · subst same
    simp [holdsWith, holds, absent]
  · simp [holdsWith, holds, same]

@[simp] theorem holds_inherit (f : FileId) : inherit.holds f = 0 := by
  simp [holds, refers, inherit, Triple.replicate, Triple.toList]

-- A slot keeps its own file apart, the other slots are as they were.
theorem refers_set (s : Stdio) (slot : Slot) (handle : Option FileId) (f : FileId) :
    refers (s.set slot handle) f = true ∨ s.get slot = some f ↔ s.refers f = true ∨ handle = some f := by
  simp only [refers_iff]
  constructor
  · rintro (⟨other, found⟩ | old)
    · by_cases same : other = slot
      · subst same
        rw [Triple.get_set_self] at found
        exact .inr found
      · rw [Triple.get_set_of_ne s handle same] at found
        exact .inl ⟨other, found⟩
    · exact .inl ⟨slot, old⟩
  · rintro (⟨other, found⟩ | new)
    · by_cases same : other = slot
      · subst same
        exact .inr found
      · exact .inl ⟨other, by rw [Triple.get_set_of_ne s handle same]; exact found⟩
    · exact .inl ⟨slot, by rw [Triple.get_set_self]; exact new⟩

theorem holds_set_empty (s : Stdio) (slot : Slot) (empty : s.get slot = none) (new : s.holds f = 0) (g : FileId) :
    holds (s.set slot (some f)) g = s.holds g + [f].count g := by
  have covers := refers_set s slot (some f) g
  simp only [empty, reduceCtorEq, or_false] at covers
  rw [← holdsWith_new s new]
  simp only [holdsWith, holds, covers]

theorem drop_closing (next : Stdio) (f : FileId) (w : World) :
    Closing w (fun g => if g = f ∧ next.refers f = false then 1 else 0) (next.drop f w).2 := by
  unfold drop
  split
  · rename_i held
    exact (Closing.none w).congr (by simp [held])
  · rename_i free
    have closed : Closing w (fun g => if g = f ∧ next.refers f = false then 1 else 0) (w.close f).2 := by
      refine ⟨⟨[.closed f], close_reaches w f, by simp, ?_⟩, close_still w f⟩
      intro g
      by_cases same : g = f
      · subst same
        simp [free]
      · simp [same, Ne.symm same]
    split
    · rename_i after done
      rwa [done] at closed
    · rename_i cause after done
      rwa [done] at closed

theorem replace_closing (s : Stdio) (slot : Slot) (handle : Option FileId) (w : World) :
    (s.replace slot handle w).2.1 = s.set slot handle ∧
    ∃ paid, Closing w paid (s.replace slot handle w).2.2 ∧
      ∀ f, s.holdsWith handle f = paid f + holds (s.set slot handle) f := by
  have covers := refers_set s slot handle
  unfold replace
  dsimp only
  split
  · rename_i empty
    refine ⟨rfl, _, Closing.none w, ?_⟩
    intro f
    have same := covers f
    simp only [empty, reduceCtorEq, or_false] at same
    simp [holdsWith, holds, ← same]
  · rename_i old filled
    refine ⟨rfl, _, drop_closing _ old w, ?_⟩
    intro f
    have same := covers f
    simp only [filled, Option.some.injEq] at same
    simp only [holdsWith, holds, ← same]
    by_cases here : old = f
    · subst here
      cases held : refers (s.set slot handle) old <;> simp
    · simp [here, Ne.symm here]

theorem releaseSlots_closing (s : Stdio) (slots : List Slot) (w : World) :
    (s.releaseSlots slots w).2.1 = slots.foldl (fun s slot => s.set slot none) s ∧
    ∃ paid, Closing w paid (s.releaseSlots slots w).2.2 ∧
      ∀ f, s.holds f = paid f + holds (s.releaseSlots slots w).2.1 f := by
  induction slots generalizing s w with
  | nil => exact ⟨rfl, _, Closing.none w, by simp [releaseSlots]⟩
  | cons slot rest ih =>
    obtain ⟨emptied, early, closingFirst, balanceFirst⟩ := replace_closing s slot none w
    obtain ⟨all, late, closingRest, balanceRest⟩ := ih (s.replace slot none w).2.1 (s.replace slot none w).2.2
    refine ⟨?_, fun f => early f + late f, closingFirst.trans closingRest, ?_⟩
    · rw [emptied] at all
      simpa [releaseSlots, emptied] using all
    · intro f
      have first := balanceFirst f
      have others := balanceRest f
      have unfolded : (s.releaseSlots (slot :: rest) w).2.1 =
          (releaseSlots (s.replace slot none w).2.1 rest (s.replace slot none w).2.2).2.1 := rfl
      rw [holdsWith_none, ← emptied] at first
      rw [unfolded]
      dsimp only
      omega

-- Releasing closes every file of the triple once and leaves nothing behind.
theorem release_closing (s : Stdio) (w : World) :
    (s.release w).2.1 = inherit ∧ Closing w s.holds (s.release w).2.2 := by
  obtain ⟨all, paid, closing, balance⟩ := releaseSlots_closing s Slot.all w
  have emptied : (s.release w).2.1 = inherit := all
  refine ⟨emptied, closing.congr ?_⟩
  intro f
  have count := balance f
  rw [show (s.releaseSlots Slot.all w).2.1 = inherit from emptied, holds_inherit] at count
  omega

end Stdio

-- How many close calls stages owe a file between them.
def held : List Stage → FileId → Nat
  | [], _ => 0
  | stage :: others, f => stage.stdio.holds f + held others f

@[simp] theorem held_nil (f : FileId) : held [] f = 0 := rfl

@[simp] theorem held_cons (stage : Stage) (others : List Stage) (f : FileId) :
    held (stage :: others) f = stage.stdio.holds f + held others f := rfl

theorem held_congr (stages others : List Stage) (same : stages.map (·.stdio) = others.map (·.stdio)) :
    held stages = held others := by
  induction stages generalizing others with
  | nil =>
    cases others with
    | nil => rfl
    | cons other rest => cases same
  | cons stage following ih =>
    cases others with
    | nil => cases same
    | cons other rest =>
      obtain ⟨first, later⟩ := List.cons.inj same
      have sameFirst : stage.stdio = other.stdio := first
      funext f
      rw [held_cons, held_cons, sameFirst, ih rest later]

theorem held_pos {stages : List Stage} (member : stage ∈ stages) (slot : Slot) (here : stage.stdio.get slot = some f) :
    0 < held stages f := by
  have referred : stage.stdio.refers f = true := (Stdio.refers_iff _ f).mpr ⟨slot, here⟩
  have one : stage.stdio.holds f = 1 := by simp [Stdio.holds, referred]
  induction member with
  | head others =>
    rw [held_cons]
    omega
  | tail other _ ih =>
    rw [held_cons]
    omega

theorem held_none (stages : List Stage) (empty : ∀ stage ∈ stages, stage.stdio = Stdio.inherit) (f : FileId) :
    held stages f = 0 := by
  induction stages with
  | nil => rfl
  | cons stage others ih =>
    rw [held_cons, empty stage (by simp), ih (fun other member => empty other (by simp [member]))]
    simp

-- Every file of the stage has been closed.
def Closes (calls : List Call) (stage : Stage) : Prop := ∀ slot f, stage.stdio.get slot = some f → .closed f ∈ calls

theorem Closes.later (closes : Closes calls stage) (more : List Call) : Closes (more ++ calls) stage :=
  fun slot f here => List.mem_append_right more (closes slot f here)

theorem Closes.earlier (closes : Closes calls stage) (before : List Call) : Closes (calls ++ before) stage :=
  fun slot f here => List.mem_append_left before (closes slot f here)

theorem release_closes (stage : Stage) (w : World) :
    ∃ calls, w.Reaches calls (stage.stdio.release w).2.2 ∧ (∀ call ∈ calls, ∃ f, call = .closed f) ∧
      Closes calls stage ∧ Still w (stage.stdio.release w).2.2 := by
  obtain ⟨⟨calls, reached, only, count⟩, still⟩ := (stage.stdio.release_closing w).2
  refine ⟨calls, reached, only, ?_, still⟩
  intro slot f here
  have referred : stage.stdio.refers f = true := (Stdio.refers_iff _ f).mpr ⟨slot, here⟩
  apply List.count_pos_iff.mp
  rw [count f]
  simp [Stdio.holds, referred]

section
variable {start w : World} {rest : FileId → Nat}

-- What the first of some stages owes, taken apart from the others and put back.

theorem Owes.uncons (stage : Stage) (others : List Stage) (owes : Owes start (fun f => rest f + held (stage :: others) f) w) :
    Owes start (fun f => (rest f + held others f) + stage.stdio.holds f) w := by
  refine owes.congr ?_
  intro f
  rw [held_cons]
  omega

theorem Owes.cons (stage : Stage) (others : List Stage)
    (owes : Owes start (fun f => (rest f + stage.stdio.holds f) + held others f) w) :
    Owes start (fun f => rest f + held (stage :: others) f) w := by
  refine owes.congr ?_
  intro f
  rw [held_cons]
  exact Nat.add_assoc _ _ _

end

namespace Pipeline
variable {start w after : World} {rest : FileId → Nat}

theorem releaseStages_closing (stages : List Stage) (w : World) :
    (releaseStages stages w).2.1 = stages.map (fun stage => { stage with stdio := Stdio.inherit }) ∧
      Closing w (held stages) (releaseStages stages w).2.2 := by
  induction stages generalizing w with
  | nil => exact ⟨rfl, Closing.none w⟩
  | cons stage others ih =>
    obtain ⟨emptied, closingFirst⟩ := stage.stdio.release_closing w
    obtain ⟨all, closingRest⟩ := ih (stage.stdio.release w).2.2
    refine ⟨by simp [releaseStages, emptied, all], ?_⟩
    exact (closingFirst.trans closingRest).congr (fun f => (held_cons stage others f).symm)

theorem close_owes (p : Pipeline) (owes : Owes start (fun f => rest f + held p.stages f) w) :
    Owes start rest (p.close w).2.2 := by
  refine owes.closing (releaseStages_closing p.stages w).2 ?_
  intro f
  exact Nat.add_comm _ _

theorem held_closed (p : Pipeline) (w : World) (f : FileId) : held (p.close w).2.1.stages f = 0 := by
  have emptied := (releaseStages_closing p.stages w).1
  refine held_none _ ?_ f
  intro stage member
  simp only [close, emptied] at member
  obtain ⟨before, _, rfl⟩ := List.mem_map.mp member
  rfl

-- Closing a pipeline that has nothing left does nothing.
theorem close_nothing (p : Pipeline) (w : World) (empty : ∀ f, held p.stages f = 0) : w.Reaches [] (p.close w).2.2 := by
  obtain ⟨⟨calls, reached, only, count⟩, _⟩ := (releaseStages_closing p.stages w).2
  have none : calls = [] := by
    rcases calls with _ | ⟨call, others⟩
    · rfl
    · obtain ⟨f, rfl⟩ := only call (by simp)
      have counted := count f
      rw [empty f] at counted
      simp at counted
  subst none
  exact reached

theorem close_closes (p : Pipeline) (w : World) :
    ∃ calls, w.Reaches calls (p.close w).2.2 ∧ (∀ call ∈ calls, ∃ f, call = .closed f) ∧
      ∀ stage ∈ p.stages, Closes calls stage := by
  obtain ⟨⟨calls, reached, only, count⟩, _⟩ := (releaseStages_closing p.stages w).2
  refine ⟨calls, reached, only, ?_⟩
  intro stage member slot f here
  apply List.count_pos_iff.mp
  rw [count f]
  exact held_pos member slot here

-- Pipes only go into slots that are still empty, so none is lost.
theorem connect_owes (first : Stage) (others : List Stage) (w : World)
    (owes : Owes start (fun f => rest f + held (first :: others) f) w)
    (unconnected : first.stdio.output = none) (empty : ∀ stage ∈ others, stage.stdio = Stdio.inherit) :
    Owes start (fun f => rest f + held (connect first others w).2.1 f) (connect first others w).2.2 := by
  induction others generalizing first w rest with
  | nil => exact owes
  | cons next others ih =>
    unfold connect
    split
    · rename_i e after refused
      exact owes.quiet (pipe_refused refused)
    · rename_i reader writer after piped
      obtain ⟨calls, account⟩ := owes
      have ends : Owes start _ after := ⟨_, account.pipe piped⟩
      obtain ⟨_, readerNumber, writerNumber, _⟩ := pipe_reaches piped
      have readerNew := (account.unused (Nat.le_of_eq readerNumber.symm)).2.2
      have writerNew := (account.unused (Nat.le_trans (Nat.le_succ _) (Nat.le_of_eq writerNumber.symm))).2.2
      simp only [held_cons] at readerNew writerNew
      have inherits : next.stdio = Stdio.inherit := empty next (by simp)
      have firstHolds := first.stdio.holds_set_empty .output unconnected (f := writer) (by omega)
      have nextHolds := next.stdio.holds_set_empty .input (by rw [inherits]; rfl) (f := reader) (by omega)
      have connected : Owes start (fun f => (rest f + Stdio.holds (first.stdio.set .output (some writer)) f) +
          held ({ next with stdio := next.stdio.set .input (some reader) } :: others) f) after := by
        refine ends.congr ?_
        intro f
        have one := firstHolds f
        have two := nextHolds f
        simp only [held_cons, List.count_cons, List.count_nil] at one two ⊢
        omega
      have done := ih { next with stdio := next.stdio.set .input (some reader) } after connected
        (by simp [inherits, Stdio.inherit, Triple.replicate, Triple.set]) (fun stage member => empty stage (by simp [member]))
      exact Owes.cons _ _ done

-- What is owed when a pipeline was to be made: nothing if that failed.
def owedBy : Except Fault Pipeline → FileId → Nat
  | .ok p => held p.stages
  | .error _ => fun _ => 0

theorem held_unjoined (tokens : List Bytes) (f : FileId) : held (unjoined tokens) f = 0 := by
  unfold unjoined
  induction partition tokens with
  | nil => rfl
  | cons args rest ih => simpa using ih

theorem unjoined_owes (stages : unjoined tokens = first :: others) (w : World) :
    Owes w (fun f => 0 + held (connect first others w).2.1 f) (connect first others w).2.2 := by
  have inherit := unjoined_inherit tokens
  rw [stages, List.forall_mem_cons] at inherit
  refine connect_owes first others w ((Owes.refl w).congr fun f => ?_) (congrArg (·.output) inherit.1) inherit.2
  rw [← stages, held_unjoined]

theorem build_owes (tokens : List Bytes) (w : World) : Owes w (owedBy (build tokens w).1) (build tokens w).2 := by
  cases joining tokens w with
  | refused first others joined e after stages connected answer =>
    have owes := unjoined_owes stages w
    rw [connected] at owes
    rw [answer]
    exact close_owes ⟨joined⟩ owes
  | empty first others joined after stages connected lacks answer =>
    have owes := unjoined_owes stages w
    rw [connected] at owes
    rw [answer]
    exact close_owes ⟨joined⟩ owes
  | done first others joined after stages connected full answer =>
    have owes := unjoined_owes stages w
    rw [connected] at owes
    rw [answer]
    exact owes.congr fun f => Nat.zero_add _

end Pipeline

namespace Redirection
variable {start w after : World} {rest : FileId → Nat}

theorem slots?_nonempty (found : slots? token = some slots) : slots ≠ [] := by
  unfold slots? at found
  repeat' split at found
  all_goals cases found
  all_goals simp

-- The file is in a slot as soon as the first one is filled, also if the old file's close fails.
theorem fill_closing (f : FileId) (slots : List Slot) (s : Stdio) (w : World)
    (placed : slots ≠ [] ∨ s.refers f = true) :
    ∃ paid, Closing w paid (fill f slots s w).2.2 ∧
      ∀ g, s.holdsWith (some f) g = paid g + Stdio.holds (fill f slots s w).2.1 g := by
  induction slots generalizing s w with
  | nil =>
    rcases placed with wrong | there
    · exact absurd rfl wrong
    · exact ⟨_, Closing.none w, fun g => by rw [Nat.zero_add]; exact s.holdsWith_of_refers there g⟩
  | cons slot others ih =>
    obtain ⟨filled, paid, closing, balance⟩ := s.replace_closing slot (some f) w
    unfold fill
    split
    · rename_i e stdio after failed
      rw [failed] at filled closing
      refine ⟨paid, closing, ?_⟩
      intro g
      dsimp only at filled ⊢
      rw [filled]
      exact balance g
    · rename_i stdio after done
      rw [done] at filled closing
      dsimp only at filled closing
      subst filled
      have there : Stdio.refers (s.set slot (some f)) f = true :=
        (Stdio.refers_iff _ f).mpr ⟨slot, Triple.get_set_self s slot (some f)⟩
      obtain ⟨more, closingRest, balanceRest⟩ := ih (s.set slot (some f)) after (.inr there)
      refine ⟨fun g => paid g + more g, closing.trans closingRest, ?_⟩
      intro g
      have first := balance g
      have others := balanceRest g
      rw [Stdio.holdsWith_of_refers _ there g] at others
      dsimp only
      omega

theorem openTarget_ok (opened : openTarget operator path w = (.ok f, after)) :
    ∃ mode, w.openFile path mode = (.ok f, after) := by
  unfold openTarget at opened
  split at opened
  · rename_i g middle done
    cases opened
    exact ⟨_, done⟩
  · cases opened

theorem openTarget_error (refused : openTarget operator path w = (.error fault, after)) :
    ∃ mode e, w.openFile path mode = (.error e, after) ∧ fault = .resource (ascii "open") path (.errno e) := by
  unfold openTarget at refused
  split at refused
  · cases refused
  · rename_i e middle done
    cases refused
    exact ⟨_, e, done, rfl⟩

-- A target goes from being opened into its slots without being lost on the way.
theorem place_owes (path : Bytes) (owes : Owes start (fun g => rest g + s.holds g) w) (found : slots? operator = some slots) :
    Owes start (fun g => rest g + Stdio.holds (place operator path slots s w).2.1 g) (place operator path slots s w).2.2 := by
  unfold place
  split
  · rename_i fault after refused
    obtain ⟨mode, e, refused, _⟩ := openTarget_error refused
    exact owes.quiet (openFile_refused refused)
  · rename_i f after opened
    obtain ⟨mode, opened⟩ := openTarget_ok opened
    obtain ⟨calls, account⟩ := owes
    obtain ⟨_, number, _⟩ := openFile_reaches opened
    have new := (account.unused (Nat.le_of_eq number.symm)).2.2
    have inHand : Owes start (fun g => rest g + s.holdsWith (some f) g) after := by
      refine Owes.congr ⟨_, account.openFile opened⟩ ?_
      intro g
      rw [s.holdsWith_new (by omega) g]
      exact Nat.add_assoc _ _ _
    obtain ⟨paid, closing, balance⟩ := fill_closing f slots s after (.inl (slots?_nonempty found))
    refine inHand.closing closing ?_
    intro g
    rw [balance g]
    exact Nat.add_left_comm _ _ _

theorem Applying.owes (run : Applying expand args s w result) (owes : Owes start (fun f => rest f + s.holds f) w) :
    Owes start (fun f => rest f + Stdio.holds result.2.1 f) result.2.2 := by
  induction run with
  | word token others s w single plain result filled after later ih => exact ih owes
  | stuck token s w single slots found target others plain clean fault filled after failed =>
    have placed := place_owes (expand target) owes found
    rwa [failed] at placed
  | placed token s w single slots found target others plain clean filled after done later ih =>
    have placed := place_owes (expand target) owes found
    rw [done] at placed
    exact ih placed
  | _ => exact owes

theorem applyStage_owes (expand : Bytes → Bytes) (stage : Stage) (w : World)
    (owes : Owes start (fun f => rest f + stage.stdio.holds f) w) :
    Owes start (fun f => rest f + (applyStage expand stage w).2.1.stdio.holds f) (applyStage expand stage w).2.2 := by
  have applied := (applying expand (combine stage.args) stage.stdio w).owes owes
  unfold applyStage
  split
  · rename_i fault stdio after failed
    rwa [failed] at applied
  · rename_i kept stdio after done
    rwa [done] at applied

theorem applyStages_owes (expand : Bytes → Bytes) (stages : List Stage) (w : World)
    (owes : Owes start (fun f => rest f + held stages f) w) :
    Owes start (fun f => rest f + held (applyStages expand stages w).2.1 f) (applyStages expand stages w).2.2 := by
  induction stages generalizing w rest with
  | nil => exact owes
  | cons stage others ih =>
    have applied := applyStage_owes expand stage w (owes.uncons stage others)
    unfold applyStages
    split
    · rename_i fault changed after failed
      rw [failed] at applied
      exact Owes.cons changed others (applied.congr (fun f => Nat.add_right_comm _ _ _))
    · rename_i changed after done
      rw [done] at applied
      have rearranged : Owes start (fun f => (rest f + changed.stdio.holds f) + held others f) after :=
        applied.congr (fun f => Nat.add_right_comm _ _ _)
      exact Owes.cons changed _ (ih after rearranged)

end Redirection
end LineShell
