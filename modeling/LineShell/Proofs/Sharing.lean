import Mathlib.Data.List.Dedup
import LineShell.Proofs.Grants

namespace LineShell
open World

namespace Stdio

-- Closing a file, with the failure that a triple reports.
def shut (f : FileId) (w : World) : Except Fault Unit × World :=
  match w.close f with
  | (.ok (), after) => (.ok (), after)
  | (.error cause, after) => (.error (.resource (ascii "close") (w.fileName f) cause), after)

-- Several files closed one after the other, whatever the calls report.
def shutEach : List FileId → World → List (Except Fault Unit) × World
  | [], w => ([], w)
  | f :: rest, w =>
    let (result, w) := shut f w
    let (results, w) := shutEach rest w
    (result :: results, w)

def firstFailing (results : List (Except Fault Unit)) : Except Fault Unit := (results.find? (!·.isOk)).getD (.ok ())

-- The files that are let go of when `handle` is put into slots one by one, each with the last slot that has it.
def letGo (handle : Option FileId) : List Slot → Stdio → List FileId
  | [], _ => []
  | slot :: rest, s =>
    match s.get slot with
    | none => letGo handle rest (s.set slot handle)
    | some f =>
      if refers (s.set slot handle) f then letGo handle rest (s.set slot handle)
      else f :: letGo handle rest (s.set slot handle)

-- The files of the slots, each once.
def distinctFiles (s : Stdio) : List FileId := (s.toList.filterMap id).dedup

theorem refers_inherit (f : FileId) : inherit.refers f = false := by
  simp [refers, inherit, Triple.replicate, Triple.toList]

theorem mem_distinctFiles (s : Stdio) (f : FileId) : f ∈ s.distinctFiles ↔ s.refers f = true := by
  simp [distinctFiles, refers]

theorem letGo_all (s : Stdio) : letGo none Slot.all s = s.distinctFiles := by
  obtain ⟨first, second, third⟩ := s
  unfold distinctFiles
  rcases first with _ | a <;> rcases second with _ | b <;> rcases third with _ | c <;>
    simp [letGo, Slot.all, Triple.get, Triple.set, refers, Triple.toList, List.dedup_cons']
  by_cases same : b = c <;> simp [same]

theorem drop_shut (s : Stdio) (f : FileId) (w : World) : s.drop f w = if s.refers f then (.ok (), w) else shut f w := rfl

theorem firstFailing_cons (result : Except Fault Unit) (results : List (Except Fault Unit)) :
    firstFailing (result :: results) = firstError result (firstFailing results) := by
  cases result with
  | ok done => rfl
  | error fault => rfl

-- Emptying slots is closing what is let go of, one file after the other.
theorem releaseSlots_shutEach (slots : List Slot) (s : Stdio) (w : World) :
    (s.releaseSlots slots w).1 = firstFailing (shutEach (letGo none slots s) w).1 ∧
      (s.releaseSlots slots w).2.2 = (shutEach (letGo none slots s) w).2 := by
  induction slots generalizing s w with
  | nil => exact ⟨rfl, rfl⟩
  | cons slot others ih =>
    unfold releaseSlots letGo replace
    dsimp only
    cases filled : s.get slot with
    | none =>
      dsimp only
      exact ih _ w
    | some f =>
      dsimp only
      rw [drop_shut]
      by_cases held : refers (s.set slot none) f = true
      · rw [if_pos held, if_pos held]
        exact ih _ w
      · rw [if_neg held, if_neg held, shutEach]
        dsimp only
        rw [firstFailing_cons]
        obtain ⟨result, last⟩ := ih (s.set slot none) (shut f w).2
        exact ⟨congrArg _ result, last⟩

theorem release_shutEach (s : Stdio) (w : World) :
    s.release w = (firstFailing (shutEach s.distinctFiles w).1, inherit, (shutEach s.distinctFiles w).2) := by
  obtain ⟨result, last⟩ := releaseSlots_shutEach Slot.all s w
  rw [letGo_all] at result last
  exact Prod.ext result (Prod.ext (s.release_closing w).1 last)

end Stdio

-- What may be done to a triple.
inductive Operation where
  | replace (slot : Slot) (handle : Option FileId)
  | release

namespace Operation
variable {start w after : World}

def perform (s : Stdio) (w : World) : Operation → Except Fault Unit × Stdio × World
  | replace slot handle => s.replace slot handle w
  | release => s.release w

def installs : Operation → List FileId
  | replace _ (some f) => [f]
  | _ => []

-- What is put into a slot has not been closed.
def Fits (w : World) (op : Operation) : Prop := ∀ f ∈ op.installs, w.isClosed f = some false

instance (w : World) (op : Operation) : Decidable (op.Fits w) := List.decidableBAll _ _

theorem refers_perform (op : Operation) (s : Stdio) (w : World) (f : FileId) :
    ((op.perform s w).2.1.refers f = true → s.refers f = true ∨ f ∈ op.installs) ∧
      (f ∈ op.installs → (op.perform s w).2.1.refers f = true) := by
  cases op with
  | replace slot handle =>
    have slots : (perform s w (replace slot handle)).2.1 = s.set slot handle := (s.replace_closing slot handle w).1
    rw [slots]
    constructor
    · intro held
      rcases (s.refers_set slot handle f).mp (.inl held) with old | rfl
      · exact .inl old
      · exact .inr List.mem_cons_self
    · intro new
      cases handle with
      | none => cases new
      | some g =>
        cases List.mem_singleton.mp new
        exact (Stdio.refers_iff _ f).mpr ⟨slot, Triple.get_set_self s slot (some f)⟩
  | release =>
    have slots : (perform s w release).2.1 = Stdio.inherit := (s.release_closing w).1
    rw [slots, Stdio.refers_inherit]
    constructor
    · rintro ⟨⟩
    · rintro ⟨⟩

-- An operation closes what a slot had before and none has afterwards, once, and asks for nothing else.
theorem perform_closing (op : Operation) (s : Stdio) (w : World) :
    Closing w (fun f => if s.refers f = true ∧ (op.perform s w).2.1.refers f = false then 1 else 0) (op.perform s w).2.2 := by
  cases op with
  | replace slot handle =>
    obtain ⟨slots, paid, closing, balance⟩ := s.replace_closing slot handle w
    have after : (perform s w (replace slot handle)).2.1 = s.set slot handle := slots
    refine closing.congr fun f => ?_
    have count := balance f
    rw [after]
    unfold Stdio.holdsWith Stdio.holds at count
    by_cases held : Stdio.refers (s.set slot handle) f = true
    · rw [if_pos held] at count
      rw [if_neg (by simp [held])]
      split at count <;> omega
    · have other : handle ≠ some f := by
        rintro rfl
        exact held ((Stdio.refers_iff _ f).mpr ⟨slot, Triple.get_set_self s slot (some f)⟩)
      simp only [other, or_false, if_neg held] at count
      simpa [held] using count.symm
  | release =>
    obtain ⟨emptied, closing⟩ := s.release_closing w
    refine closing.congr fun f => ?_
    have none : (perform s w release).2.1.refers f = false := by
      rw [show (perform s w release).2.1 = Stdio.inherit from emptied, Stdio.refers_inherit]
    simp [Stdio.holds, none]

end Operation

-- Operations on a triple that was empty at first, the latest of them first. In between other files may be opened and
-- used, and none is closed.
inductive Operated (start : World) : List Operation → Stdio → World → Prop where
  | empty : Operated start [] Stdio.inherit start
  | meanwhile (operated : Operated start ops s w) (reached : w.Reaches calls after) (none : ∀ f, .closed f ∉ calls) :
    Operated start ops s after
  | next (operated : Operated start ops s w) (fits : op.Fits w) :
    Operated start (op :: ops) (op.perform s w).2.1 (op.perform s w).2.2

def installed (ops : List Operation) : List FileId := ops.flatMap Operation.installs

-- What the operations have come to: each file they installed is open or has been closed once, according to the slots.
structure Shared (start : World) (ops : List Operation) (s : Stdio) (w : World) : Prop where
  owned : ∀ f, s.refers f = true → f ∈ installed ops
  flags : ∀ f ∈ installed ops, w.isClosed f = some (!s.refers f)
  closes : ∃ calls, start.Reaches calls w ∧
    ∀ f, calls.count (.closed f) = if f ∈ installed ops ∧ s.refers f = false then 1 else 0

section
variable {start w after : World}

theorem Shared.meanwhile (shared : Shared start ops s w) (reached : w.Reaches calls after) (none : ∀ f, .closed f ∉ calls) :
    Shared start ops s after where
  owned := shared.owned
  flags f present := by
    have known := shared.flags f present
    rw [reached.flags f (isClosed_present known), if_neg (none f), known]
  closes := by
    obtain ⟨earlier, before, count⟩ := shared.closes
    refine ⟨_, before.trans reached, fun f => ?_⟩
    rw [List.count_append, List.count_eq_zero.mpr (none f), count f, Nat.zero_add]

theorem Shared.next (shared : Shared start ops s w) (fits : op.Fits w) :
    Shared start (op :: ops) (op.perform s w).2.1 (op.perform s w).2.2 := by
  obtain ⟨⟨later, reached, _, closing⟩, _⟩ := op.perform_closing s w
  obtain ⟨earlier, before, closed⟩ := shared.closes
  have listed : ∀ f, f ∈ installed (op :: ops) ↔ f ∈ op.installs ∨ f ∈ installed ops := by simp [installed]
  have changes := op.refers_perform s w
  -- A file that is put in has not been closed, so it is one of the slots' or new.
  have again : ∀ f ∈ op.installs, f ∈ installed ops → s.refers f = true := by
    intro f new old
    have known := shared.flags f old
    rw [fits f new] at known
    simpa using known.symm
  refine ⟨?_, ?_, later ++ earlier, before.trans reached, ?_⟩
  · intro f held
    exact (listed f).mpr (((changes f).1 held).elim (fun old => .inr (shared.owned f old)) .inl)
  · intro f present
    by_cases held : (op.perform s w).2.1.refers f = true
    · have wasOpen : w.isClosed f = some false := by
        rcases (changes f).1 held with old | new
        · simpa [old] using shared.flags f (shared.owned f old)
        · exact fits f new
      have kept : Call.closed f ∉ later := List.count_eq_zero.mp (by rw [closing f, if_neg (by simp [held])])
      rw [reached.flags f (isClosed_present wasOpen), if_neg kept, wasOpen, held]
      rfl
    · have old : f ∈ installed ops := ((listed f).mp present).resolve_left fun new => held ((changes f).2 new)
      have known := shared.flags f old
      have gone : (op.perform s w).2.1.refers f = false := by simpa using held
      rw [reached.flags f (isClosed_present known), gone]
      split
      · rfl
      · rename_i kept
        have count := closing f
        rw [List.count_eq_zero.mpr kept] at count
        cases mine : s.refers f with
        | true => simp [mine, gone] at count
        | false => rw [known, mine]
  · intro f
    rw [List.count_append, closing f, closed f]
    by_cases held : (op.perform s w).2.1.refers f = true
    · have fresh : ¬(f ∈ installed ops ∧ s.refers f = false) := by
        rintro ⟨old, gone⟩
        have mine := ((changes f).1 held).elim id fun new => again f new old
        rw [gone] at mine
        cases mine
      simp [held, fresh]
    · have notNew : f ∉ op.installs := fun new => held ((changes f).2 new)
      have gone : (op.perform s w).2.1.refers f = false := by simpa using held
      cases mine : s.refers f with
      | true => simp [gone, listed, shared.owned f mine]
      | false => simp [gone, listed, notNew]

theorem Operated.shared (operated : Operated start ops s w) : Shared start ops s w := by
  induction operated with
  | empty =>
    refine ⟨fun f held => ?_, (fun f present => by cases present), [], Reaches.refl start, fun f => by simp [installed]⟩
    rw [Stdio.refers_inherit] at held
    cases held
  | meanwhile _ reached none ih => exact ih.meanwhile reached none
  | next _ fits ih => exact ih.next fits

theorem shared_until_last (operated : Operated start ops s w) :
    (∀ f ∈ installed ops, (w.isClosed f = some false ↔ ∃ slot, s.get slot = some f) ∧
      (w.isClosed f = some true ↔ ∀ slot, s.get slot ≠ some f)) ∧
    (∃ calls, start.Reaches calls w ∧
      (∀ f ∈ installed ops, calls.count (.closed f) = if s.refers f then 0 else 1) ∧ ∀ f ∉ installed ops, .closed f ∉ calls) ∧
    (∀ op : Operation, ∃ calls, w.Reaches calls (op.perform s w).2.2 ∧ (∀ call ∈ calls, ∃ f, call = .closed f) ∧
      ∀ f, calls.count (.closed f) = if s.refers f ∧ ¬(op.perform s w).2.1.refers f then 1 else 0) ∧
    (s.distinctFiles.Nodup ∧ (∀ f, f ∈ s.distinctFiles ↔ ∃ slot, s.get slot = some f) ∧
      ∃ results after, Stdio.shutEach s.distinctFiles w = (results, after) ∧
        s.release w = (Stdio.firstFailing results, Stdio.inherit, after)) ∧
    ∀ later, Stdio.inherit.release later = (.ok (), Stdio.inherit, later) := by
  have shared := operated.shared
  refine ⟨?_, ?_, ?_, ⟨List.nodup_dedup _, fun f => (s.mem_distinctFiles f).trans (s.refers_iff f), _, _, rfl,
    s.release_shutEach w⟩, fun later => rfl⟩
  · intro f present
    have known := shared.flags f present
    have here := s.refers_iff f
    rw [known]
    cases held : s.refers f with
    | true => simpa [held] using here
    | false => simpa [held] using here
  · obtain ⟨calls, reached, count⟩ := shared.closes
    refine ⟨calls, reached, fun f present => ?_, fun f missing => ?_⟩
    · rw [count f]
      cases s.refers f <;> simp [present]
    · exact List.count_eq_zero.mp (by rw [count f, if_neg (by simp [missing])])
  · intro op
    obtain ⟨⟨calls, reached, only, count⟩, _⟩ := op.perform_closing s w
    exact ⟨calls, reached, only, fun f => by simpa using count f⟩

-- Two files, one of them shared by two slots for a while, and a system in which the first close call reports an error.

def pairOfFiles : World where
  files := #[{ name := ascii "a", channel := .memory (ascii "a") }, { name := ascii "b", channel := .memory (ascii "b") }]
  faults := [some Errno.noSpace]

def sharedForAWhile : List Operation :=
  [.replace .output none, .replace .input (some 1), .replace .error (some 0), .replace .output (some 0)]

theorem shared_until_last_failing : ∃ s w, Operated pairOfFiles sharedForAWhile s w ∧
    s = ⟨some 1, none, some 0⟩ ∧ w.isClosed 0 = some false ∧ ∃ after, s.release w =
      (.error (.resource (ascii "close") (ascii "b") (.onPath (ascii "close") (ascii "b") (.errno Errno.noSpace))),
        Stdio.inherit, after) ∧ after.trace = [.closed 0, .closed 1] := by
  have operated : Operated pairOfFiles sharedForAWhile _ _ :=
    .next (.next (.next (.next .empty (by decide)) (by decide)) (by decide)) (by decide)
  obtain ⟨present, _, _, ⟨_, _, results, after, shut, released⟩, _⟩ := shared_until_last operated
  obtain ⟨rfl, rfl⟩ := Prod.ext_iff.mp shut
  exact ⟨_, _, operated, by decide, (present 0 (by decide)).1.mpr ⟨.error, by decide⟩, _, released, by decide⟩

end
end LineShell
