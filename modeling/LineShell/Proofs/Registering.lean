import LineShell.Proofs.Cleaning
import LineShell.World.Memory

namespace LineShell

namespace Path
open Bytes

variable {absolute : Bool} {stack : List Bytes}

theorem unslashed {part : Bytes} (plain : slash ∉ part) : ∀ b ∈ part.reverse, decide (b ≠ slash) = true := fun _ member =>
  decide_eq_true fun same => plain (same ▸ List.mem_reverse.mp member)

-- The directory of a name is what stands in front of its last component.

theorem directory_behind (front : Bytes) (plain : slash ∉ part) : directory (front ++ slash :: part) = clean (front ++ [slash]) := by
  rw [directory, List.reverse_append, List.reverse_cons, List.append_assoc, List.dropWhile_append_of_pos (unslashed plain)]
  simp

theorem directory_plain (plain : slash ∉ part) : directory part = current := by
  have nothing : part.reverse.dropWhile (fun b => decide (b ≠ slash)) = [] := by
    rw [← List.append_nil part.reverse, List.dropWhile_append_of_pos (unslashed plain)]
    rfl
  rw [directory, nothing]
  rfl

theorem directory_written (settled : Settled absolute stack) : directory (written absolute stack) = written absolute stack.tail := by
  cases stack with
  | nil => cases absolute <;> rfl
  | cons part rest =>
    have plain : slash ∉ part := settled.plain part List.mem_cons_self
    by_cases single : rest = []
    · subst single
      cases absolute with
      | true => exact directory_behind [] plain
      | false => exact directory_plain plain
    · have below : Settled absolute rest := settled.tail
      rw [written_behind absolute single, directory_behind _ plain, clean_trailing (written_present below)]
      exact clean_settled below

end Path

namespace Memory
open Bytes

variable {m : Memory}

-- Looking an entry up.

theorem put_entries (m : Memory) (name key : Bytes) (entry : MemoryEntry) :
    (m.put name entry).entries.find? (·.1 = key) = if key = name then some (name, entry) else m.entries.find? (·.1 = key) := by
  unfold put
  by_cases known : m.entries.any (·.1 = name) = true
  · have same : ((fun e : Bytes × MemoryEntry => decide (e.1 = key)) ∘ fun e => if e.1 = name then (name, entry) else e) =
        fun e => decide (e.1 = key) := by
      funext e
      by_cases here : e.1 = name <;> simp [here]
    rw [if_pos known, List.find?_map, same]
    cases found : m.entries.find? (·.1 = key) with
    | none =>
      have other : key ≠ name := by
        rintro rfl
        obtain ⟨e, member, named⟩ := List.any_eq_true.mp known
        exact absurd named (List.find?_eq_none.mp found e member)
      simp [other]
    | some e =>
      have named : e.1 = key := by simpa using List.find?_some found
      by_cases wanted : key = name <;> simp [named, wanted]
  · have free : m.entries.find? (·.1 = name) = none := by
      rw [List.find?_eq_none]
      exact fun e member named => known (List.any_eq_true.mpr ⟨e, member, named⟩)
    rw [if_neg known, List.find?_append]
    by_cases wanted : key = name
    · subst wanted
      simp [free]
    · simp [wanted, Ne.symm wanted]

theorem find_put (m : Memory) (name path : Bytes) (entry : MemoryEntry) :
    (m.put name entry).find? path = if normalize path = name then some entry else m.find? path := by
  unfold find?
  dsimp only
  rw [put_entries]
  by_cases same : normalize path = name
  · simp only [if_pos same]
  · simp only [if_neg same]

theorem normalize_clean (path : Bytes) : normalize (Path.clean path) = normalize path := by
  simp only [normalize, Path.clean_clean]

@[simp] theorem normalize_normalize (path : Bytes) : normalize (normalize path) = normalize path := by
  rw [normalize.eq_def path]
  dsimp only
  split
  · rfl
  · rename_i inner
    rw [normalize_clean, normalize, if_neg inner]

theorem find_normalize (m : Memory) (path : Bytes) : m.find? (normalize path) = m.find? path := by
  simp only [find?, normalize_normalize]

theorem find_clean (m : Memory) (path : Bytes) : m.find? (Path.clean path) = m.find? path := by
  simp only [find?, normalize_clean]

theorem normalize_written (path : Bytes) : ∃ absolute stack, Path.Settled absolute stack ∧
    stack.length ≤ (Path.kept path).length ∧ normalize path = Path.written absolute stack := by
  unfold normalize
  dsimp only
  split
  · exact ⟨true, [], .nil, Nat.zero_le _, rfl⟩
  · exact ⟨_, _, Path.kept_settled path, Nat.le_refl _, Path.clean_written path⟩

-- What making directories does: a name stands for what it stood for, or for a directory if it was free.
def Registers (m later : Memory) : Prop :=
  ∀ path, later.find? path = m.find? path ∨ m.find? path = none ∧ later.find? path = some .directory

theorem Registers.refl (m : Memory) : Registers m m := fun _ => .inl rfl

theorem Registers.trans (first : Registers m later) (second : Registers later last) : Registers m last := by
  intro path
  rcases first path with same | ⟨free, made⟩
  · rcases second path with still | ⟨free, made⟩
    · exact .inl (still.trans same)
    · exact .inr ⟨same ▸ free, made⟩
  · rcases second path with still | ⟨none, -⟩
    · exact .inr ⟨free, still.trans made⟩
    · rw [none] at made
      cases made

theorem mark_registers (m : Memory) (name : Bytes) :
    Registers m (if (m.find? name).isSome then m else m.put name .directory) := by
  intro path
  split
  · exact .inl rfl
  · rename_i free
    rw [find_put]
    split
    · rename_i same
      subst same
      rw [find_normalize] at free
      exact .inr ⟨by simpa using free, rfl⟩
    · exact .inl rfl

theorem register_registers (m : Memory) (fuel : Nat) (name : Bytes) : Registers m (m.register fuel name) := by
  induction fuel generalizing m name with
  | zero => exact .refl m
  | succ fuel ih =>
    unfold register
    dsimp only
    split
    · exact mark_registers m name
    · exact (ih m _).trans (mark_registers _ name)

theorem makeDirectories_registers (m : Memory) (path : Bytes) : Registers m (m.makeDirectories path) :=
  register_registers m _ _

-- The directory that was asked for is there afterwards.
theorem makeDirectories_present (m : Memory) (path : Bytes) : ((m.makeDirectories path).find? path).isSome := by
  have marked : ∀ m : Memory, ((if (m.find? (normalize path)).isSome then m else m.put (normalize path) .directory).find?
      path).isSome := by
    intro m
    split
    · rename_i known
      rwa [find_normalize] at known
    · simp [find_put]
  unfold makeDirectories
  dsimp only
  unfold register
  exact marked _

-- Only the names on the way up are registered.
theorem register_apart (settled : Path.Settled absolute stack) (m : Memory) (fuel : Nat)
    (apart : ∀ k, normalize path ≠ Path.written absolute (stack.drop k)) :
    (m.register fuel (Path.written absolute stack)).find? path = m.find? path := by
  induction fuel generalizing m stack with
  | zero => rfl
  | succ fuel ih =>
    have unmarked : ∀ m : Memory, (if (m.find? (Path.written absolute stack)).isSome then m
        else m.put (Path.written absolute stack) .directory).find? path = m.find? path := by
      intro m
      split
      · rfl
      · rw [find_put, if_neg]
        exact apart 0
    unfold register
    dsimp only
    rw [unmarked, Path.directory_written settled]
    split
    · rfl
    · exact ih settled.tail m fun k => by simpa using apart (k + 1)

-- A name with more components than the directory is none of them.
theorem makeDirectories_apart (m : Memory) (path : Bytes) (cleaned : normalize other = Path.clean other)
    (longer : (Path.kept path).length < (Path.kept other).length) : (m.makeDirectories path).find? other = m.find? other := by
  obtain ⟨absolute, stack, settled, short, named⟩ := normalize_written path
  unfold makeDirectories
  dsimp only
  rw [named]
  refine register_apart settled m _ fun k same => ?_
  have shorter : Path.kept other = stack.drop k := by
    rw [← Path.kept_clean, ← cleaned, same, Path.kept_written (settled.drop k)]
  rw [shorter, List.length_drop] at longer
  omega

-- Putting a file down.

theorem write_find (m : Memory) (path data : Bytes) : (m.write path data).find? path = some (.file data) := by
  simp [write, find_put]

theorem write_registers (m : Memory) (data : Bytes) (apart : normalize other ≠ normalize path) :
    (m.write path data).find? other = m.find? other ∨
      m.find? other = none ∧ (m.write path data).find? other = some .directory := by
  unfold write
  dsimp only
  rw [find_put, if_neg apart]
  exact makeDirectories_registers m _ other

end Memory
end LineShell
