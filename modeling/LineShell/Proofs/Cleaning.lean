import LineShell.Proofs.Blocks
import LineShell.Bytes.Path

-- Names are compared by the stacks their components make.
namespace LineShell.Path
open Bytes

variable {absolute : Bool} {stack rest : List Bytes}

-- The components that are left of a path, the last one on top.
def kept (path : Bytes) : List Bytes := (splitOn slash path).foldl (push (isAbsolute path)) []

-- The cleaned name of a stack.
def written (absolute : Bool) (stack : List Bytes) : Bytes :=
  if absolute then slash :: Bytes.join [slash] stack.reverse
  else if stack = [] then current
  else Bytes.join [slash] stack.reverse

theorem clean_written (path : Bytes) : clean path = written (isAbsolute path) (kept path) := by
  unfold clean written kept
  dsimp only
  cases isAbsolute path with
  | true => rfl
  | false =>
    generalize (splitOn slash path).foldl (push false) [] = stack
    cases stack with
    | nil => rfl
    | cons top rest =>
      rw [if_neg (by decide), if_neg (List.cons_ne_nil _ _)]
      split
      · contradiction
      · rename_i none
        simp at none
      · rfl

theorem push_skipped (skipped : part = [] ∨ part = current) : push absolute stack part = stack := by
  simp only [push, if_pos skipped]

theorem push_part (proper : part ≠ [] ∧ part ≠ current) (inner : part ≠ parent) :
    push absolute stack part = part :: stack := by
  simp only [push, if_neg (not_or.mpr proper), if_neg inner]

-- A stack on which every component stayed on top when it was pushed.
inductive Settled (absolute : Bool) : List Bytes → Prop where
  | nil : Settled absolute []
  | cons {stack : List Bytes} (settled : Settled absolute stack) (proper : part ≠ [] ∧ part ≠ current) (plain : slash ∉ part)
      (pushed : push absolute stack part = part :: stack) : Settled absolute (part :: stack)

theorem Settled.tail (settled : Settled absolute stack) : Settled absolute stack.tail := by
  cases settled with
  | nil => exact .nil
  | cons settled => exact settled

theorem Settled.drop (settled : Settled absolute stack) (k : Nat) : Settled absolute (stack.drop k) := by
  induction k with
  | zero => exact settled
  | succ k ih => simpa using ih.tail

theorem Settled.plain (settled : Settled absolute stack) : ∀ part ∈ stack, slash ∉ part := by
  induction settled with
  | nil => simp
  | cons _ _ plain _ ih => exact List.forall_mem_cons.mpr ⟨plain, ih⟩

theorem Settled.present (settled : Settled absolute stack) : ∀ part ∈ stack, part ≠ [] := by
  induction settled with
  | nil => simp
  | cons _ proper _ _ ih => exact List.forall_mem_cons.mpr ⟨proper.1, ih⟩

-- Pushing its components builds the stack again.
theorem Settled.again (settled : Settled absolute stack) : stack.reverse.foldl (push absolute) [] = stack := by
  induction settled with
  | nil => rfl
  | cons _ _ _ pushed ih => rw [List.reverse_cons, List.foldl_append, ih, List.foldl_cons, List.foldl_nil, pushed]

theorem push_settled (settled : Settled absolute stack) (plain : slash ∉ part) : Settled absolute (push absolute stack part) := by
  by_cases skipped : part = [] ∨ part = current
  · rw [push_skipped skipped]
    exact settled
  have proper : part ≠ [] ∧ part ≠ current := not_or.mp skipped
  by_cases up : part = parent
  · subst up
    cases stack with
    | nil =>
      cases absolute with
      | true => exact settled
      | false => exact settled.cons proper plain rfl
    | cons top rest =>
      by_cases leading : top = parent
      · have pushed : push absolute (top :: rest) parent = parent :: top :: rest := by
          simp only [push, if_neg skipped, ↓reduceIte, if_pos leading]
        rw [pushed]
        exact settled.cons proper plain pushed
      · have pushed : push absolute (top :: rest) parent = rest := by
          simp only [push, if_neg skipped, ↓reduceIte, if_neg leading]
        rw [pushed]
        exact settled.tail
  · have pushed : push absolute stack part = part :: stack := push_part proper up
    rw [pushed]
    exact settled.cons proper plain pushed

theorem kept_settled (path : Bytes) : Settled (isAbsolute path) (kept path) := by
  have whole : ∀ (parts stack : List Bytes), (∀ part ∈ parts, slash ∉ part) → Settled (isAbsolute path) stack →
      Settled (isAbsolute path) (parts.foldl (push (isAbsolute path)) stack) := by
    intro parts
    induction parts with
    | nil => exact fun _ _ settled => settled
    | cons part rest ih =>
      intro stack free settled
      obtain ⟨first, others⟩ := List.forall_mem_cons.mp free
      exact ih _ others (push_settled settled first)
  exact whole _ [] (fun _ member => splitOn_free path member) .nil

-- Putting a name behind a slash pushes its components on what is there.
theorem isAbsolute_append (present : front ≠ []) (rest : Bytes) : isAbsolute (front ++ rest) = isAbsolute front := by
  cases front with
  | nil => contradiction
  | cons b front => rfl

theorem kept_append (present : front ≠ []) (rest : Bytes) :
    kept (front ++ slash :: rest) = (splitOn slash rest).foldl (push (isAbsolute front)) (kept front) := by
  rw [kept, isAbsolute_append present, splitOn_append, List.foldl_append, ← kept]

theorem kept_part (present : front ≠ []) (plain : slash ∉ part) (proper : part ≠ [] ∧ part ≠ current) (inner : part ≠ parent) :
    kept (front ++ slash :: part) = part :: kept front := by
  rw [kept_append present, splitOn_plain plain, List.foldl_cons, List.foldl_nil, push_part proper inner]

-- The written name has the stack it was written from.

theorem isAbsolute_written (settled : Settled absolute stack) : isAbsolute (written absolute stack) = absolute := by
  unfold written
  cases absolute with
  | true => rfl
  | false =>
    rw [if_neg (by decide)]
    split
    · rfl
    · rename_i present
      have first : ∀ parts : List Bytes, parts ≠ [] → (∀ part ∈ parts, part ≠ [] ∧ slash ∉ part) →
          isAbsolute (Bytes.join [slash] parts) = false := by
        intro parts present proper
        obtain ⟨part, others, rfl⟩ := List.exists_cons_of_ne_nil present
        obtain ⟨some, plain⟩ := proper part List.mem_cons_self
        obtain ⟨b, name, rfl⟩ := List.exists_cons_of_ne_nil some
        have different : b ≠ slash := fun same => plain (by simp [same])
        cases others <;> simp [Bytes.join, isAbsolute, different]
      exact first _ (by simpa using present) fun part member =>
        ⟨settled.present part (List.mem_reverse.mp member), settled.plain part (List.mem_reverse.mp member)⟩

theorem kept_written (settled : Settled absolute stack) : kept (written absolute stack) = stack := by
  rw [kept, isAbsolute_written settled]
  unfold written
  by_cases empty : stack = []
  · subst empty
    cases absolute <;> rfl
  · have pieces : splitOn slash (Bytes.join [slash] stack.reverse) = stack.reverse :=
      splitOn_join (fun part member => settled.plain part (List.mem_reverse.mp member)) (by simpa using empty)
    cases absolute with
    | true =>
      rw [if_pos rfl, splitOn, if_pos rfl, pieces, List.foldl_cons, push_skipped (.inl rfl)]
      exact settled.again
    | false =>
      rw [if_neg (by decide), if_neg empty, pieces]
      exact settled.again

theorem written_present (settled : Settled absolute stack) : written absolute stack ≠ [] := by
  intro empty
  have first := isAbsolute_written settled
  have second := kept_written settled
  rw [empty] at first second
  cases first
  cases second
  exact absurd empty (by decide)

theorem clean_settled (settled : Settled absolute stack) : clean (written absolute stack) = written absolute stack := by
  rw [clean_written, isAbsolute_written settled, kept_written settled]

theorem clean_present (path : Bytes) : clean path ≠ [] := by
  rw [clean_written]
  exact written_present (kept_settled path)

@[simp] theorem isAbsolute_clean (path : Bytes) : isAbsolute (clean path) = isAbsolute path := by
  rw [clean_written, isAbsolute_written (kept_settled path)]

@[simp] theorem kept_clean (path : Bytes) : kept (clean path) = kept path := by
  rw [clean_written, kept_written (kept_settled path)]

-- Names with the same stack are cleaned to the same name.
theorem clean_congr (absolute : isAbsolute path = isAbsolute other) (same : kept path = kept other) : clean path = clean other := by
  rw [clean_written, clean_written, absolute, same]

@[simp] theorem clean_clean (path : Bytes) : clean (clean path) = clean path :=
  clean_congr (isAbsolute_clean path) (kept_clean path)

-- A name may be cleaned before another is put behind it.
theorem clean_append (present : front ≠ []) (rest : Bytes) : clean (clean front ++ slash :: rest) = clean (front ++ slash :: rest) := by
  refine clean_congr ?_ ?_
  · rw [isAbsolute_append (clean_present front), isAbsolute_append present, isAbsolute_clean]
  · rw [kept_append (clean_present front), kept_append present, isAbsolute_clean, kept_clean]

theorem clean_trailing (present : front ≠ []) : clean (front ++ [slash]) = clean front := by
  refine clean_congr (isAbsolute_append present _) ?_
  rw [kept_append present]
  change push (isAbsolute front) (kept front) [] = kept front
  exact push_skipped (.inl rfl)

theorem join_pair (present : front ≠ []) (part : Bytes) : join [front, part] = clean (front ++ slash :: part) := by
  cases front with
  | nil => contradiction
  | cons b front => simp [join, Bytes.join]

-- A cleaned name ends in its last component, which stands behind the cleaned name of the others.

theorem join_cons (separator piece : Bytes) {pieces : List Bytes} (present : pieces ≠ []) :
    Bytes.join separator (piece :: pieces) = piece ++ separator ++ Bytes.join separator pieces := by
  rw [Bytes.join]
  exact present

theorem join_last (separator : Bytes) {parts : List Bytes} (present : parts ≠ []) (part : Bytes) :
    Bytes.join separator (parts ++ [part]) = Bytes.join separator parts ++ separator ++ part := by
  induction parts with
  | nil => contradiction
  | cons first rest ih =>
    cases rest with
    | nil => rfl
    | cons next others =>
      rw [List.cons_append, join_cons _ _ (by simp), ih (List.cons_ne_nil _ _), join_cons _ _ (List.cons_ne_nil _ _)]
      simp only [List.append_assoc]

theorem written_behind (absolute : Bool) (present : stack ≠ []) (part : Bytes) :
    written absolute (part :: stack) = written absolute stack ++ slash :: part := by
  have some : stack.reverse ≠ [] := by simpa using present
  simp only [written, List.reverse_cons, join_last _ some, if_neg present, if_neg (List.cons_ne_nil part stack)]
  cases absolute <;> simp

theorem written_ends (absolute : Bool) (stack : List Bytes) (part : Bytes) : part <:+ written absolute (part :: stack) := by
  by_cases empty : stack = []
  · subst empty
    cases absolute with
    | true => exact List.suffix_cons slash part
    | false => exact List.suffix_rfl
  · rw [written_behind absolute empty]
    exact ⟨written absolute stack ++ [slash], by simp⟩

end LineShell.Path
