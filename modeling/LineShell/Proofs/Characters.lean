import LineShell.Bytes.Quoted

-- A byte below 128 stands in no other character, so a well-formed text may be cut on both sides of it.
namespace LineShell.Utf8

-- The bytes of one character.
def Character (bytes : Bytes) : Prop := ∃ a tail n, bytes = a :: tail ∧ unitAt a tail = .char n bytes

-- What one character is read from, and that this does not depend on what comes behind it.
structure Reads (a : UInt8) (tail : Bytes) (n : Nat) : Prop where
  same : ∀ behind, unitAt a (tail ++ behind) = .char n (a :: tail)
  plain : a < 0x80 → tail = []
  tails : ∀ b ∈ tail, isTail b = true

theorem isTail_high {b : UInt8} (tail : isTail b = true) : 0x80 ≤ b := by
  unfold isTail at tail
  simp only [Bool.and_eq_true, decide_eq_true_eq] at tail
  exact tail.1

theorem secondAllowed_tail {a b : UInt8} (second : secondAllowed a b = true) : isTail b = true := by
  unfold secondAllowed at second
  repeat' split at second
  all_goals first
    | exact second
    | simp only [Bool.and_eq_true, decide_eq_true_eq] at second
      simp only [isTail, Bool.and_eq_true, decide_eq_true_eq]
      exact ⟨UInt8.le_trans (by decide) second.1, UInt8.le_trans second.2 (by decide)⟩

theorem unitAt_char {a : UInt8} {behind bytes : Bytes} (read : unitAt a behind = .char n bytes) :
    ∃ tail later, bytes = a :: tail ∧ behind = tail ++ later ∧ Reads a tail n := by
  unfold unitAt at read
  split at read
  · rename_i plain
    cases read
    exact ⟨[], behind, rfl, rfl, fun _ => by simp [unitAt, plain], fun _ => rfl, by simp⟩
  · rename_i longer
    split at read
    · rename_i two
      split at read
      · split at read
        · rename_i b later tail
          cases read
          refine ⟨[b], later, rfl, rfl, fun _ => ?_, fun plain => absurd plain longer, by simpa using tail⟩
          simp only [unitAt, if_neg longer, if_pos two, List.singleton_append, if_pos tail]
        · cases read
      · cases read
    · rename_i two
      split at read
      · rename_i three
        split at read
        · split at read
          · rename_i b c later tails
            have each := tails
            rw [Bool.and_eq_true] at each
            cases read
            refine ⟨[b, c], later, rfl, rfl, fun _ => ?_, fun plain => absurd plain longer, ?_⟩
            · simp only [unitAt, if_neg longer, if_neg two, if_pos three, List.cons_append, List.nil_append, if_pos tails]
            · simpa using ⟨secondAllowed_tail each.1, each.2⟩
          · cases read
        · cases read
      · rename_i three
        split at read
        · rename_i four
          split at read
          · split at read
            · rename_i b c d later tails
              have each := tails
              rw [Bool.and_eq_true, Bool.and_eq_true] at each
              cases read
              refine ⟨[b, c, d], later, rfl, rfl, fun _ => ?_, fun plain => absurd plain longer, ?_⟩
              · simp only [unitAt, if_neg longer, if_neg two, if_neg three, if_pos four, List.cons_append, List.nil_append,
                  if_pos tails]
              · simpa using ⟨secondAllowed_tail each.1.1, each.1.2, each.2⟩
            · cases read
          · cases read
        · cases read

theorem Reads.character (reads : Reads a tail n) : Character (a :: tail) :=
  ⟨a, tail, n, rfl, by simpa using reads.same []⟩

theorem Character.reads (character : Character bytes) : ∃ a tail n, bytes = a :: tail ∧ Reads a tail n := by
  obtain ⟨a, behind, n, rfl, read⟩ := character
  obtain ⟨tail, later, same, _, reads⟩ := unitAt_char read
  exact ⟨a, tail, n, same, reads⟩

theorem character_plain {c : UInt8} (plain : c < 0x80) : Character [c] :=
  ⟨c, [], c.toNat, rfl, if_pos plain⟩

-- A character is a plain byte or has none.
theorem Character.cases (character : Character bytes) : (∃ c < 0x80, bytes = [c]) ∨ ∀ b ∈ bytes, 0x80 ≤ b := by
  obtain ⟨a, tail, n, rfl, reads⟩ := character.reads
  by_cases plain : a < 0x80
  · exact .inl ⟨a, plain, by rw [reads.plain plain]⟩
  · refine .inr fun b member => ?_
    rcases List.mem_cons.mp member with rfl | later
    · exact UInt8.not_lt.mp plain
    · exact isTail_high (reads.tails b later)

inductive WellFormed : Bytes → Prop where
  | nil : WellFormed []
  | cons (character : Character bytes) (later : WellFormed rest) : WellFormed (bytes ++ rest)

theorem unitsFrom_behind (tail later : Bytes) : unitsFrom tail.length (tail ++ later) = unitsFrom 0 later := by
  induction tail with
  | nil => rfl
  | cons _ _ ih => simpa [unitsFrom] using ih

theorem units_cons (reads : Reads a tail n) (later : Bytes) :
    units (a :: (tail ++ later)) = .char n (a :: tail) :: units later := by
  have behind := unitsFrom_behind tail later
  simp [units, unitsFrom, reads.same later, Unit.bytes, behind]

theorem wellFormed_of_valid (text : Bytes) (good : valid text = true) : WellFormed text := by
  induction length : text.length using Nat.strongRecOn generalizing text with
  | ind size ih =>
    cases text with
    | nil => exact .nil
    | cons a rest =>
      cases read : unitAt a rest with
      | stray b => simp [valid, units, unitsFrom, read, Unit.isChar] at good
      | char n bytes =>
        obtain ⟨tail, later, rfl, rfl, reads⟩ := unitAt_char read
        unfold valid at good
        rw [units_cons reads, List.all_cons, Bool.and_eq_true] at good
        have shorter : later.length < size := by
          rw [← length, List.length_cons, List.length_append]
          omega
        exact .cons reads.character (ih _ shorter later good.2 rfl)

theorem WellFormed.valid (text : WellFormed bytes) : valid bytes = true := by
  induction text with
  | nil => rfl
  | cons character _ ih =>
    obtain ⟨a, tail, n, rfl, reads⟩ := character.reads
    unfold Utf8.valid at ih ⊢
    rw [List.cons_append, units_cons reads, List.all_cons, ih]
    rfl

namespace WellFormed

theorem append (front : WellFormed a) (back : WellFormed b) : WellFormed (a ++ b) := by
  induction front with
  | nil => exact back
  | cons character _ ih =>
    rw [List.append_assoc]
    exact .cons character ih

theorem one (character : Character bytes) : WellFormed bytes := by
  simpa using WellFormed.cons character .nil

theorem plain {text : Bytes} (all : ∀ c ∈ text, c < 0x80) : WellFormed text := by
  induction text with
  | nil => exact .nil
  | cons c rest ih =>
    exact .cons (character_plain (all c List.mem_cons_self)) (ih fun d member => all d (List.mem_cons_of_mem _ member))

theorem plain_all (all : text.all (· < 0x80) = true) : WellFormed text :=
  plain fun c member => by simpa using List.all_eq_true.mp all c member

theorem flatMap {pieces : List α} {f : α → Bytes} (each : ∀ piece ∈ pieces, WellFormed (f piece)) :
    WellFormed (pieces.flatMap f) := by
  induction pieces with
  | nil => exact .nil
  | cons piece rest ih =>
    exact (each piece List.mem_cons_self).append (ih fun other member => each other (List.mem_cons_of_mem _ member))

-- What is behind a well-formed beginning is well-formed.
theorem behind (front : WellFormed a) (whole : WellFormed (a ++ b)) : WellFormed b := by
  induction front with
  | nil => exact whole
  | cons character _ ih =>
    obtain ⟨a, tail, n, rfl, reads⟩ := character.reads
    have good := whole.valid
    rw [List.append_assoc, List.cons_append, Utf8.valid, units_cons reads] at good
    exact ih (wellFormed_of_valid _ good)

-- A well-formed text may be cut in front of a byte that only begins characters.
theorem before {front : Bytes} (text : WellFormed (front ++ c :: back)) (head : isTail c = false) : WellFormed front := by
  generalize whole : front ++ c :: back = bytes at text
  induction text generalizing front with
  | nil => simp at whole
  | @cons first rest character later ih =>
    obtain ⟨a, tail, n, rfl, reads⟩ := character.reads
    cases front with
    | nil => exact .nil
    | cons d front =>
      obtain ⟨rfl, inner⟩ : d = a ∧ front ++ c :: back = tail ++ rest := List.cons.inj whole
      rcases List.append_eq_append_iff.mp inner with ⟨more, same, behind⟩ | ⟨more, rfl, behind⟩
      · cases more with
        | nil =>
          rw [List.append_nil] at same
          subst same
          exact one character
        | cons e more =>
          cases behind
          have inside := reads.tails c (by simp [same])
          rw [head] at inside
          cases inside
      · exact .cons character (ih behind.symm)

-- A well-formed text is cut at a plain byte.
theorem cut {front : Bytes} (text : WellFormed (front ++ c :: back)) (plain : c < 0x80) :
    WellFormed front ∧ WellFormed back := by
  have head : isTail c = false := by
    have low : ¬(0x80 ≤ c) := UInt8.not_le.mpr plain
    simp [isTail, low]
  have whole := text.before head
  exact ⟨whole, behind (one (character_plain plain)) (whole.behind text)⟩

theorem left {front : Bytes} (text : WellFormed (front ++ c :: back)) (plain : c < 0x80) : WellFormed front :=
  (text.cut plain).1

theorem right {front : Bytes} (text : WellFormed (front ++ c :: back)) (plain : c < 0x80) : WellFormed back :=
  (text.cut plain).2

end WellFormed
end LineShell.Utf8
