import Mathlib.Algebra.Group.Nat.Defs
import LineShell.Number.Binary
import LineShell.Proofs.Spelling

namespace LineShell
open Bytes JsonText

-- The digit of a number below ten.
def figure (n : Nat) : UInt8 := UInt8.ofNat (n.digitChar).toNat

theorem figure_value {n : Nat} (small : n < 10) : digitValue? 10 (figure n) = some n ∧ isDigit (figure n) = true := by
  have all : ∀ m < 10, digitValue? 10 (figure m) = some m ∧ isDigit (figure m) = true := by decide
  exact all n small

theorem figure_zero {n : Nat} (small : n < 10) : figure n = 0x30 ↔ n = 0 := by
  have all : ∀ m < 10, figure m = 0x30 ↔ m = 0 := by decide
  exact all n small

theorem decimal_step (n : Nat) : decimal n = if n < 10 then [figure n] else decimal (n / 10) ++ [figure (n % 10)] := by
  unfold decimal
  rw [Nat.toDigits_eq_if (by omega)]
  split <;> simp [figure]

theorem decimal_figures (n : Nat) : Figures (decimal n) := by
  induction n using Nat.strongRecOn with
  | ind n ih =>
    rw [decimal_step]
    split
    · rename_i small
      exact ⟨by simp, by simpa using (figure_value small).2⟩
    · obtain ⟨_, digits⟩ := ih (n / 10) (by omega)
      refine ⟨by simp, fun c member => ?_⟩
      rcases List.mem_append.mp member with front | last
      · exact digits c front
      · rw [List.mem_singleton.mp last]
        exact (figure_value (Nat.mod_lt _ (by omega))).2

theorem decimal_head (n : Nat) : (decimal n).head? = some 0x30 ↔ n = 0 := by
  induction n using Nat.strongRecOn with
  | ind n ih =>
    rw [decimal_step]
    split
    · rename_i small
      simpa using figure_zero small
    · obtain ⟨c, rest, front⟩ := List.exists_cons_of_ne_nil (decimal_figures (n / 10)).1
      have first := ih (n / 10) (by omega)
      rw [front] at first ⊢
      rw [List.head?_cons] at first
      rw [List.cons_append, List.head?_cons, first]
      omega

theorem decimal_whole (n : Nat) : Whole (decimal n) := by
  by_cases zero : n = 0
  · subst zero
    exact .zero
  · obtain ⟨c, rest, front⟩ := List.exists_cons_of_ne_nil (decimal_figures n).1
    have first := mt (decimal_head n).mp zero
    have figures := decimal_figures n
    rw [front] at first figures ⊢
    exact .positive (by simpa using first) figures

theorem numeral_append {digits : Bytes} (front : numeral? 10 digits = some n) (small : d < 10) :
    numeral? 10 (digits ++ [figure d]) = some (n * 10 + d) := by
  cases digits with
  | nil => cases front
  | cons c rest =>
    simp only [numeral?, List.cons_append] at front ⊢
    rw [← List.cons_append, List.foldlM_append, front]
    simp [(figure_value small).1]

theorem numeral_decimal (n : Nat) : numeral? 10 (decimal n) = some n := by
  induction n using Nat.strongRecOn with
  | ind n ih =>
    rw [decimal_step]
    split
    · rename_i small
      simp [numeral?, (figure_value small).1]
    · rw [numeral_append (ih (n / 10) (by omega)) (Nat.mod_lt _ (by omega))]
      congr 1
      omega

theorem decimalInt_cases (n : Int) : decimalInt n = (if n < 0 then [0x2D] else []) ++ decimal n.natAbs := by
  cases n with
  | ofNat n =>
    have positive : ¬Int.ofNat n < 0 := Int.not_lt.mpr (Int.natCast_nonneg n)
    rw [if_neg positive]
    rfl
  | negSucc n =>
    rw [if_pos (Int.negSucc_lt_zero n)]
    rfl

theorem decimalInt_numeral (n : Int) : Numeral (decimalInt n) := by
  rw [decimalInt_cases]
  have sign : (if n < 0 then [(0x2D : UInt8)] else []) = [] ∨ (if n < 0 then [(0x2D : UInt8)] else []) = [0x2D] := by
    split
    · exact .inr rfl
    · exact .inl rfl
  simpa using Numeral.intro sign (decimal_whole n.natAbs) .none .none

theorem spanDigits_decimal (n : Nat) : Decimal.spanDigits (decimal n) = (decimal n, []) := by
  have alone : (decimal n ++ []).span isDigit = (decimal n, []) := span_figures (decimal_figures n) fun _ first => nomatch first
  rwa [List.append_nil] at alone

theorem read_decimalInt (n : Int) : Decimal.read (decimalInt n) = ⟨decide (n < 0), n.natAbs, 0⟩ := by
  have unsigned : ∀ c rest, decimal n.natAbs = c :: rest → isDigit c = true := fun c rest front =>
    (decimal_figures n.natAbs).2 c (by rw [front]; exact List.mem_cons_self)
  unfold Decimal.read
  split
  rename_i negative digits parts
  have signed : negative = decide (n < 0) ∧ digits = decimal n.natAbs := by
    rw [decimalInt_cases] at parts
    by_cases below : n < 0
    · rw [if_pos below] at parts
      cases parts
      exact ⟨(decide_eq_true below).symm, rfl⟩
    · rw [if_neg below, List.nil_append] at parts
      split at parts
      · rename_i front
        exact absurd (unsigned _ _ front) (by decide)
      · rename_i front
        exact absurd (unsigned _ _ front) (by decide)
      · cases parts
        exact ⟨(decide_eq_false below).symm, rfl⟩
  obtain ⟨rfl, rfl⟩ := signed
  simp [spanDigits_decimal, numeral_decimal]

namespace Binary

theorem scaled_exact (a : Nat) {e : Int} (small : e ≤ 0) :
    ∃ m, scaled a 1 e = (m, 1) ∧ ∀ negative, truncate ⟨negative, m, e⟩ = if negative then -(a : Int) else a := by
  cases e with
  | ofNat e =>
    obtain rfl : e = 0 := by simpa using small
    exact ⟨a, by simp [scaled], fun negative => by simp [truncate]⟩
  | negSucc e =>
    refine ⟨a * Nat.pow 2 (e + 1), rfl, fun negative => ?_⟩
    have back : a * Nat.pow 2 (e + 1) / Nat.pow 2 (e + 1) = a := Nat.mul_div_cancel _ (Nat.pow_pos (by omega))
    simp only [truncate, back]

theorem roundDiv_one (a : Nat) : roundDiv a 1 = a := by
  simp [roundDiv, Nat.mod_one]

theorem pow_large (large : k ≤ limit) : 2 ^ k ≤ Nat.pow 2 limit := Nat.pow_le_pow_right (by omega) large

-- With any exponent that is not positive, a small number fits and none of it is rounded away.
theorem rounded_exact (negative : Bool) (small : a < 2 ^ 53) {e : Int} (fine : e ≤ 0) :
    ∃ b : Binary, (if 0 ≤ e && Nat.pow 2 BinaryFormat.double.limit ≤ roundDiv (scaled a 1 e).1 (scaled a 1 e).2 * Nat.pow 2 e.toNat
        then none else some (⟨negative, roundDiv (scaled a 1 e).1 (scaled a 1 e).2, e⟩ : Binary)) = some b ∧
      b.truncate = if negative then -(a : Int) else a := by
  obtain ⟨m, parts, value⟩ := scaled_exact a fine
  rw [parts, roundDiv_one]
  refine ⟨⟨negative, m, e⟩, if_neg ?_, value negative⟩
  rw [Bool.and_eq_true, decide_eq_true_eq, decide_eq_true_eq]
  rintro ⟨zero, large⟩
  obtain rfl : e = 0 := by omega
  cases parts
  have room := pow_large (show 53 ≤ BinaryFormat.double.limit by decide)
  have alone : a * Nat.pow 2 (0 : Int).toNat = a := by simp
  exact absurd (Nat.le_trans room (Nat.le_trans large (Nat.le_of_eq alone))) (Nat.not_le.mpr small)

-- Numbers with as many binary digits as a double has are kept as they are.
theorem nearest_exact (negative : Bool) (small : a < 2 ^ 53) :
    ∃ b, nearest? .double negative a 1 = some b ∧ b.truncate = if negative then -(a : Int) else a := by
  unfold nearest?
  split
  · rename_i zero
    subst zero
    exact ⟨_, rfl, by simp [truncate]⟩
  · rename_i positive
    have digits : a.log2 < 53 := (Nat.log2_lt positive).mpr small
    have one : Nat.log2 1 = 0 := by decide
    have precision : BinaryFormat.double.precision = 53 := rfl
    have least : BinaryFormat.double.least = -1074 := rfl
    refine rounded_exact negative small ?_
    split
    · dsimp only
      omega
    · dsimp only
      omega

-- So are they as decimals.
theorem ofDecimal_exact (negative : Bool) (small : a < 2 ^ 53) :
    ∃ b, ofDecimal? .double ⟨negative, a, 0⟩ = some b ∧ b.truncate = if negative then -(a : Int) else a := by
  have short : (Nat.toDigits 10 a).length ≤ 16 := by
    rw [Nat.length_toDigits_le_iff (by omega) (by omega)]
    omega
  have limit : reach = 500 := rfl
  unfold ofDecimal?
  dsimp only
  split
  · rename_i zero
    subst zero
    exact ⟨_, rfl, by simp [truncate]⟩
  · rw [if_neg (by omega), if_neg (by omega)]
    simpa using nearest_exact negative small

end Binary

theorem clamp64_word (word : isWord n = true) : clamp64 n = n := if_pos word

-- A whole number that is small enough is read back from its numeral.
theorem decimalInt_exact (small : n.natAbs < 2 ^ 53) :
    ∃ b, Binary.ofDecimal? .double (Decimal.read (decimalInt n)) = some b ∧ clamp64 b.truncate = n := by
  obtain ⟨b, found, value⟩ := Binary.ofDecimal_exact (decide (n < 0)) small
  have same : b.truncate = n := by
    rw [value]
    split
    · rename_i below
      have := of_decide_eq_true below
      omega
    · rename_i above
      have := mt decide_eq_true above
      omega
  have word : isWord n = true := by
    unfold isWord
    rw [Bool.and_eq_true, decide_eq_true_eq, decide_eq_true_eq]
    unfold signedLimit
    omega
  exact ⟨b, by rw [read_decimalInt, found], by rw [same, clamp64_word word]⟩

-- Microseconds that are small enough stay the same as nanoseconds.
theorem wrap64_micros (small : n.natAbs < 2 ^ 53) : (wrap64 (n * 1000)).tdiv 1000 = n := by
  have whole : wrap64 (n * 1000) = n * 1000 := by
    simp only [wrap64, signedLimit, wordCount]
    omega
  rw [whole, Int.mul_tdiv_cancel _ (by decide)]

end LineShell
