import LineShell.Line.Comment
import LineShell.Line.Expansion
import LineShell.Line.Word

-- Every scan passes over a backslash together with the byte behind it and otherwise looks at one byte, so each has one
-- equation for an escaped byte and one for a plain byte.
namespace LineShell.Line
open Bytes

-- Comments.

theorem stripFrom_escaped (quotes : Quotes) (d : UInt8) (rest : Bytes) :
    stripFrom quotes (backslash :: d :: rest) = backslash :: d :: stripFrom quotes rest := rfl

theorem stripFrom_single (plain : c ≠ backslash) (rest : Bytes) :
    stripFrom .single (c :: rest) = c :: stripFrom (if c = singleQuote then .outside else .single) rest := by
  rw [stripFrom.eq_def]
  simp [plain]

theorem stripFrom_outside (plain : c ≠ backslash) (rest : Bytes) :
    stripFrom .outside (c :: rest) =
      if c = singleQuote then c :: stripFrom .single rest
      else if c = doubleQuote then c :: stripFrom .double rest
      else if c = hash then [] else c :: stripFrom .outside rest := by
  rw [stripFrom.eq_def]
  simp [plain]

-- Quotes.

theorem quoteSpansFrom_escaped (q : UInt8) (i : Nat) (opened : Option (Nat × Bytes)) (d : UInt8) (rest : Bytes) :
    quoteSpansFrom q i opened (backslash :: d :: rest) = quoteSpansFrom q (i + 2) opened rest := by
  cases opened with
  | none => rfl
  | some begun => rfl

theorem quoteSpansFrom_plain (plain : c ≠ backslash) (q : UInt8) (i : Nat) (opened : Option (Nat × Bytes)) (rest : Bytes) :
    quoteSpansFrom q i opened (c :: rest) =
      if c = q then
        match opened with
        | none => quoteSpansFrom q (i + 1) (some (i, c :: rest)) rest
        | some (start, _) => (⟨start, i⟩ :: ·) <$> quoteSpansFrom q (i + 1) none rest
      else quoteSpansFrom q (i + 1) opened rest := by
  rw [quoteSpansFrom.eq_def]
  cases opened with
  | none => simp [plain]
  | some begun => simp [plain]

theorem quoteSpansFrom_other (plain : c ≠ backslash) (other : c ≠ q) (i : Nat)
    (opened : Option (Nat × Bytes)) (rest : Bytes) :
    quoteSpansFrom q i opened (c :: rest) = quoteSpansFrom q (i + 1) opened rest := by
  rw [quoteSpansFrom_plain plain, if_neg other]

theorem quoteSpansFrom_opening (plain : q ≠ backslash) (i : Nat) (rest : Bytes) :
    quoteSpansFrom q i none (q :: rest) = quoteSpansFrom q (i + 1) (some (i, q :: rest)) rest := by
  rw [quoteSpansFrom_plain plain, if_pos rfl]

theorem quoteSpansFrom_closing (plain : q ≠ backslash) (i start : Nat) (tail rest : Bytes) :
    quoteSpansFrom q i (some (start, tail)) (q :: rest) =
      (⟨start, i⟩ :: ·) <$> quoteSpansFrom q (i + 1) none rest := by
  rw [quoteSpansFrom_plain plain, if_pos rfl]

-- Command substitution.

theorem subshellSpansFrom_escaped (i : Nat) (quoted : Bool) (d : UInt8) (rest : Bytes) :
    subshellSpansFrom i (.outside quoted) (backslash :: d :: rest) =
      subshellSpansFrom (i + 2) (.outside quoted) rest := rfl

theorem subshellSpansFrom_plain (plain : c ≠ backslash) (i : Nat) (quoted : Bool) (rest : Bytes) :
    subshellSpansFrom i (.outside quoted) (c :: rest) =
      if c = singleQuote then subshellSpansFrom (i + 1) (.outside (!quoted)) rest
      else if c = dollar ∧ quoted = false ∧ rest.head? = some openParen then
        subshellSpansFrom (i + 1) (.inside 0 i (c :: rest)) rest
      else subshellSpansFrom (i + 1) (.outside quoted) rest := by
  rw [subshellSpansFrom.eq_def]
  simp only [plain, if_false]

theorem subshellSpansFrom_singleQuote (i : Nat) (quoted : Bool) (rest : Bytes) :
    subshellSpansFrom i (.outside quoted) (singleQuote :: rest) =
      subshellSpansFrom (i + 1) (.outside !quoted) rest := by
  rw [subshellSpansFrom_plain (by decide), if_pos rfl]

theorem subshellSpansFrom_other (plain : c ≠ backslash) (other : c ≠ singleQuote) (i : Nat)
    (quoted : Bool) (rest : Bytes) (harmless : c ≠ dollar ∨ quoted = true) :
    subshellSpansFrom i (.outside quoted) (c :: rest) = subshellSpansFrom (i + 1) (.outside quoted) rest := by
  have closed : ¬(c = dollar ∧ quoted = false ∧ rest.head? = some openParen) := by
    rintro ⟨isDollar, unquoted, _⟩
    rcases harmless with notDollar | isQuoted
    · exact notDollar isDollar
    · rw [isQuoted] at unquoted; cases unquoted
  rw [subshellSpansFrom_plain plain, if_neg other, if_neg closed]

-- Words.

theorem wordsFrom_escaped (guarded : Nat → Bool) (i : Nat) (word : Bytes) (d : UInt8) (rest : Bytes) :
    wordsFrom guarded i word (backslash :: d :: rest) = wordsFrom guarded (i + 2) (d :: backslash :: word) rest := rfl

theorem wordsFrom_plain (plain : c ≠ backslash) (guarded : Nat → Bool) (i : Nat) (word rest : Bytes) :
    wordsFrom guarded i word (c :: rest) =
      if c ≠ space ∨ guarded i then wordsFrom guarded (i + 1) (c :: word) rest
      else finish word ++ wordsFrom guarded (i + 1) [] rest := by
  rw [wordsFrom.eq_def]
  simp only [plain, if_false]

theorem wordsFrom_kept (plain : c ≠ backslash) (guarded : Nat → Bool) (i : Nat) (word rest : Bytes)
    (kept : c ≠ space ∨ guarded i = true) :
    wordsFrom guarded i word (c :: rest) = wordsFrom guarded (i + 1) (c :: word) rest := by
  rw [wordsFrom_plain plain, if_pos kept]

theorem wordsFrom_separator (guarded : Nat → Bool) (i : Nat) (word rest : Bytes)
    (separates : guarded i = false) :
    wordsFrom guarded i word (space :: rest) = finish word ++ wordsFrom guarded (i + 1) [] rest := by
  rw [wordsFrom_plain (by decide), if_neg (by simp [separates])]

-- Only what a guard says from the current place on matters.
theorem wordsFrom_congr (g h : Nat → Bool) (text : Bytes) (i : Nat) (word : Bytes)
    (agree : ∀ j, i ≤ j → g j = h j) : wordsFrom g i word text = wordsFrom h i word text := by
  fun_induction wordsFrom g i word text with
  | case1 => rfl
  | case2 i word => rfl
  | case3 i word d rest ih =>
    rw [wordsFrom_escaped]
    exact ih (fun j later => agree j (by omega))
  | case4 i word c rest plain kept ih =>
    rw [wordsFrom_kept plain h]
    · exact ih (fun j later => agree j (by omega))
    · rwa [agree i (Nat.le_refl i)] at kept
  | case5 i word c rest plain separates ih =>
    simp only [not_or, ne_eq, Decidable.not_not, Bool.not_eq_true] at separates
    obtain ⟨rfl, unguarded⟩ := separates
    rw [agree i (Nat.le_refl i)] at unguarded
    rw [wordsFrom_separator h i word rest unguarded, ih (fun j later => agree j (by omega))]

-- Expansion.

theorem expandFrom_escaped (value : Bytes → Bytes) (enabled : Bool) (d : UInt8) (rest : Bytes) :
    expandFrom value none enabled (backslash :: d :: rest) = d :: expandFrom value none enabled rest := rfl

theorem expandFrom_singleQuote (value : Bytes → Bytes) (enabled : Bool) (rest : Bytes) :
    expandFrom value none enabled (singleQuote :: rest) = expandFrom value none (!enabled) rest := by
  have plain : singleQuote ≠ backslash := by decide
  rw [expandFrom.eq_def]
  simp [finishName, plain]

theorem expandFrom_disabled (plain : c ≠ backslash) (notSingle : c ≠ singleQuote) (notDouble : c ≠ doubleQuote)
    (value : Bytes → Bytes) (rest : Bytes) :
    expandFrom value none false (c :: rest) = c :: expandFrom value none false rest := by
  rw [expandFrom.eq_def]
  simp [finishName, plain, notSingle, notDouble]

end LineShell.Line
