import LineShell.Proofs.Pieces
import LineShell.Proofs.Rescanning

-- A name runs on over backslashes, so the byte behind one that belongs to a name is not escaped for the expansion.
namespace LineShell.Line
open Bytes

-- The escapes of the rest of a line whose next byte is escaped or not, one byte at a time.
def escapesFrom : Bool → Bytes → List (UInt8 × Bool)
  | _, [] => []
  | escaped, c :: rest => (c, escaped) :: escapesFrom (!escaped && c = backslash) rest

theorem escapes_from (text : Bytes) : escapes text = escapesFrom false text := by
  fun_induction escapes text with
  | case1 => rfl
  | case2 => rfl
  | case3 d rest ih => simp [escapesFrom, ih]
  | case4 c rest plain ih => simp [escapesFrom, plain, ih]

def Mode.isNaming : Mode → Bool
  | .naming _ => true
  | _ => false

namespace Pass

-- The pass in front of byte `i`.
def before (pass : Pass) : Bytes → Nat → Pass
  | c :: text, i + 1 => (pass.step c (text.head? = some openParen)).2.before text i
  | _, _ => pass

-- What it gives for byte `i`.
def emitted (pass : Pass) : Bytes → Nat → List Piece
  | [], _ => []
  | c :: text, 0 => (pass.step c (text.head? = some openParen)).1
  | c :: text, i + 1 => (pass.step c (text.head? = some openParen)).2.emitted text i

theorem pieces_emitted (pass : Pass) (text : Bytes) :
    pass.pieces text = (List.range text.length).flatMap (pass.emitted text) ++ (pass.before text text.length).ending := by
  induction text generalizing pass with
  | nil => rfl
  | cons c text ih =>
    rw [pieces, ih, List.length_cons, List.range_succ_eq_map, List.flatMap_cons, List.flatMap_map, List.append_assoc]
    rfl

-- In step with the escapes: only in a name it does not know whether the next byte is escaped.
def InStep (pass : Pass) (escaped : Bool) : Prop :=
  match pass.mode with
  | .plain => escaped = false
  | .escaped => escaped = true
  | .naming _ => True

-- One byte. The switch is thrown by the single quotes that are not escaped or come while a name is read.
structure Stepped (pass : Pass) (escaped : Bool) (c : UInt8) (given : List Piece) (next : Pass) : Prop where
  inStep : next.InStep (!escaped && c = backslash)
  switched : next.enabled = if c = singleQuote ∧ (escaped = false ∨ pass.mode.isNaming = true) then !pass.enabled else pass.enabled
  copied : escaped = true → pass.mode.isNaming = false → given = [.literal c] ∧ next = ⟨.plain, pass.enabled⟩

theorem read_inStep (enabled escaped : Bool) (c : UInt8) (paren : Bool) (plain : escaped = false ∨ c ≠ backslash) :
    (read enabled c paren).2.InStep (!escaped && c = backslash) := by
  by_cases escapes : c = backslash
  · obtain rfl : escaped = false := plain.resolve_right (not_not_intro escapes)
    simp [read, escapes, InStep]
  · unfold read
    split_ifs <;> simp [escapes, InStep]

theorem read_enabled (enabled : Bool) (c : UInt8) (paren : Bool) :
    (read enabled c paren).2.enabled = if c = singleQuote then !enabled else enabled := by
  have apart : backslash ≠ singleQuote := by decide
  unfold read
  split_ifs <;> simp_all

theorem step_stepped {pass : Pass} (inStep : pass.InStep escaped) (c : UInt8) (paren : Bool) :
    Stepped pass escaped c (pass.step c paren).1 (pass.step c paren).2 := by
  obtain ⟨mode, enabled⟩ := pass
  cases mode with
  | plain =>
    obtain rfl : escaped = false := inStep
    exact ⟨read_inStep enabled false c paren (.inl rfl), by simpa [step] using read_enabled enabled c paren, by rintro ⟨⟩⟩
  | escaped =>
    obtain rfl : escaped = true := inStep
    exact ⟨rfl, by simp [step, Mode.isNaming], fun _ _ => ⟨rfl, rfl⟩⟩
  | naming name =>
    by_cases ends : isNameEnd c = true
    · have plain : c ≠ backslash := by rintro rfl; cases ends
      refine ⟨?_, ?_, by rintro _ ⟨⟩⟩
      · simpa [step, ends] using read_inStep enabled escaped c paren (.inr plain)
      · simpa [step, ends, Mode.isNaming] using read_enabled enabled c paren
    · have other : c ≠ singleQuote := by rintro rfl; exact ends rfl
      exact ⟨by simp [step, ends, InStep], by simp [step, ends, other], by rintro _ ⟨⟩⟩

-- A whole word, byte by byte.
theorem before_stepped {pass : Pass} (inStep : pass.InStep escaped) (text : Bytes) (i : Nat)
    (here : (escapesFrom escaped text)[i]? = some (c, behind)) :
    Stepped (pass.before text i) behind c (pass.emitted text i) (pass.before text (i + 1)) := by
  induction text generalizing pass escaped i with
  | nil => cases here
  | cons d text ih =>
    cases i with
    | zero =>
      obtain ⟨rfl, rfl⟩ : d = c ∧ escaped = behind := by simpa [escapesFrom] using here
      have stepped := step_stepped inStep d (text.head? = some openParen)
      cases text <;> exact stepped
    | succ i => exact ih (step_stepped inStep d (text.head? = some openParen)).inStep i here

theorem before_end (pass : Pass) (text : Bytes) (beyond : text.length ≤ i) : pass.before text (i + 1) = pass.before text i := by
  induction text generalizing pass i with
  | nil => cases i <;> rfl
  | cons c text ih =>
    cases i with
    | zero => cases beyond
    | succ i => exact ih _ (Nat.le_of_succ_le_succ beyond)

end Pass

-- The places of the pairs are the places that were paired.
theorem pairUp_ends (list : List Nat) (even : Even list.length) :
    (∃ span ∈ pairUp list, i = span.first ∨ i = span.last) ↔ i ∈ list := by
  conv_rhs => rw [← pairUp_flatten even]
  simp [List.mem_flatMap]

-- The expansion of a word in front of byte `i`.
def passAt (word : Bytes) (i : Nat) : Pass := Pass.before {} word i

-- A name is being read there.
def Naming (word : Bytes) (i : Nat) : Prop := (passAt word i).mode.isNaming = true

-- Byte `i` switches the replacing of variables off or on.
def Toggles (word : Bytes) (i : Nat) : Prop := (passAt word (i + 1)).enabled ≠ (passAt word i).enabled

-- Byte `i` is copied, and the expansion goes on as if it were not there.
structure Copied (word : Bytes) (i : Nat) (c : UInt8) : Prop where
  piece : Pass.emitted {} word i = [.literal c]
  plain : passAt word (i + 1) = ⟨.plain, (passAt word i).enabled⟩

-- An escaped single quote whose backslash belongs to a name.
structure Slips (word : Bytes) (i : Nat) : Prop where
  escaped : (escapes word)[i]? = some (singleQuote, true)
  naming : Naming word i

theorem Slips.below (slips : Slips word i) : i < word.length := by
  have within := (List.getElem?_eq_some_iff.mp slips.escaped).1
  rwa [escapes_length] at within

instance : Decidable (Naming word i) := inferInstanceAs (Decidable (_ = _))

instance : Decidable (Toggles word i) := inferInstanceAs (Decidable (_ ≠ _))

instance : Decidable (Slips word i) := decidable_of_iff (_ ∧ _) ⟨fun ⟨escaped, naming⟩ => ⟨escaped, naming⟩, fun slips => ⟨slips.escaped, slips.naming⟩⟩

theorem passAt_stepped (here : (escapes word)[i]? = some (c, escaped)) :
    Pass.Stepped (passAt word i) escaped c (Pass.emitted {} word i) (passAt word (i + 1)) := by
  have start : Pass.InStep {} false := rfl
  rw [escapes_from] at here
  exact Pass.before_stepped start word i here

theorem toggles_iff (word : Bytes) (i : Nat) : Toggles word i ↔ (escapes word)[i]? = some (singleQuote, false) ∨ Slips word i := by
  rcases here : (escapes word)[i]? with _ | ⟨c, escaped⟩
  · have still : passAt word (i + 1) = passAt word i :=
      Pass.before_end {} word (by simpa using List.getElem?_eq_none_iff.mp here)
    constructor
    · intro toggles
      exact absurd (congrArg Pass.enabled still) toggles
    · rintro (wrong | slips)
      · cases wrong
      · cases here.symm.trans slips.escaped
  · have switched := (passAt_stepped here).switched
    have slips : Slips word i ↔ c = singleQuote ∧ escaped = true ∧ Naming word i := by
      constructor
      · rintro ⟨same, naming⟩
        cases here.symm.trans same
        exact ⟨rfl, rfl, naming⟩
      · rintro ⟨rfl, rfl, naming⟩
        exact ⟨here, naming⟩
    rw [Toggles, switched, slips, Naming]
    cases escaped <;> simp

theorem copied_of_escaped (here : (escapes word)[i]? = some (c, true)) (apart : ¬Naming word i) : Copied word i c := by
  obtain ⟨piece, plain⟩ := (passAt_stepped here).copied rfl (by simpa [Naming] using apart)
  exact ⟨piece, plain⟩

-- Where no escaped quote is taken for a quote, variables are replaced behind an even number of single quotes.
theorem enabled_count (none : ∀ i, ¬Slips word i) (n : Nat) :
    (passAt word n).enabled = decide (Even (((escapes word).take n).count (singleQuote, false))) := by
  induction n with
  | zero => cases word <;> rfl
  | succ n ih =>
    have toggles := (toggles_iff word n).trans (or_iff_left (none n))
    rw [List.take_add_one, List.count_append]
    by_cases quote : (escapes word)[n]? = some (singleQuote, false)
    · have changed : (passAt word (n + 1)).enabled = !(passAt word n).enabled := Bool.eq_not_of_ne (toggles.mpr quote)
      rw [changed, ih, quote, Option.toList_some, List.count_singleton_self, decide_eq_decide.mpr Nat.even_add_one, decide_not]
    · have same : (passAt word (n + 1)).enabled = (passAt word n).enabled := by simpa [Toggles] using mt toggles.mp quote
      have noMore : (escapes word)[n]?.toList.count (singleQuote, false) = 0 := by
        rw [List.count_eq_zero, Option.mem_toList]
        exact quote
      rw [same, ih, noMore, Nat.add_zero]

theorem token_paired (splits : split line = .ok tokens) (member : word ∈ tokens) (quote : IsQuote q) :
    Even (places word q).length := by
  obtain ⟨runs, placed⟩ := split_placed splits
  rw [placed.words] at member
  obtain ⟨run, here, rfl⟩ := List.mem_map.mp member
  obtain ⟨_, _, apart⟩ := word_apart ((placed.exactly run).mp here) splits quote
  exact apart.paired

-- The expansion of a word of a line, byte by byte, against the quotes and escapes that the tokenizer sees in it.
theorem expand_quotes (line : Bytes) (tokens : List Bytes) (word : Bytes) (splits : split line = .ok tokens) (member : word ∈ tokens) :
    (∀ lookups, expand lookups word =
      ((List.range word.length).flatMap (Pass.emitted {} word) ++ (passAt word word.length).ending).flatMap (Piece.text lookups)) ∧
    ∃ spans, quoteSpans word singleQuote = .ok spans ∧
      (∀ i, Toggles word i ↔ (∃ span ∈ spans, i = span.first ∨ i = span.last) ∨ Slips word i) ∧
      (∀ i c, (escapes word)[i]? = some (c, true) → ¬Naming word i → Copied word i c) ∧
      ((∀ i < word.length, ¬Slips word i) → (passAt word word.length).enabled = true) := by
  have even := token_paired splits member (.inl rfl : IsQuote singleQuote)
  refine ⟨fun lookups => ?_, pairUp (places word singleQuote), (quoteSpans_places (.inl rfl) word _).mpr ⟨even, rfl⟩,
    fun i => ?_, fun i c here apart => copied_of_escaped here apart, fun none => ?_⟩
  · rw [passAt, ← Pass.pieces_emitted]
    exact expandFrom_pieces lookups none true word
  · rw [toggles_iff, pairUp_ends _ even, mem_places]
  · rw [enabled_count (fun i slips => none i slips.below slips), List.take_of_length_le (by simp), ← places_length]
    exact decide_eq_true even

-- Escaped quotes in front of a name and behind one that has ended.
theorem expand_quotes_mixed :
    split (ascii "mecho a\\'$x'$y'\\$z $(b)") = .ok [ascii "mecho", ascii "a\\'$x'$y'\\$z", ascii "$(b)"] ∧
      Copied (ascii "a\\'$x'$y'\\$z") 2 singleQuote ∧ Copied (ascii "a\\'$x'$y'\\$z") 10 dollar ∧
      (passAt (ascii "a\\'$x'$y'\\$z") 12).enabled = true := by
  have splits : split (ascii "mecho a\\'$x'$y'\\$z $(b)") = .ok [ascii "mecho", ascii "a\\'$x'$y'\\$z", ascii "$(b)"] :=
    split_cut.mpr (by decide +kernel)
  obtain ⟨_, _, _, _, copied, ends⟩ := expand_quotes _ _ (ascii "a\\'$x'$y'\\$z") splits (by decide)
  exact ⟨splits, copied 2 singleQuote (by decide +kernel) (by decide +kernel), copied 10 dollar (by decide +kernel) (by decide +kernel),
    ends (by decide +kernel)⟩

-- A quote right behind a name and its backslash is a quote, although the tokenizer sees none: no variable is
-- replaced behind it.
theorem expand_quotes_named :
    split (ascii "$x\\'$y") = .ok [ascii "$x\\'$y"] ∧ subshellSpans (ascii "$x\\'$y") = .ok [] ∧
      quoteSpans (ascii "$x\\'$y") singleQuote = .ok [] ∧ (escapes (ascii "$x\\'$y"))[3]? = some (singleQuote, true) ∧
      Toggles (ascii "$x\\'$y") 3 ∧ ¬Copied (ascii "$x\\'$y") 3 singleQuote ∧ (passAt (ascii "$x\\'$y") 6).enabled = false ∧
      expand [fun name => if name = ascii "y" then some (ascii "7") else none] (ascii "$x\\'$y") = ascii "$y" := by
  refine ⟨split_cut.mpr (by decide +kernel), by decide +kernel, by decide +kernel, by decide +kernel, by decide +kernel, ?_,
    by decide +kernel, by decide +kernel⟩
  intro copied
  exact absurd copied.piece (by decide +kernel)

end LineShell.Line
