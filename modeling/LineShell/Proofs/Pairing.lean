import Mathlib.Algebra.Ring.Parity
import Mathlib.Data.List.Basic
import LineShell.Proofs.Words

-- Which bytes are escaped depends on the line alone, so the search for one kind of quote takes its unescaped places two
-- at a time.
namespace LineShell.Line
open Bytes

-- Each byte of a line with whether it is escaped: the scan from the left passes over the byte behind a
-- backslash that is not escaped itself.
def escapes : Bytes → List (UInt8 × Bool)
  | [] => []
  | c :: rest =>
    if c = backslash then
      match rest with
      | [] => [(c, false)]
      | d :: rest => (c, false) :: (d, true) :: escapes rest
    else (c, false) :: escapes rest

theorem escapes_escaped (d : UInt8) (rest : Bytes) :
    escapes (backslash :: d :: rest) = (backslash, false) :: (d, true) :: escapes rest := by
  simp [escapes]

theorem escapes_plain (plain : c ≠ backslash) (rest : Bytes) : escapes (c :: rest) = (c, false) :: escapes rest := by
  rw [escapes.eq_def]
  simp [plain]

theorem escapes_fst (line : Bytes) : (escapes line).map Prod.fst = line := by
  fun_induction escapes line with
  | case1 => rfl
  | case2 => rfl
  | case3 d rest ih => simp [ih]
  | case4 c rest _ ih => simp [ih]

@[simp] theorem escapes_length (line : Bytes) : (escapes line).length = line.length := by
  simpa using congrArg List.length (escapes_fst line)

theorem escapes_byte {text : Bytes} {i : Nat} (here : (escapes text)[i]? = some (c, escaped)) : text[i]? = some c := by
  rw [← escapes_fst text, List.getElem?_map, here]
  rfl

-- The unescaped places of a byte from byte `i` on.
def placesFrom (q : UInt8) (i : Nat) (text : Bytes) : List Nat := (escapes text).findIdxs (· = (q, false)) i

-- Places taken two at a time; one left over is dropped.
def pairUp : List Nat → List Span
  | first :: last :: rest => ⟨first, last⟩ :: pairUp rest
  | _ => []

-- The place of the quote that is open, if any.
def openPlace (opened : Option (Nat × Bytes)) : List Nat := (opened.map Prod.fst).toList

theorem placesFrom_escaped (q : UInt8) (i : Nat) (d : UInt8) (rest : Bytes) (plain : q ≠ backslash) :
    placesFrom q i (backslash :: d :: rest) = placesFrom q (i + 2) rest := by
  simp [placesFrom, escapes_escaped, plain.symm]

theorem placesFrom_other (plain : c ≠ backslash) (other : c ≠ q) (i : Nat) (rest : Bytes) :
    placesFrom q i (c :: rest) = placesFrom q (i + 1) rest := by
  simp [placesFrom, escapes_plain plain, other]

theorem placesFrom_quote (plain : q ≠ backslash) (i : Nat) (rest : Bytes) :
    placesFrom q i (q :: rest) = i :: placesFrom q (i + 1) rest := by
  simp [placesFrom, escapes_plain plain]

-- The search goes wrong only at the end, where a quote is left over, and otherwise gives the pairs.
theorem quoteSpansFrom_places (q : UInt8) (plain : q ≠ backslash) (i : Nat) (opened : Option (Nat × Bytes)) (text : Bytes)
    (spans : List Span) :
    quoteSpansFrom q i opened text = .ok spans ↔
      Even (openPlace opened ++ placesFrom q i text).length ∧ spans = pairUp (openPlace opened ++ placesFrom q i text) := by
  fun_induction quoteSpansFrom q i opened text generalizing spans with
  | case1 i => simp [openPlace, placesFrom, escapes, pairUp, eq_comm]
  | case2 i start tail => simp [openPlace, placesFrom, escapes]
  | case3 i opened ih =>
    rw [ih]
    simp [placesFrom, escapes, plain.symm]
  | case4 i opened d rest ih => rw [ih, placesFrom_escaped q i d rest plain]
  | case5 i rest _ ih =>
    rw [ih, placesFrom_quote plain]
    simp [openPlace]
  | case6 i rest start tail _ ih =>
    have later : (∃ others, quoteSpansFrom q (i + 1) none rest = .ok others ∧ ⟨start, i⟩ :: others = spans) ↔
        (⟨start, i⟩ :: ·) <$> quoteSpansFrom q (i + 1) none rest = .ok spans := by
      rcases quoteSpansFrom q (i + 1) none rest with e | others
      · exact ⟨by rintro ⟨_, ⟨⟩, _⟩, by rintro ⟨⟩⟩
      · exact ⟨by rintro ⟨_, ⟨⟩, rfl⟩; rfl, by rintro ⟨⟩; exact ⟨others, rfl, rfl⟩⟩
    rw [← later, placesFrom_quote plain]
    simp only [ih, openPlace, Option.map_none, Option.toList_none, List.nil_append, Option.map_some, Option.toList_some,
      List.cons_append, List.length_cons, pairUp, Nat.even_add_one, not_not]
    constructor
    · rintro ⟨others, ⟨even, rfl⟩, rfl⟩
      exact ⟨even, rfl⟩
    · rintro ⟨even, rfl⟩
      exact ⟨_, ⟨even, rfl⟩, rfl⟩
  | case7 i opened c rest notBackslash notQuote ih => rw [ih, placesFrom_other notBackslash notQuote]

-- The unescaped places of a quote in a line.
def places (line : Bytes) (q : UInt8) : List Nat := placesFrom q 0 line

theorem mem_places (line : Bytes) (q : UInt8) : i ∈ places line q ↔ (escapes line)[i]? = some (q, false) := by
  rw [places, placesFrom, List.mem_findIdxs_iff_exists_getElem_pos, List.getElem?_eq_some_iff]
  simp

-- One of the two bytes that quote.
def IsQuote (q : UInt8) : Prop := q = singleQuote ∨ q = doubleQuote

theorem IsQuote.plain (quote : IsQuote q) : q ≠ backslash := by
  rcases quote with rfl | rfl <;> decide

theorem quoteSpans_places (quote : IsQuote q) (line : Bytes) (spans : List Span) :
    quoteSpans line q = .ok spans ↔ Even (places line q).length ∧ spans = pairUp (places line q) :=
  quoteSpansFrom_places q quote.plain 0 none line spans

theorem places_length (line : Bytes) (q : UInt8) : (places line q).length = (escapes line).count (q, false) := by
  rw [places, placesFrom, List.length_findIdxs, List.count_eq_countP]
  exact List.countP_congr (by simp)

-- Pairing fails exactly if the number of places is odd.
theorem quoteSpans_fails (quote : IsQuote q) (line : Bytes) :
    (∃ fault, quoteSpans line q = .error fault) ↔ Odd ((escapes line).count (q, false)) := by
  rw [← places_length, ← Nat.not_even_iff_odd]
  constructor
  · rintro ⟨fault, failed⟩ even
    rw [(quoteSpans_places quote line _).mpr ⟨even, rfl⟩] at failed
    cases failed
  · intro odd
    rcases found : quoteSpans line q with fault | spans
    · exact ⟨fault, rfl⟩
    · exact absurd ((quoteSpans_places quote line spans).mp found).1 odd

theorem pairUp_append (front back : List Nat) (even : Even front.length) :
    pairUp (front ++ back) = pairUp front ++ pairUp back := by
  induction front using pairUp.induct with
  | case1 first last rest ih =>
    have fewer : Even rest.length := by simpa [Nat.even_add_one] using even
    simp [pairUp, ih fewer]
  | case2 front short =>
    cases front with
    | nil => rfl
    | cons first rest =>
      cases rest with
      | nil => simp at even
      | cons last rest => exact absurd rfl (short first last rest)

-- The pairs hold every place once and in order.
theorem pairUp_flatten (even : Even list.length) : (pairUp list).flatMap (fun span => [span.first, span.last]) = list := by
  induction list using pairUp.induct with
  | case1 first last rest ih =>
    have fewer : Even rest.length := by simpa [Nat.even_add_one] using even
    simp [pairUp, ih fewer]
  | case2 list short =>
    cases list with
    | nil => rfl
    | cons first rest =>
      cases rest with
      | nil => simp at even
      | cons last rest => exact absurd rfl (short first last rest)

-- What stands in a pair was a place.
theorem mem_pairUp (member : span ∈ pairUp list) : span.first ∈ list ∧ span.last ∈ list := by
  induction list using pairUp.induct with
  | case1 first last rest ih =>
    rcases List.mem_cons.mp member with rfl | behind
    · simp
    · have ⟨one, other⟩ := ih behind
      simp [one, other]
  | case2 list short =>
    unfold pairUp at member
    split at member
    · exact absurd rfl (short _ _ _)
    · cases member

theorem pairUp_map (shift : Nat → Nat) (list : List Nat) :
    pairUp (list.map shift) = (pairUp list).map (fun span => ⟨shift span.first, shift span.last⟩) := by
  induction list using pairUp.induct with
  | case1 first last rest ih => simp [pairUp, ih]
  | case2 list short =>
    cases list with
    | nil => rfl
    | cons first rest =>
      cases rest with
      | nil => rfl
      | cons last rest => exact absurd rfl (short first last rest)

-- A place with an odd number of quotes in front stands in the pair of the last of them.
theorem covered_of_odd (front back : List Nat) (odd : Odd front.length) (even : Even (front ++ back).length)
    (before : ∀ p ∈ front, p < i) (behind : ∀ p ∈ back, i < p) : covered (pairUp (front ++ back)) i = true := by
  induction front using pairUp.induct with
  | case1 first last rest ih =>
    have fewer : Odd rest.length := by simpa [Nat.odd_add_one] using odd
    have later : covered (pairUp (rest ++ back)) i = true :=
      ih fewer (by simpa [Nat.even_add_one] using even) (fun p member => before p (by simp [member]))
    simp only [covered] at later
    simp [pairUp, covered, later]
  | case2 front short =>
    cases front with
    | nil => simp at odd
    | cons first rest =>
      cases rest with
      | cons last rest => exact absurd rfl (short first last rest)
      | nil =>
        cases back with
        | nil => simp at even
        | cons last back => exact covered_of_mem (List.mem_cons_self) (before first (by simp)) (behind last (by simp))

end LineShell.Line
