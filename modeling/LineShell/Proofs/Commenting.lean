import LineShell.Proofs.Rescanning

-- Where a comment begins is read with a quote of one kind hiding those of the other, while words come from pairing each
-- kind on its own: the two readings part where quoted regions cross.
namespace LineShell.Line
open Bytes

-- One unescaped byte, where an open quote hides the quotes of the other kind.
def hides : Option UInt8 → UInt8 → Option UInt8
  | none, c => if c = singleQuote ∨ c = doubleQuote then some c else none
  | some q, c => if c = q then none else some q

-- The quote that a line leaves open in that reading.
def leftOpen (outer : Option UInt8) (line : Bytes) : Option UInt8 :=
  ((escapes line).filter (fun byte => !byte.2)).foldl (fun outer byte => hides outer byte.1) outer

-- One region opens inside the other and closes behind it.
def Crosses (a b : Span) : Prop :=
  (a.first < b.first ∧ b.first < a.last ∧ a.last < b.last) ∨ (b.first < a.first ∧ a.first < b.last ∧ b.last < a.last)

instance (a b : Span) : Decidable (Crosses a b) := inferInstanceAs (Decidable (_ ∨ _))

theorem hides_other (outer : Option UInt8) (single : c ≠ singleQuote) (double : c ≠ doubleQuote)
    (known : ∀ q, outer = some q → IsQuote q) : hides outer c = outer := by
  cases outer with
  | none => simp [hides, single, double]
  | some q =>
    have other : c ≠ q := by rcases known q rfl with rfl | rfl <;> assumption
    simp [hides, other]

theorem leftOpen_escaped (outer : Option UInt8) (known : ∀ q, outer = some q → IsQuote q) (d : UInt8) (rest : Bytes) :
    leftOpen outer (backslash :: d :: rest) = leftOpen outer rest := by
  have still : hides outer backslash = outer := hides_other outer (by decide) (by decide) known
  simp [leftOpen, escapes_escaped, still]

theorem leftOpen_plain (plain : c ≠ backslash) (outer : Option UInt8) (rest : Bytes) :
    leftOpen outer (c :: rest) = leftOpen (hides outer c) rest := by
  simp [leftOpen, escapes_plain plain]

-- The search for a comment

def Quotes.held : Quotes → Option UInt8
  | .outside => none
  | .single => some singleQuote
  | .double => some doubleQuote

theorem Quotes.held_known (quotes : Quotes) : ∀ q, quotes.held = some q → IsQuote q := by
  rintro q here
  cases quotes with
  | outside => cases here
  | single => exact .inl (Option.some.inj here).symm
  | double => exact .inr (Option.some.inj here).symm

theorem stripFrom_double (plain : c ≠ backslash) (rest : Bytes) :
    stripFrom .double (c :: rest) = c :: stripFrom (if c = doubleQuote then .outside else .double) rest := by
  rw [stripFrom.eq_def]
  simp [plain]

theorem stripFrom_plain (plain : c ≠ backslash) (other : c ≠ hash) (quotes : Quotes) (rest : Bytes) :
    ∃ next : Quotes, next.held = hides quotes.held c ∧ stripFrom quotes (c :: rest) = c :: stripFrom next rest := by
  cases quotes with
  | outside =>
    rw [stripFrom_outside plain]
    by_cases single : c = singleQuote
    · exact ⟨.single, by simp [Quotes.held, hides, single], if_pos single⟩
    · by_cases double : c = doubleQuote
      · exact ⟨.double, by simp [Quotes.held, hides, double], by rw [if_neg single, if_pos double]⟩
      · exact ⟨.outside, by simp [Quotes.held, hides, single, double], by rw [if_neg single, if_neg double, if_neg other]⟩
  | single =>
    refine ⟨if c = singleQuote then .outside else .single, ?_, stripFrom_single plain rest⟩
    split_ifs with closes <;> simp [Quotes.held, hides, closes]
  | double =>
    refine ⟨if c = doubleQuote then .outside else .double, ?_, stripFrom_double plain rest⟩
    split_ifs with closes <;> simp [Quotes.held, hides, closes]

-- A line without a comment of its own is kept, with the space behind it, and the search goes on with what is open.
theorem stripFrom_behind (quotes : Quotes) (line text : Bytes) (noHash : hash ∉ line) :
    ∃ next : Quotes, next.held = leftOpen quotes.held line ∧
      stripFrom quotes (line ++ space :: text) = line ++ space :: stripFrom next text := by
  induction line using escapes.induct generalizing quotes with
  | case1 =>
    obtain ⟨next, still, strips⟩ := stripFrom_plain (c := space) (by decide) (by decide) quotes text
    rw [hides_other _ (by decide) (by decide) quotes.held_known] at still
    exact ⟨next, still, strips⟩
  | case2 =>
    refine ⟨quotes, ?_, stripFrom_escaped quotes space text⟩
    exact (hides_other _ (by decide) (by decide) quotes.held_known).symm
  | case3 d rest ih =>
    obtain ⟨next, still, strips⟩ := ih quotes (fun member => noHash (by simp [member]))
    rw [leftOpen_escaped _ quotes.held_known]
    exact ⟨next, still, by rw [List.cons_append, List.cons_append, stripFrom_escaped, strips]; rfl⟩
  | case4 c rest plain ih =>
    obtain ⟨first, opened, step⟩ := stripFrom_plain plain (fun same => noHash (by simp [same])) quotes (rest ++ space :: text)
    obtain ⟨next, still, strips⟩ := ih first (fun member => noHash (by simp [member]))
    rw [leftOpen_plain plain, ← opened]
    exact ⟨next, still, by rw [List.cons_append, step, strips]; rfl⟩

theorem stripComment_behind (line text : Bytes) (noHash : hash ∉ line) :
    stripComment (line ++ space :: hash :: text) = line ++ [space] ↔ leftOpen none line = none := by
  obtain ⟨next, still, strips⟩ := stripFrom_behind .outside line (hash :: text) noHash
  rw [stripComment, strips, ← Quotes.held, ← still, List.append_right_inj, List.cons_inj_right]
  cases next with
  | outside => exact ⟨fun _ => rfl, fun _ => stripFrom_outside (by decide) text⟩
  | single =>
    rw [stripFrom_single (by decide)]
    exact ⟨by rintro ⟨⟩, by rintro ⟨⟩⟩
  | double =>
    rw [stripFrom_double (by decide)]
    exact ⟨by rintro ⟨⟩, by rintro ⟨⟩⟩

-- Regions that do not cross

-- What is open inside another quote was opened behind it.
def Inside (outer inner : Option (Nat × Bytes)) : Prop :=
  ∃ start tail, outer = some (start, tail) ∧ ∀ first behind, inner = some (first, behind) → start < first

-- The quotes that are open, each kind on its own, where `outer` is open if one kind hides the other.
structure Fits (outer : Option UInt8) (q r : UInt8) (mine theirs : Option (Nat × Bytes)) : Prop where
  known : outer = none ∨ outer = some q ∨ outer = some r
  closed : outer = none → mine = none ∧ theirs = none
  first : outer = some q → Inside mine theirs
  second : outer = some r → Inside theirs mine

namespace Fits

theorem swap (fits : Fits outer q r mine theirs) : Fits outer r q theirs mine :=
  ⟨fits.known.imp_right Or.symm, fun free => (fits.closed free).symm, fits.second, fits.first⟩

-- One of the quotes. It closes the outer quote only if nothing has been opened in between, for that would
-- be closed later.
theorem quote (fits : Fits outer q r mine theirs) (quote : IsQuote q) (apart : q ≠ r) (since : Since i mine)
    (sinceTheirs : Since i theirs) (paired : quoteSpansFrom q i mine (q :: rest) = .ok spans)
    (later : quoteSpansFrom r (i + 1) theirs rest = .ok others) (nested : ∀ a ∈ spans, ∀ b ∈ others, ¬Crosses a b) :
    ∃ next spansLater, Fits (hides outer q) q r next theirs ∧ Since (i + 1) next ∧
      quoteSpansFrom q (i + 1) next rest = .ok spansLater ∧ ∀ a ∈ spansLater, a ∈ spans := by
  have opens : hides none q = some q := if_pos quote
  have closes : hides (some q) q = none := if_pos rfl
  have hidden : hides (some r) q = some r := if_neg apart
  cases mine with
  | none =>
    rw [quoteSpansFrom_opening quote.plain] at paired
    refine ⟨some (i, q :: rest), spans, ?_, by rintro start tail ⟨⟩; exact Nat.lt_succ_self i, paired, fun a member => member⟩
    rcases fits.known with rfl | rfl | rfl
    · rw [opens, (fits.closed rfl).2]
      exact ⟨.inr (.inl rfl), by rintro ⟨⟩, fun _ => ⟨i, _, rfl, by rintro _ _ ⟨⟩⟩, fun same => absurd (Option.some.inj same) apart⟩
    · obtain ⟨_, _, wrong, _⟩ := fits.first rfl
      cases wrong
    · obtain ⟨start, tail, rfl, _⟩ := fits.second rfl
      have earlier : start < i := sinceTheirs start tail rfl
      rw [hidden]
      refine ⟨.inr (.inr rfl), by rintro ⟨⟩, fun same => absurd (Option.some.inj same).symm apart, fun _ => ⟨start, tail, rfl, ?_⟩⟩
      rintro _ _ ⟨⟩
      exact earlier
  | some open_ =>
    obtain ⟨start, tail⟩ := open_
    rw [quoteSpansFrom_closing quote.plain] at paired
    obtain ⟨spansLater, pairedLater, rfl⟩ := map_ok paired
    refine ⟨none, spansLater, ?_, by rintro start tail ⟨⟩, pairedLater, fun a member => List.mem_cons_of_mem _ member⟩
    rcases fits.known with rfl | rfl | rfl
    · cases (fits.closed rfl).1
    · rw [closes]
      have free : theirs = none := by
        obtain ⟨_, _, ⟨⟩, inside⟩ := fits.first rfl
        by_contra open_
        obtain ⟨⟨first, behind⟩, rfl⟩ := Option.ne_none_iff_exists'.mp open_
        obtain ⟨last, member, beyond⟩ := quoteSpansFrom_opened r (i + 1) first behind rest later
        exact nested ⟨start, i⟩ (by simp) ⟨first, last⟩ member (.inl ⟨inside first behind rfl, sinceTheirs first behind rfl, beyond⟩)
      exact ⟨.inl rfl, fun _ => ⟨rfl, free⟩, by rintro ⟨⟩, by rintro ⟨⟩⟩
    · rw [hidden]
      obtain ⟨first, behind, rfl, _⟩ := fits.second rfl
      exact ⟨.inr (.inr rfl), by rintro ⟨⟩, fun same => absurd (Option.some.inj same).symm apart, fun _ => ⟨first, behind, rfl, by rintro _ _ ⟨⟩⟩⟩

theorem quotes (fits : Fits outer singleQuote doubleQuote single double) : ∀ q, outer = some q → IsQuote q := by
  rintro q rfl
  rcases fits.known with wrong | same | same
  · cases wrong
  · exact .inl (Option.some.inj same)
  · exact .inr (Option.some.inj same)

theorem free (fits : Fits outer q r none none) : outer = none := by
  rcases fits.known with rfl | rfl | rfl
  · rfl
  · obtain ⟨_, _, wrong, _⟩ := fits.first rfl
    cases wrong
  · obtain ⟨_, _, wrong, _⟩ := fits.second rfl
    cases wrong

end Fits

theorem quoteSpansFrom_end (paired : quoteSpansFrom q i opened [] = .ok spans) : opened = none := by
  cases opened with
  | none => rfl
  | some _ => cases paired

theorem quoteSpansFrom_backslash (q : UInt8) (i : Nat) (opened : Option (Nat × Bytes)) :
    quoteSpansFrom q i opened [backslash] = quoteSpansFrom q (i + 1) opened [] := by
  rw [quoteSpansFrom.eq_def]
  simp

theorem Crosses.symm (crosses : Crosses a b) : Crosses b a := Or.symm crosses

-- Along a line: if both kinds are paired and no pairs cross, nothing is left open.
theorem leftOpen_nested (i : Nat) (text : Bytes) (fits : Fits outer singleQuote doubleQuote single double) (since : Since i single)
    (sinceDouble : Since i double) (paired : quoteSpansFrom singleQuote i single text = .ok spans)
    (pairedDouble : quoteSpansFrom doubleQuote i double text = .ok others)
    (nested : ∀ a ∈ spans, ∀ b ∈ others, ¬Crosses a b) : leftOpen outer text = none := by
  induction text using escapes.induct generalizing outer single double i spans others with
  | case1 =>
    obtain rfl := quoteSpansFrom_end paired
    obtain rfl := quoteSpansFrom_end pairedDouble
    exact fits.free
  | case2 =>
    rw [quoteSpansFrom_backslash] at paired pairedDouble
    obtain rfl := quoteSpansFrom_end paired
    obtain rfl := quoteSpansFrom_end pairedDouble
    obtain rfl := fits.free
    rfl
  | case3 d rest ih =>
    rw [leftOpen_escaped _ fits.quotes]
    rw [quoteSpansFrom_escaped] at paired pairedDouble
    exact ih (i + 2) fits (since.mono (by omega)) (sinceDouble.mono (by omega)) paired pairedDouble nested
  | case4 c rest plain ih =>
    rw [leftOpen_plain plain]
    by_cases isSingle : c = singleQuote
    · subst isSingle
      rw [quoteSpansFrom_other plain (by decide)] at pairedDouble
      obtain ⟨next, later, fitsLater, sinceLater, pairedLater, fewer⟩ :=
        fits.quote (.inl rfl) (by decide) since sinceDouble paired pairedDouble nested
      exact ih (i + 1) fitsLater sinceLater (sinceDouble.mono (by omega)) pairedLater pairedDouble
        (fun a member => nested a (fewer a member))
    · by_cases isDouble : c = doubleQuote
      · subst isDouble
        rw [quoteSpansFrom_other plain (by decide)] at paired
        obtain ⟨next, later, fitsLater, sinceLater, pairedLater, fewer⟩ :=
          fits.swap.quote (.inr rfl) (by decide) sinceDouble since pairedDouble paired
            (fun b member a other crosses => nested a other b member crosses.symm)
        exact ih (i + 1) fitsLater.swap (since.mono (by omega)) sinceLater paired pairedLater
          (fun a member b other => nested a member b (fewer b other))
      · rw [quoteSpansFrom_other plain isSingle] at paired
        rw [quoteSpansFrom_other plain isDouble] at pairedDouble
        rw [hides_other _ isSingle isDouble fits.quotes]
        exact ih (i + 1) fits (since.mono (by omega)) (sinceDouble.mono (by omega)) paired pairedDouble nested

-- A comment behind a line that can be split is taken away, unless that reading has a quote open at the end of the
-- line; it has none if no quoted regions of the two kinds cross.
theorem stripComment_split (line : Bytes) (tokens : List Bytes) (text : Bytes) (splits : split line = .ok tokens) (noHash : hash ∉ line) :
    (stripComment (line ++ space :: hash :: text) = line ++ [space] ↔ leftOpen none line = none) ∧
      ((∀ spans others, quoteSpans line singleQuote = .ok spans → quoteSpans line doubleQuote = .ok others →
        ∀ a ∈ spans, ∀ b ∈ others, ¬Crosses a b) → leftOpen none line = none) := by
  refine ⟨stripComment_behind line text noHash, fun nested => ?_⟩
  have single := (quoteSpans_places (.inl rfl) line _).mpr ⟨split_paired splits (.inl rfl), rfl⟩
  have double := (quoteSpans_places (.inr rfl) line _).mpr ⟨split_paired splits (.inr rfl), rfl⟩
  have fits : Fits none singleQuote doubleQuote none none := ⟨.inl rfl, fun _ => ⟨rfl, rfl⟩, by rintro ⟨⟩, by rintro ⟨⟩⟩
  exact leftOpen_nested 0 line fits (by rintro _ _ ⟨⟩) (by rintro _ _ ⟨⟩) single double (nested _ _ single double)

-- Quotes in quotes, an escaped quote, and a comment with quotes of its own.
theorem stripComment_split_quoted :
    split (ascii "a 'b\x22c\x22' \x22d'e'\x22 \\'") = .ok [ascii "a", ascii "'b\x22c\x22'", ascii "\x22d'e'\x22", ascii "\\'"] ∧
      hash ∉ ascii "a 'b\x22c\x22' \x22d'e'\x22 \\'" ∧
      stripComment (ascii "a 'b\x22c\x22' \x22d'e'\x22 \\'" ++ space :: hash :: ascii "x 'y \x22") =
        ascii "a 'b\x22c\x22' \x22d'e'\x22 \\'" ++ [space] := by
  have splits : split (ascii "a 'b\x22c\x22' \x22d'e'\x22 \\'") =
      .ok [ascii "a", ascii "'b\x22c\x22'", ascii "\x22d'e'\x22", ascii "\\'"] := split_cut.mpr (by decide +kernel)
  have noHash : hash ∉ ascii "a 'b\x22c\x22' \x22d'e'\x22 \\'" := by decide +kernel
  obtain ⟨strips, closed⟩ := stripComment_split _ _ (ascii "x 'y \x22") splits noHash
  refine ⟨splits, noHash, strips.mpr (closed ?_)⟩
  intro spans others single double
  rw [show quoteSpans (ascii "a 'b\x22c\x22' \x22d'e'\x22 \\'") singleQuote = .ok [⟨2, 7⟩, ⟨11, 13⟩] by decide +kernel] at single
  rw [show quoteSpans (ascii "a 'b\x22c\x22' \x22d'e'\x22 \\'") doubleQuote = .ok [⟨4, 6⟩, ⟨9, 14⟩] by decide +kernel] at double
  cases single
  cases double
  decide

-- Regions that cross: the first double quote is hidden in single quotes, and the second one is left open.
theorem stripComment_split_crossing :
    ¬∀ line tokens, split line = .ok tokens → hash ∉ line → ¬[dollar, openParen] <:+: line →
      ∀ text, stripComment (line ++ space :: hash :: text) = line ++ [space] := by
  intro stripped
  have wrong := stripped (ascii "'\x22'\x22") [ascii "'\x22'\x22"] (split_cut.mpr (by decide +kernel)) (by decide +kernel)
    (by decide +kernel) []
  revert wrong
  decide +kernel

end LineShell.Line
