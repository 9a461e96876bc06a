import LineShell.Bytes.Blank
import LineShell.Pipeline.Redirection
import LineShell.Proofs.Scanning

namespace LineShell.Line
open Bytes

-- The bytes that would end the quotes or hide what follows them, seen by one scan or another.
def needsEscape (c : UInt8) : Bool := c = singleQuote || c = doubleQuote || c = backslash

def escape : Bytes → Bytes
  | [] => []
  | c :: rest => if needsEscape c then backslash :: c :: escape rest else c :: escape rest

-- Double quotes are escaped although single quotes surround them: one scan pairs them up on its own.
def quote (word : Bytes) : Bytes := singleQuote :: (escape word ++ [singleQuote])

def quotedLine (words : List Bytes) : Bytes := join [space] (words.map quote)

@[simp] theorem escape_cons_special (special : needsEscape c = true) :
    escape (c :: rest) = backslash :: c :: escape rest := by
  simp [escape, special]

@[simp] theorem escape_cons_plain (plain : needsEscape c = false) :
    escape (c :: rest) = c :: escape rest := by
  simp [escape, plain]

theorem plain_ne (plain : needsEscape c = false) :
    c ≠ singleQuote ∧ c ≠ doubleQuote ∧ c ≠ backslash := by
  simp only [needsEscape, Bool.or_eq_false_iff, decide_eq_false_iff_not] at plain
  exact ⟨plain.1.1, plain.1.2, plain.2⟩

theorem quote_append (word rest : Bytes) :
    quote word ++ rest = singleQuote :: (escape word ++ singleQuote :: rest) := by
  simp [quote]

theorem quote_length (word : Bytes) : (quote word).length = (escape word).length + 2 := by
  simp [quote]

theorem quotedLine_cons (word next : Bytes) (rest : List Bytes) :
    quotedLine (word :: next :: rest) = quote word ++ space :: quotedLine (next :: rest) := by
  simp [quotedLine, join]

-- Comments.

theorem stripFrom_escape (word rest : Bytes) :
    stripFrom .single (escape word ++ rest) = escape word ++ stripFrom .single rest := by
  induction word with
  | nil => rfl
  | cons c word ih =>
    cases special : needsEscape c with
    | true => simp [special, stripFrom_escaped, ih]
    | false =>
      obtain ⟨notSingle, _, notBackslash⟩ := plain_ne special
      simp [special, stripFrom_single notBackslash, notSingle, ih]

theorem stripFrom_quote (word rest : Bytes) :
    stripFrom .outside (quote word ++ rest) = quote word ++ stripFrom .outside rest := by
  have plain : singleQuote ≠ backslash := by decide
  rw [quote_append, quote_append, stripFrom_outside plain, if_pos rfl, stripFrom_escape,
    stripFrom_single plain, if_pos rfl]

theorem stripComment_quotedLine (words : List Bytes) :
    stripComment (quotedLine words) = quotedLine words := by
  induction words with
  | nil => rfl
  | cons word rest ih =>
    cases rest with
    | nil => simpa [stripComment, stripFrom, quotedLine, join] using stripFrom_quote word []
    | cons next rest =>
      have plain : space ≠ backslash := by decide
      have separator : stripFrom .outside (space :: quotedLine (next :: rest)) =
          space :: stripFrom .outside (quotedLine (next :: rest)) := by
        rw [stripFrom_outside plain, if_neg (by decide), if_neg (by decide), if_neg (by decide)]
      rw [stripComment] at ih ⊢
      rw [quotedLine_cons, stripFrom_quote, separator, ih]

-- Blanks at the ends.

theorem dropLeading_of_width (patterns : List Bytes) (text : Bytes)
    (none : Blank.width patterns text = 0) : Blank.dropLeading patterns 0 text = text := by
  cases text with
  | nil => rfl
  | cons c rest => simp [Blank.dropLeading, none]

theorem width_singleQuote (text : Bytes) :
    Blank.width Blank.blanks (singleQuote :: text) = 0 ∧
      Blank.width (Blank.blanks.map List.reverse) (singleQuote :: text) = 0 := by
  constructor <;> simp [Blank.width, Blank.blanks, singleQuote]

theorem quotedLine_ends (words : List Bytes) (nonempty : words ≠ []) :
    (∃ rest, quotedLine words = singleQuote :: rest) ∧
      ∃ front, quotedLine words = front ++ [singleQuote] := by
  induction words with
  | nil => exact absurd rfl nonempty
  | cons word rest ih =>
    cases rest with
    | nil => exact ⟨⟨_, rfl⟩, ⟨singleQuote :: escape word, rfl⟩⟩
    | cons next rest =>
      obtain ⟨_, front, last⟩ := ih (by simp)
      rw [quotedLine_cons]
      refine ⟨⟨_, quote_append _ _⟩, ⟨quote word ++ space :: front, ?_⟩⟩
      simp [last]

theorem trim_quotedLine (words : List Bytes) (nonempty : words ≠ []) :
    Blank.trim (quotedLine words) = quotedLine words := by
  obtain ⟨⟨rest, first⟩, front, last⟩ := quotedLine_ends words nonempty
  have left : Blank.trimLeft (quotedLine words) = quotedLine words := by
    rw [Blank.trimLeft, first]
    exact dropLeading_of_width _ _ (width_singleQuote rest).1
  have right : Blank.trimRight (quotedLine words) = quotedLine words := by
    rw [Blank.trimRight, last, List.reverse_append, List.reverse_singleton, List.singleton_append,
      dropLeading_of_width _ _ (width_singleQuote front.reverse).2]
    simp
  rw [Blank.trim, left, right]

-- Quotes. The word's own single quotes are escaped, so each quoted word is one region.

theorem quoteSpansFrom_escape (special : needsEscape q = true) (plain : q ≠ backslash) (word rest : Bytes)
    (i : Nat) (opened : Option (Nat × Bytes)) :
    quoteSpansFrom q i opened (escape word ++ rest) =
      quoteSpansFrom q (i + (escape word).length) opened rest := by
  induction word generalizing i with
  | nil => rfl
  | cons c word ih =>
    cases escaped : needsEscape c with
    | true =>
      simp only [escape_cons_special escaped, List.cons_append, quoteSpansFrom_escaped, ih, List.length_cons]
      congr 1
      omega
    | false =>
      have other : c ≠ q := by
        rintro rfl
        rw [special] at escaped
        cases escaped
      simp only [escape_cons_plain escaped, List.cons_append, List.length_cons,
        quoteSpansFrom_other (plain_ne escaped).2.2 other, ih]
      congr 1
      omega

theorem quoteSpansFrom_single (word rest : Bytes) (i : Nat) :
    quoteSpansFrom singleQuote i none (quote word ++ rest) =
      (⟨i, i + (escape word).length + 1⟩ :: ·) <$>
        quoteSpansFrom singleQuote (i + (quote word).length) none rest := by
  have plain : singleQuote ≠ backslash := by decide
  have last : i + 1 + (escape word).length = i + (escape word).length + 1 := by omega
  have next : i + (escape word).length + 1 + 1 = i + ((escape word).length + 2) := by omega
  rw [quote_append, quoteSpansFrom_opening plain, quoteSpansFrom_escape (by decide) plain,
    quoteSpansFrom_closing plain, quote_length, last, next]

theorem quoteSpansFrom_double (word rest : Bytes) (i : Nat) :
    quoteSpansFrom doubleQuote i none (quote word ++ rest) =
      quoteSpansFrom doubleQuote (i + (quote word).length) none rest := by
  have plain : singleQuote ≠ backslash := by decide
  have other : singleQuote ≠ doubleQuote := by decide
  rw [quote_append, quoteSpansFrom_other plain other, quoteSpansFrom_escape (by decide) (by decide),
    quoteSpansFrom_other plain other, quote_length]
  congr 1
  omega

-- The regions of a line of quoted words that starts at byte `i`.
def quotedSpans : Nat → List Bytes → List Span
  | _, [] => []
  | i, word :: rest => ⟨i, i + (escape word).length + 1⟩ :: quotedSpans (i + (quote word).length + 1) rest

theorem singleSpans_quotedLine (words : List Bytes) (i : Nat) :
    quoteSpansFrom singleQuote i none (quotedLine words) = .ok (quotedSpans i words) := by
  induction words generalizing i with
  | nil => simp [quotedLine, join, quoteSpansFrom, quotedSpans]
  | cons word rest ih =>
    cases rest with
    | nil =>
      have single := quoteSpansFrom_single word [] i
      rw [List.append_nil, quoteSpansFrom] at single
      exact single
    | cons next rest =>
      rw [quotedLine_cons, quoteSpansFrom_single, quoteSpansFrom_other (by decide) (by decide), ih]
      rfl

theorem doubleSpans_quotedLine (words : List Bytes) (i : Nat) :
    quoteSpansFrom doubleQuote i none (quotedLine words) = .ok [] := by
  induction words generalizing i with
  | nil => simp [quotedLine, join, quoteSpansFrom]
  | cons word rest ih =>
    cases rest with
    | nil =>
      have double := quoteSpansFrom_double word [] i
      simp only [List.append_nil] at double
      simp [quotedLine, join, double, quoteSpansFrom]
    | cons next rest =>
      rw [quotedLine_cons, quoteSpansFrom_double, quoteSpansFrom_other (by decide) (by decide), ih]

-- Command substitution: everything stands in single quotes.

theorem subshellSpansFrom_escape (word rest : Bytes) (i : Nat) :
    subshellSpansFrom i (.outside true) (escape word ++ rest) =
      subshellSpansFrom (i + (escape word).length) (.outside true) rest := by
  induction word generalizing i with
  | nil => rfl
  | cons c word ih =>
    cases special : needsEscape c with
    | true =>
      simp only [escape_cons_special special, List.cons_append, subshellSpansFrom_escaped, ih, List.length_cons]
      congr 1
      omega
    | false =>
      obtain ⟨notSingle, _, notBackslash⟩ := plain_ne special
      simp only [escape_cons_plain special, List.cons_append, List.length_cons,
        subshellSpansFrom_other notBackslash notSingle i true _ (.inr rfl), ih]
      congr 1
      omega

theorem subshellSpansFrom_quote (word rest : Bytes) (i : Nat) :
    subshellSpansFrom i (.outside false) (quote word ++ rest) =
      subshellSpansFrom (i + (quote word).length) (.outside false) rest := by
  rw [quote_append, subshellSpansFrom_singleQuote, Bool.not_false, subshellSpansFrom_escape,
    subshellSpansFrom_singleQuote, Bool.not_true, quote_length]
  congr 1
  omega

theorem subshellSpansFrom_quotedLine (words : List Bytes) (i : Nat) :
    subshellSpansFrom i (.outside false) (quotedLine words) = .ok [] := by
  induction words generalizing i with
  | nil => simp [quotedLine, join, subshellSpansFrom]
  | cons word rest ih =>
    cases rest with
    | nil =>
      have alone := subshellSpansFrom_quote word [] i
      simp only [List.append_nil] at alone
      simp [quotedLine, join, alone, subshellSpansFrom]
    | cons next rest =>
      rw [quotedLine_cons, subshellSpansFrom_quote,
        subshellSpansFrom_other (by decide) (by decide) _ _ _ (.inl (by decide)), ih]

theorem subshellSpans_quote (word : Bytes) : subshellSpans (quote word) = .ok [] :=
  subshellSpansFrom_quotedLine [word] 0

-- Words.

theorem wordsFrom_escape (guarded : Nat → Bool) (word rest : Bytes) (i : Nat) (acc : Bytes)
    (inside : ∀ j, i ≤ j → j < i + (escape word).length → guarded j = true) :
    wordsFrom guarded i acc (escape word ++ rest) =
      wordsFrom guarded (i + (escape word).length) ((escape word).reverse ++ acc) rest := by
  induction word generalizing i acc with
  | nil => rfl
  | cons c word ih =>
    cases special : needsEscape c with
    | true =>
      simp only [escape_cons_special special, List.length_cons] at inside
      have later : ∀ j, i + 2 ≤ j → j < i + 2 + (escape word).length → guarded j = true :=
        fun j low high => inside j (by omega) (by omega)
      simp only [escape_cons_special special, List.cons_append, wordsFrom_escaped, ih (i + 2) _ later,
        List.length_cons, List.reverse_cons, List.append_assoc, List.nil_append]
      congr 1
      omega
    | false =>
      simp only [escape_cons_plain special, List.length_cons] at inside
      have here : guarded i = true := inside i (Nat.le_refl i) (by omega)
      have later : ∀ j, i + 1 ≤ j → j < i + 1 + (escape word).length → guarded j = true :=
        fun j low high => inside j (by omega) (by omega)
      simp only [escape_cons_plain special, List.cons_append,
        wordsFrom_kept (plain_ne special).2.2 guarded i acc _ (.inr here), ih (i + 1) _ later,
        List.length_cons, List.reverse_cons, List.append_assoc, List.nil_append]
      congr 1
      omega

theorem wordsFrom_quote (guarded : Nat → Bool) (word rest : Bytes) (i : Nat)
    (inside : ∀ j, i ≤ j → j < i + (quote word).length → guarded j = true) :
    wordsFrom guarded i [] (quote word ++ rest) =
      wordsFrom guarded (i + (quote word).length) (quote word).reverse rest := by
  have plain : singleQuote ≠ backslash := by decide
  have letter : singleQuote ≠ space := by decide
  rw [quote_length] at inside
  rw [quote_append, wordsFrom_kept plain guarded i [] _ (.inl letter),
    wordsFrom_escape guarded word _ (i + 1) _ (fun j low high => inside j (by omega) (by omega)),
    wordsFrom_kept plain guarded _ _ _ (.inl letter), quote_length]
  simp only [quote, List.reverse_cons, List.reverse_append, List.reverse_nil, List.nil_append,
    List.cons_append]
  congr 1
  omega

theorem finish_quote (word : Bytes) : finish (quote word).reverse = [quote word] := by
  simp [finish, quote]

theorem quotedSpans_before (words : List Bytes) (i j : Nat) (before : j < i) :
    (quotedSpans i words).any (·.contains j) = false := by
  induction words generalizing i with
  | nil => rfl
  | cons word rest ih =>
    have outside : decide (i ≤ j) = false := by simp; omega
    simp only [quotedSpans, List.any_cons, Span.contains, outside, Bool.false_and, Bool.false_or]
    exact ih _ (by omega)

-- Inside a word its own region covers every byte; from the separator on only later ones count.
theorem quotedSpans_inside (word : Bytes) (rest : List Bytes) (i j : Nat) (low : i ≤ j)
    (high : j < i + (quote word).length) :
    (quotedSpans i (word :: rest)).any (·.contains j) = true := by
  rw [quote_length] at high
  have covered : decide (i ≤ j) = true ∧ decide (j ≤ i + (escape word).length + 1) = true := by
    constructor <;> simp <;> omega
  simp [quotedSpans, Span.contains, covered.1, covered.2]

theorem quotedSpans_after (word : Bytes) (rest : List Bytes) (i j : Nat) (after : i + (quote word).length ≤ j) :
    (quotedSpans i (word :: rest)).any (·.contains j) =
      (quotedSpans (i + (quote word).length + 1) rest).any (·.contains j) := by
  rw [quote_length] at after
  have outside : decide (j ≤ i + (escape word).length + 1) = false := by simp; omega
  simp [quotedSpans, Span.contains, outside]

theorem wordsFrom_quotedLine (words : List Bytes) (i : Nat) :
    wordsFrom (fun j => (quotedSpans i words).any (·.contains j)) i [] (quotedLine words) =
      words.map quote := by
  induction words generalizing i with
  | nil => rfl
  | cons word rest ih =>
    have inside := quotedSpans_inside word rest i
    cases rest with
    | nil =>
      have alone := wordsFrom_quote _ word [] i inside
      simp only [List.append_nil] at alone
      simp [quotedLine, join, alone, wordsFrom, finish_quote]
    | cons next rest =>
      have separates : (quotedSpans i (word :: next :: rest)).any (·.contains (i + (quote word).length)) = false := by
        rw [quotedSpans_after word _ i _ (Nat.le_refl _)]
        exact quotedSpans_before _ _ _ (by omega)
      rw [quotedLine_cons, wordsFrom_quote _ word _ i inside, wordsFrom_separator _ _ _ _ separates, finish_quote,
        wordsFrom_congr _ _ _ _ _ (fun j later => quotedSpans_after word _ i j (by omega)), ih]
      rfl

theorem split_quotedLine (words : List Bytes) : split (quotedLine words) = .ok (words.map quote) := by
  have regions : protectedSpans (quotedLine words) = .ok (quotedSpans 0 words) := by
    simp [protectedSpans, quoteSpans, subshellSpans, singleSpans_quotedLine, doubleSpans_quotedLine,
      subshellSpansFrom_quotedLine, bind, Except.bind, pure, Except.pure]
  simp [split, regions, bind, Except.bind, pure, Except.pure, wordsFrom_quotedLine]

-- Expansion.

theorem expandFrom_escape (value : Bytes → Bytes) (word rest : Bytes) :
    expandFrom value none false (escape word ++ rest) = word ++ expandFrom value none false rest := by
  induction word with
  | nil => rfl
  | cons c word ih =>
    cases special : needsEscape c with
    | true => simp [special, expandFrom_escaped, ih]
    | false =>
      obtain ⟨notSingle, notDouble, notBackslash⟩ := plain_ne special
      simp [special, expandFrom_disabled notBackslash notSingle notDouble, ih]

theorem expand_quote (lookups : List Lookup) (word : Bytes) : expand lookups (quote word) = word := by
  rw [expand, quote, expandFrom_singleQuote, Bool.not_true, expandFrom_escape, expandFrom_singleQuote]
  simp [expandFrom, finishName]

end LineShell.Line

namespace LineShell.Pipeline

theorem partition_of_no_pipe (tokens : List Bytes) (alone : pipeToken ∉ tokens) : partition tokens = [tokens] := by
  induction tokens with
  | nil => rfl
  | cons token rest ih =>
    simp only [List.mem_cons, not_or] at alone
    obtain ⟨other, later⟩ := alone
    simp [partition, Ne.symm other, ih later]

theorem detectArgs_of_none (args : List Bytes) (i : Nat)
    (clean : ∀ arg ∈ args, Line.subshellSpans arg = .ok []) : detectArgs i args = (none, []) := by
  induction args generalizing i with
  | nil => rfl
  | cons arg rest ih =>
    have first := clean arg (by simp)
    have others := ih (i + 1) (fun later member => clean later (by simp [member]))
    simp [detectArgs, first, others]

end LineShell.Pipeline

namespace LineShell.Redirection

theorem combine_of_no_duplicate (args : List Bytes) (absent : duplicateToken ∉ args) : combine args = args := by
  have unchanged : ∀ reversed : List Bytes, duplicateToken ∉ reversed → combineReversed reversed = reversed := by
    intro reversed missing
    match reversed with
    | [] => rfl
    | [_] => rfl
    | [_, _] => rfl
    | duplicate :: target :: operator :: rest =>
      have other : duplicate ≠ duplicateToken := by
        rintro rfl
        exact missing (by simp)
      simp [combineReversed, other]
  unfold combine
  split
  · rename_i reversed
    exact (List.reverse_eq_nil_iff.mp reversed).symm
  · rename_i last rest reversed
    have missing : duplicateToken ∉ last :: rest := by
      rw [← reversed]
      simpa using absent
    have original : (last :: rest).reverse = args := by rw [← reversed, List.reverse_reverse]
    split
    · rw [unchanged rest (fun member => missing (by simp [member])), original]
    · rw [unchanged _ missing, original]

theorem applyArgs_of_no_operator (expand : Bytes → Bytes) (args : List Bytes) (s : Stdio) (w : World)
    (plain : ∀ arg ∈ args, isOperator arg = false) : applyArgs expand args s w = (.ok args, s, w) := by
  induction args with
  | nil => rfl
  | cons arg rest ih =>
    have first := plain arg (by simp)
    simp only [isOperator, Bool.or_eq_false_iff, decide_eq_false_iff_not, Option.isSome_eq_false_iff,
      Option.isNone_iff_eq_none] at first
    rw [applyArgs.eq_def]
    simp [first.1, first.2, ih (fun later member => plain later (by simp [member]))]

theorem isOperator_quote (word : Bytes) : isOperator (Line.quote word) = false := by
  simp [isOperator, slots?, Line.quote, duplicateToken, outputToken, bothToken, inputToken, ascii, Bytes.singleQuote]

end LineShell.Redirection

namespace LineShell.Line
open Bytes

-- A line that is one stage, as it is written.
def stageOf (words : List Bytes) : Stage := { args := words, stdio := Stdio.inherit }

theorem build_sole (nonempty : words ≠ []) (alone : Pipeline.pipeToken ∉ words) (w : World) :
    Pipeline.build words w = (.ok ⟨[stageOf words]⟩, w) := by
  have command : words.isEmpty = false := by simpa using nonempty
  simp [Pipeline.build, Pipeline.partition_of_no_pipe _ alone, Pipeline.connect, command, stageOf]

theorem detect_sole (clean : ∀ word ∈ words, subshellSpans word = .ok []) :
    Pipeline.detectSubshells ⟨[stageOf words]⟩ = (none, ⟨[stageOf words]⟩) := by
  have stage : ∀ word ∈ (stageOf words).args, subshellSpans word = .ok [] := clean
  simp [Pipeline.detectSubshells, Pipeline.detectStages, Pipeline.detectArgs_of_none _ 0 stage]
  rfl

theorem redirect_sole (nonempty : words ≠ []) (plain : ∀ word ∈ words, Redirection.isOperator word = false)
    (expand : Bytes → Bytes) (w : World) :
    Pipeline.redirect ⟨[stageOf words]⟩ expand w = (none, ⟨[stageOf words]⟩, w) := by
  have absent : Redirection.duplicateToken ∉ words := by
    intro member
    have operator := plain _ member
    simp [Redirection.isOperator] at operator
  simp [Pipeline.redirect, Redirection.applyStages, Redirection.applyStage, stageOf,
    Redirection.combine_of_no_duplicate _ absent, Redirection.applyArgs_of_no_operator _ _ _ _ plain, nonempty]

-- The stage a line of quoted words becomes.
def quotedStage (words : List Bytes) : Stage := { args := words.map quote, stdio := Stdio.inherit }

theorem map_quote_ne (nonempty : words ≠ []) : words.map quote ≠ [] := by simpa using nonempty

theorem build_quoted (words : List Bytes) (nonempty : words ≠ []) (w : World) :
    Pipeline.build (words.map quote) w = (.ok ⟨[quotedStage words]⟩, w) := by
  have alone : Pipeline.pipeToken ∉ words.map quote := by
    simp [Pipeline.pipeToken, ascii, quote, singleQuote]
  exact build_sole (map_quote_ne nonempty) alone w

theorem detect_quoted (words : List Bytes) :
    Pipeline.detectSubshells ⟨[quotedStage words]⟩ = (none, ⟨[quotedStage words]⟩) := by
  apply detect_sole
  intro arg member
  obtain ⟨word, _, rfl⟩ := List.mem_map.mp member
  exact subshellSpans_quote word

theorem redirect_quoted (words : List Bytes) (nonempty : words ≠ []) (expand : Bytes → Bytes) (w : World) :
    Pipeline.redirect ⟨[quotedStage words]⟩ expand w = (none, ⟨[quotedStage words]⟩, w) := by
  apply redirect_sole (map_quote_ne nonempty)
  intro arg member
  obtain ⟨word, _, rfl⟩ := List.mem_map.mp member
  exact Redirection.isOperator_quote word

theorem substitute_quoted (words : List Bytes) (lookups : List Lookup) :
    Pipeline.substitute ⟨[quotedStage words]⟩ (expand lookups) = ⟨[{ args := words, stdio := Stdio.inherit }]⟩ := by
  have same : (words.map quote).map (expand lookups) = words := by
    rw [List.map_map]
    exact (List.map_congr_left (fun word _ => expand_quote lookups word)).trans (List.map_id words)
  simp [Pipeline.substitute, quotedStage, same]

-- The world stays what it was: no pipe is made and no file is opened.
theorem quoting_complete (words : List Bytes) (nonempty : words ≠ []) (lookups : List Lookup) (w : World) :
    stripComment (quotedLine words) = quotedLine words ∧
    Blank.trim (quotedLine words) = quotedLine words ∧
    split (quotedLine words) = .ok (words.map quote) ∧
    Pipeline.build (words.map quote) w = (.ok ⟨[quotedStage words]⟩, w) ∧
    Pipeline.detectSubshells ⟨[quotedStage words]⟩ = (none, ⟨[quotedStage words]⟩) ∧
    Pipeline.rejectSubshells ⟨[quotedStage words]⟩ = none ∧
    Pipeline.redirect ⟨[quotedStage words]⟩ (expand lookups) w = (none, ⟨[quotedStage words]⟩, w) ∧
    Pipeline.substitute ⟨[quotedStage words]⟩ (expand lookups) = ⟨[{ args := words, stdio := Stdio.inherit }]⟩ := by
  refine ⟨stripComment_quotedLine words, trim_quotedLine words nonempty, split_quotedLine words,
    build_quoted words nonempty w, detect_quoted words, rfl, redirect_quoted words nonempty _ w, ?_⟩
  exact substitute_quoted words lookups

-- Words with everything in them that means something to the shell, and one with nothing at all.
def hostileWords : List Bytes := [ascii "it's #1 \"$(x) | > &\\", [], ascii "2>&1"]

theorem quoting_complete_hostile :
    hostileWords ≠ [] ∧
    stripComment (quotedLine hostileWords) = quotedLine hostileWords ∧
    split (quotedLine hostileWords) = .ok (hostileWords.map quote) ∧
    Pipeline.substitute ⟨[quotedStage hostileWords]⟩ (expand []) =
      ⟨[{ args := hostileWords, stdio := Stdio.inherit }]⟩ := by
  have nonempty : hostileWords ≠ [] := by simp [hostileWords]
  obtain ⟨stripped, _, words, _, _, _, _, substituted⟩ := quoting_complete hostileWords nonempty [] {}
  exact ⟨nonempty, stripped, words, substituted⟩

end LineShell.Line
