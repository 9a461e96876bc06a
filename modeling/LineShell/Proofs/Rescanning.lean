import LineShell.Proofs.Cutting

-- At the two ends of a word every scan of the line is where it began: no backslash is pending and each quote has been
-- closed.
namespace LineShell.Span

-- A region with its place counted from further in front, and from further behind.

def later (offset : Nat) (span : Span) : Span := ⟨span.first + offset, span.last + offset⟩

def earlier (offset : Nat) (span : Span) : Span := ⟨span.first - offset, span.last - offset⟩

theorem earlier_later (offset : Nat) (span : Span) : (span.later offset).earlier offset = span := by
  simp [later, earlier]

-- One region inside another.
def within (outer span : Span) : Bool := outer.first ≤ span.first && span.last ≤ outer.last

end LineShell.Span

namespace LineShell.Line
open Bytes

-- Where a scan stands.

-- In front of byte `i` no backslash is pending.
def Free (line : Bytes) (i : Nat) : Prop := ∀ c, (escapes line)[i]? ≠ some (c, true)

theorem free_zero (line : Bytes) : Free line 0 := by
  intro c
  fun_cases escapes line <;> simp [*]

-- Behind a byte that is no backslash and not escaped.
theorem free_behind (here : (escapes line)[i]? = some (c, false)) (plain : c ≠ backslash) : Free line (i + 1) := by
  intro d
  fun_induction escapes line generalizing i with
  | case1 => simp
  | case2 => simp
  | case3 e rest ih =>
    rcases i with _ | _ | i
    · simp [plain.symm] at here
    · simp at here
    · exact ih here
  | case4 b rest _ ih =>
    cases i with
    | zero => exact free_zero rest d
    | succ i => exact ih here

theorem escapes_split (free : Free line i) : escapes line = escapes (line.take i) ++ escapes (line.drop i) := by
  fun_induction escapes line generalizing i with
  | case1 => simp [escapes]
  | case2 => cases i <;> simp [escapes]
  | case3 d rest ih =>
    rcases i with _ | _ | i
    · simp [escapes]
    · exact absurd rfl (free d)
    · rw [List.take_succ_cons, List.take_succ_cons, List.drop_succ_cons, List.drop_succ_cons, escapes_escaped]
      exact congrArg _ (congrArg _ (ih fun e wrong => free e (by rwa [escapes_escaped])))
  | case4 c rest plain ih =>
    cases i with
    | zero =>
      rw [List.take_zero, List.drop_zero, escapes_plain plain]
      rfl
    | succ i =>
      rw [List.take_succ_cons, List.drop_succ_cons, escapes_plain plain, List.cons_append]
      exact congrArg _ (ih fun d wrong => free d (by rwa [escapes_plain plain]))

-- In front of byte `i` every scan is back where it began.
structure Border (line : Bytes) (i : Nat) : Prop where
  free : Free line i
  even : ∀ q, IsQuote q → Even (((escapes line).take i).count (q, false))

theorem border_start (line : Bytes) : Border line 0 := ⟨free_zero line, by simp⟩

theorem border_end {line : Bytes} (paired : ∀ q, IsQuote q → Even ((escapes line).count (q, false))) :
    Border line line.length := by
  refine ⟨fun c => by simp, ?_⟩
  intro q quote
  rw [← escapes_length line, List.take_length]
  exact paired q quote

theorem take_escapes (free : Free line i) (within : i ≤ line.length) : (escapes line).take i = escapes (line.take i) := by
  rw [escapes_split free]
  exact List.take_left' (by simp [Nat.min_eq_left within])

theorem places_split (free : Free line i) (within : i ≤ line.length) (q : UInt8) :
    places line q = places (line.take i) q ++ placesFrom q i (line.drop i) := by
  rw [places, placesFrom, escapes_split free, List.findIdxs_append]
  simp [places, placesFrom, Nat.min_eq_left within]

theorem mem_placesFrom (member : p ∈ placesFrom q i text) : i ≤ p ∧ p < i + text.length := by
  have late := List.ge_of_mem_findIdxs p member
  have early := List.lt_add_of_mem_findIdxs p member
  rw [escapes_length] at early
  omega

-- The quotes of a line that can be split are paired.
theorem split_paired (splits : split line = .ok tokens) (quote : IsQuote q) : Even (places line q).length := by
  rw [places_length, ← Nat.not_odd_iff_even, ← quoteSpans_fails quote]
  rintro ⟨fault, failed⟩
  have refused : ∃ fault, split line = .error fault := by
    rw [split_fails]
    rcases quote with rfl | rfl
    · exact .inl ⟨fault, failed⟩
    · exact .inr (.inl ⟨fault, failed⟩)
  obtain ⟨_, wrong⟩ := refused
  rw [splits] at wrong
  cases wrong

theorem separates_space (cut : separates line i = true) : (escapes line)[i]? = some (space, false) := by
  simp only [separates, Bool.and_eq_true, decide_eq_true_eq] at cut
  exact cut.1.1.1

theorem separates_uncovered (cut : separates line i = true) (quote : IsQuote q) (paired : quoteSpans line q = .ok spans) :
    covered spans i = false := by
  simp only [separates, Bool.and_eq_true, Bool.not_eq_true'] at cut
  rcases quote with rfl | rfl
  · simpa [encloses, paired, Except.toOption] using cut.1.1.2
  · simpa [encloses, paired, Except.toOption] using cut.1.2

-- A separator stands between two borders.

theorem border_before (splits : split line = .ok tokens) (cut : separates line i = true) : Border line i := by
  have here := separates_space cut
  have free : Free line i := by
    intro c wrong
    rw [here] at wrong
    cases wrong
  have within : i < line.length := by
    rw [← escapes_length line]
    exact (List.getElem?_eq_some_iff.mp here).1
  refine ⟨free, ?_⟩
  intro q quote
  have paired := split_paired splits quote
  have uncovered := separates_uncovered cut quote ((quoteSpans_places quote line _).mpr ⟨paired, rfl⟩)
  rw [take_escapes free (Nat.le_of_lt within), ← places_length, ← Nat.not_odd_iff_even]
  intro odd
  rw [places_split free (Nat.le_of_lt within)] at paired uncovered
  rw [covered_of_odd _ _ odd paired] at uncovered
  · cases uncovered
  · intro p member
    have below := (mem_placesFrom member).2
    simp at below
    omega
  · intro p member
    have rest : line.drop i = space :: line.drop (i + 1) := by
      rw [List.drop_eq_getElem_cons within, (List.getElem?_eq_some_iff.mp (escapes_byte here)).2]
    rw [rest, placesFrom_other (by decide) (by rcases quote with rfl | rfl <;> decide)] at member
    exact (mem_placesFrom member).1

theorem border_behind (splits : split line = .ok tokens) (cut : separates line i = true) : Border line (i + 1) := by
  have here := separates_space cut
  refine ⟨free_behind here (by decide), ?_⟩
  intro q quote
  have other : (space, false) ≠ (q, false) := by rcases quote with rfl | rfl <;> decide
  rw [List.take_add_one, here, List.count_append]
  simpa [List.count_singleton, other] using (border_before splits cut).even q quote

-- Both ends of a word are borders.

theorem IsRun.border_first {run : Span} (isWord : IsRun (separates line) 0 line.length run) (splits : split line = .ok tokens) :
    Border line run.first := by
  by_cases first : run.first = 0
  · rw [first]
    exact border_start line
  · have behind := border_behind splits (isWord.left (by omega))
    rwa [Nat.sub_add_cancel (by omega)] at behind

theorem IsRun.border_last {run : Span} (isWord : IsRun (separates line) 0 line.length run) (splits : split line = .ok tokens) :
    Border line (run.last + 1) := by
  have ends := isWord.ends
  by_cases last : run.last + 1 = line.length
  · rw [last]
    apply border_end
    intro q quote
    rw [← places_length]
    exact split_paired splits quote
  · exact border_before splits (isWord.right (by omega))

theorem slice_eq (line : Bytes) (run : Span) : slice line run = (line.take (run.last + 1)).drop run.first := by
  rw [slice, List.extract_eq_take_drop, List.drop_take]

theorem IsRun.slice_length {run : Span} (isWord : IsRun cuts start line.length run) :
    (slice line run).length = run.last + 1 - run.first := by
  have ends := isWord.ends
  rw [slice_eq, List.length_drop, List.length_take_of_le ends]

-- The escapes of a word are those of the line at its place.
theorem escapes_slice {run : Span} (front : Free line run.first) (back : Free line (run.last + 1))
    (within : run.last < line.length) (ordered : run.first ≤ run.last) :
    escapes (line.take (run.last + 1)) = escapes (line.take run.first) ++ escapes (slice line run) := by
  have inner : Free (line.take (run.last + 1)) run.first := by
    intro c wrong
    rw [← take_escapes back within, List.getElem?_take_of_lt (by omega)] at wrong
    exact front c wrong
  rw [escapes_split inner, ← slice_eq, List.take_take, Nat.min_eq_left (by omega)]

-- The unescaped quotes of a line, those of one word set apart.
structure Apart (line : Bytes) (q : UInt8) (run : Span) (front back : List Nat) : Prop where
  whole : places line q = front ++ ((places (slice line run) q).map (· + run.first) ++ back)
  before : ∀ p ∈ front, p < run.first
  behind : ∀ p ∈ back, run.last < p
  even : Even front.length
  paired : Even (places (slice line run) q).length

theorem word_apart {run : Span} (isWord : IsWord line run) (splits : split line = .ok tokens) (quote : IsQuote q) :
    ∃ front back, Apart line q run front back := by
  have first := isWord.border_first splits
  have last := isWord.border_last splits
  have ends := isWord.ends
  have filled := isWord.filled
  have parts := escapes_slice first.free last.free ends filled
  have begins : (line.take run.first).length = run.first := List.length_take_of_le (by omega)
  have size := isWord.slice_length
  have outer : Even (places (line.take run.first) q).length := by
    rw [places_length, ← take_escapes first.free (by omega)]
    exact first.even q quote
  refine ⟨places (line.take run.first) q, placesFrom q (run.last + 1) (line.drop (run.last + 1)), ?_, ?_, ?_, outer, ?_⟩
  · have shifted : placesFrom q run.first (slice line run) = (places (slice line run) q).map (· + run.first) := List.findIdxs_start
    rw [← shifted, places, placesFrom, escapes_split last.free, parts, List.append_assoc, List.findIdxs_append,
      List.findIdxs_append, escapes_length, escapes_length, begins, size, Nat.zero_add, Nat.add_sub_cancel' (by omega)]
    rfl
  · intro p member
    have below := (mem_placesFrom member).2
    omega
  · intro p member
    have above := (mem_placesFrom member).1
    omega
  · have both := last.even q quote
    rw [take_escapes last.free ends, parts, List.count_append, Nat.even_add, ← places_length, ← places_length] at both
    exact both.mp outer

namespace Apart

variable {line : Bytes} {q : UInt8} {run : Span} {front back : List Nat}

-- No pair of the line has one end in the word and the other outside.
theorem spans (apart : Apart line q run front back) :
    pairUp (places line q) = pairUp front ++ ((pairUp (places (slice line run) q)).map (Span.later run.first) ++ pairUp back) := by
  rw [apart.whole, pairUp_append _ _ apart.even, pairUp_append _ _ (by simpa using apart.paired), pairUp_map]
  rfl

theorem front_apart (apart : Apart line q run front back) : ∀ span ∈ pairUp front, span.first < run.first ∧ span.last < run.first :=
  fun _ member => ⟨apart.before _ (mem_pairUp member).1, apart.before _ (mem_pairUp member).2⟩

theorem back_apart (apart : Apart line q run front back) : ∀ span ∈ pairUp back, run.last < span.first ∧ run.last < span.last :=
  fun _ member => ⟨apart.behind _ (mem_pairUp member).1, apart.behind _ (mem_pairUp member).2⟩

theorem inside (isWord : IsWord line run) : ∀ span ∈ pairUp (places (slice line run) q), run.within (span.later run.first) = true := by
  intro span member
  have below := (mem_placesFrom (mem_pairUp member).2).2
  have filled := isWord.filled
  rw [isWord.slice_length] at below
  simp only [Span.within, Bool.and_eq_true, decide_eq_true_eq]
  simp only [Span.later]
  omega

end Apart

-- The quotes of a word are those of the line that stand in it.
theorem quoteSpans_slice (isWord : IsWord line run) (splits : split line = .ok tokens) (quote : IsQuote q)
    (paired : quoteSpans line q = .ok spans) :
    quoteSpans (slice line run) q = .ok ((spans.filter run.within).map (Span.earlier run.first)) := by
  obtain ⟨front, back, apart⟩ := word_apart isWord splits quote
  obtain ⟨_, rfl⟩ := (quoteSpans_places quote line spans).mp paired
  have noneFront : (pairUp front).filter run.within = [] := by
    refine List.filter_eq_nil_iff.mpr ?_
    intro span member inside
    have outside := apart.front_apart span member
    simp only [Span.within, Bool.and_eq_true, decide_eq_true_eq] at inside
    omega
  have noneBack : (pairUp back).filter run.within = [] := by
    refine List.filter_eq_nil_iff.mpr ?_
    intro span member inside
    have outside := apart.back_apart span member
    simp only [Span.within, Bool.and_eq_true, decide_eq_true_eq] at inside
    omega
  have all : ((pairUp (places (slice line run) q)).map (Span.later run.first)).filter run.within =
      (pairUp (places (slice line run) q)).map (Span.later run.first) := by
    refine List.filter_eq_self.mpr ?_
    intro span member
    obtain ⟨inner, present, rfl⟩ := List.mem_map.mp member
    exact Apart.inside isWord inner present
  rw [apart.spans, List.filter_append, List.filter_append, noneFront, noneBack, all, List.nil_append, List.append_nil,
    List.map_map, (quoteSpans_places quote _ _).mpr ⟨apart.paired, rfl⟩]
  congr 1
  exact (List.map_id'' (fun span => Span.earlier_later run.first span) _).symm

-- What is in quotes in the line is in quotes in the word.
theorem covered_slice (isWord : IsWord line run) (splits : split line = .ok tokens) (quote : IsQuote q)
    (within : run.contains (run.first + j) = true) (inside : covered (pairUp (places line q)) (run.first + j) = true) :
    covered (pairUp (places (slice line run) q)) j = true := by
  obtain ⟨front, back, apart⟩ := word_apart isWord splits quote
  simp only [Span.contains, Bool.and_eq_true, decide_eq_true_eq] at within
  rw [apart.spans] at inside
  obtain ⟨span, member, contains⟩ := List.any_eq_true.mp inside
  simp only [Span.contains, Bool.and_eq_true, decide_eq_true_eq] at contains
  rcases List.mem_append.mp member with before | later
  · have outside := apart.front_apart span before
    omega
  · rcases List.mem_append.mp later with here | behind
    · obtain ⟨inner, present, rfl⟩ := List.mem_map.mp here
      refine List.any_eq_true.mpr ⟨inner, present, ?_⟩
      simp only [Span.later] at contains
      simp only [Span.contains, Bool.and_eq_true, decide_eq_true_eq]
      omega
    · have outside := apart.back_apart span behind
      omega

theorem encloses_ok (paired : found = .ok spans) (i : Nat) : encloses found i = covered spans i := by
  rw [paired]
  rfl

-- A byte of a word is escaped if and only if it is in the line.
theorem escapes_at (isWord : IsWord line run) (splits : split line = .ok tokens) (below : j < (slice line run).length) :
    (escapes line)[run.first + j]? = (escapes (slice line run))[j]? := by
  have first := isWord.border_first splits
  have last := isWord.border_last splits
  have ends := isWord.ends
  have filled := isWord.filled
  have begins : (line.take run.first).length = run.first := List.length_take_of_le (by omega)
  have inner : run.first + j < (escapes (line.take (run.last + 1))).length := by
    rw [isWord.slice_length] at below
    rw [escapes_length, List.length_take_of_le ends]
    omega
  rw [escapes_split last.free, List.getElem?_append_left inner, escapes_slice first.free last.free ends filled,
    List.getElem?_append_right (by rw [escapes_length, begins]; omega), escapes_length, begins, Nat.add_sub_cancel_left]

-- Nothing separates inside a word that is scanned on its own.
theorem slice_solid (isWord : IsWord line run) (splits : split line = .ok tokens) (plain : subshellSpans line = .ok []) :
    ∀ j < (slice line run).length, separates (slice line run) j = false := by
  intro j below
  have within : run.contains (run.first + j) = true := by
    have size := below
    rw [isWord.slice_length] at size
    simp only [Span.contains, Bool.and_eq_true, decide_eq_true_eq]
    omega
  have whole := isWord.solid _ within
  -- What would separate in the word would separate in the line.
  by_contra cut
  rw [Bool.not_eq_false] at cut
  have open_ : ∀ q, IsQuote q → encloses (quoteSpans line q) (run.first + j) = false := by
    intro q quote
    obtain ⟨_, _, apart⟩ := word_apart isWord splits quote
    have uncovered := separates_uncovered cut quote ((quoteSpans_places quote _ _).mpr ⟨apart.paired, rfl⟩)
    rw [encloses_ok ((quoteSpans_places quote line _).mpr ⟨split_paired splits quote, rfl⟩)]
    by_contra inside
    rw [covered_slice isWord splits quote within (by simpa using inside)] at uncovered
    cases uncovered
  have here := (escapes_at isWord splits below).trans (separates_space cut)
  have separate : separates line (run.first + j) = true := by
    simp [separates, here, open_ singleQuote (.inl rfl), open_ doubleQuote (.inr rfl), encloses_ok plain, covered]
  rw [whole] at separate
  cases separate

-- A word scanned on its own has the quotes it has in the line and is one word without a region.
structure Rescanned (line : Bytes) (run : Span) : Prop where
  quotes : ∀ q, IsQuote q → ∃ spans, quoteSpans line q = .ok spans ∧
    quoteSpans (slice line run) q = .ok ((spans.filter run.within).map (Span.earlier run.first))
  regions : subshellSpans (slice line run) = .ok []
  whole : split (slice line run) = .ok [slice line run]

-- Searches that succeed on a word in which nothing separates leave it whole.
theorem split_whole (paired : ∀ q, IsQuote q → ∃ spans, quoteSpans word q = .ok spans) (regions : subshellSpans word = .ok others)
    (solid : ∀ j < word.length, separates word j = false) (filled : word ≠ []) : split word = .ok [word] := by
  rcases again : split word with fault | words
  · rcases (split_fails word).mp ⟨fault, again⟩ with ⟨_, failed⟩ | ⟨_, failed⟩ | ⟨_, failed⟩
    · obtain ⟨_, found⟩ := paired singleQuote (.inl rfl)
      rw [found] at failed
      cases failed
    · obtain ⟨_, found⟩ := paired doubleQuote (.inr rfl)
      rw [found] at failed
      cases failed
    · rw [regions] at failed
      cases failed
  · rw [split_pieces again, pieces_solid _ 0 [] _ (by simpa using solid)]
    simp [finish, filled]

-- Every word of a line without `$(...)` means on its own what it means in the line.
theorem words_rescanned (plain : subshellSpans line = .ok []) (splits : split line = .ok tokens) :
    ∃ runs, Placed line tokens runs ∧ ∀ run ∈ runs, Rescanned line run := by
  obtain ⟨runs, placed⟩ := split_placed splits
  refine ⟨runs, placed, ?_⟩
  intro run member
  have isWord := (placed.exactly run).mp member
  have quotes : ∀ q, IsQuote q → ∃ spans, quoteSpans line q = .ok spans ∧
      quoteSpans (slice line run) q = .ok ((spans.filter run.within).map (Span.earlier run.first)) := by
    intro q quote
    have paired := (quoteSpans_places quote line _).mpr ⟨split_paired splits quote, rfl⟩
    exact ⟨_, paired, quoteSpans_slice isWord splits quote paired⟩
  have token : slice line run ∈ tokens := by
    rw [placed.words]
    exact List.mem_map_of_mem member
  have regions : subshellSpans (slice line run) = .ok [] := by
    rw [subshellSpans_nil]
    intro asks
    exact (subshellSpans_nil line).mp plain ((split_substitutes splits).mp ⟨_, token, asks⟩)
  have filled : slice line run ≠ [] := by
    have some := isWord.filled
    have size := isWord.slice_length
    intro empty
    rw [empty, List.length_nil] at size
    omega
  refine ⟨quotes, regions, split_whole ?_ regions (slice_solid isWord splits plain) filled⟩
  intro q quote
  obtain ⟨_, _, found⟩ := quotes q quote
  exact ⟨_, found⟩

-- Quotes inside quotes of the other kind, a `$(` that is quoted and one that is escaped.
theorem words_rescanned_crossing :
    subshellSpans (ascii "a\\ 'b  \"c'  d\" \"'e f'\"' $(g)' \\$(h") = .ok [] ∧
      split (ascii "a\\ 'b  \"c'  d\" \"'e f'\"' $(g)' \\$(h") =
        .ok [ascii "a\\ 'b  \"c'  d\"", ascii "\"'e f'\"' $(g)'", ascii "\\$(h"] ∧
      ∃ runs, Placed (ascii "a\\ 'b  \"c'  d\" \"'e f'\"' $(g)' \\$(h")
          [ascii "a\\ 'b  \"c'  d\"", ascii "\"'e f'\"' $(g)'", ascii "\\$(h"] runs ∧
        ∀ run ∈ runs, Rescanned (ascii "a\\ 'b  \"c'  d\" \"'e f'\"' $(g)' \\$(h") run := by
  have plain : subshellSpans (ascii "a\\ 'b  \"c'  d\" \"'e f'\"' $(g)' \\$(h") = .ok [] :=
    (subshellSpans_nil _).mpr (by decide +kernel)
  have splits : split (ascii "a\\ 'b  \"c'  d\" \"'e f'\"' $(g)' \\$(h") =
      .ok [ascii "a\\ 'b  \"c'  d\"", ascii "\"'e f'\"' $(g)'", ascii "\\$(h"] :=
    split_cut.mpr (by decide +kernel)
  exact ⟨plain, splits, words_rescanned plain splits⟩

end LineShell.Line
