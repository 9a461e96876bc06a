import LineShell.Proofs.Pairing

-- Which places separate can be told beforehand, so the loop that cuts a line with its own view of backslashes is a
-- plain cut at these places.
namespace LineShell.Line
open Bytes

-- A search that succeeds has a region around byte `i`.
def encloses (found : Except Fault (List Span)) (i : Nat) : Bool := found.toOption.any (covered · i)

-- A space that is not escaped and lies in no region.
def separates (line : Bytes) (i : Nat) : Bool :=
  (escapes line)[i]? = some (space, false) && !encloses (quoteSpans line singleQuote) i &&
    !encloses (quoteSpans line doubleQuote) i && !encloses (subshellSpans line) i

def slice (line : Bytes) (run : Span) : Bytes := line.extract run.first (run.last + 1)

-- A stretch of the places from `start` on and below `stop` in which nothing separates, as long as it can be.
structure IsRun (cuts : Nat → Bool) (start stop : Nat) (run : Span) : Prop where
  begins : start ≤ run.first
  filled : run.first ≤ run.last
  ends : run.last < stop
  solid : ∀ i, run.contains i = true → cuts i = false
  left : start < run.first → cuts (run.first - 1) = true
  right : run.last + 1 < stop → cuts (run.last + 1) = true

-- A word of a line, by its place.
def IsWord (line : Bytes) (run : Span) : Prop := IsRun (separates line) 0 line.length run

-- The words of a line with their places, from left to right.
structure Placed (line : Bytes) (tokens : List Bytes) (runs : List Span) : Prop where
  words : tokens = runs.map (slice line)
  ordered : runs.Pairwise (fun a b => a.last < b.first)
  exactly : ∀ run, run ∈ runs ↔ IsWord line run

-- The pieces of a text that begins at byte `i`, cut at the given places. `word` is the current one, last byte first.
def pieces (cuts : Nat → Bool) : Nat → Bytes → Bytes → List Bytes
  | _, word, [] => finish word
  | i, word, c :: rest => if cuts i then finish word ++ pieces cuts (i + 1) [] rest else pieces cuts (i + 1) (c :: word) rest

theorem pieces_kept (whole : cuts i = false) (word : Bytes) (c : UInt8) (rest : Bytes) :
    pieces cuts i word (c :: rest) = pieces cuts (i + 1) (c :: word) rest := by
  rw [pieces]
  simp [whole]

theorem pieces_cut (cut : cuts i = true) (word : Bytes) (c : UInt8) (rest : Bytes) :
    pieces cuts i word (c :: rest) = finish word ++ pieces cuts (i + 1) [] rest := by
  rw [pieces]
  simp [cut]

-- The loop cuts where a space is neither escaped nor guarded.
theorem wordsFrom_pieces (guarded cuts : Nat → Bool) (i : Nat) (word text : Bytes)
    (agree : ∀ j, cuts (i + j) = (decide ((escapes text)[j]? = some (space, false)) && !guarded (i + j))) :
    wordsFrom guarded i word text = pieces cuts i word text := by
  fun_induction wordsFrom guarded i word text with
  | case1 i word => rfl
  | case2 i word =>
    have whole : cuts i = false := by simpa [escapes, space, backslash] using agree 0
    rw [pieces_kept whole]
    rfl
  | case3 i word d rest ih =>
    rw [escapes_escaped] at agree
    have first : cuts i = false := by simpa [space, backslash] using agree 0
    have second : cuts (i + 1) = false := by simpa using agree 1
    rw [pieces_kept first, pieces_kept second]
    apply ih
    intro j
    simpa [Nat.add_assoc, Nat.add_comm 2] using agree (j + 2)
  | case4 i word c rest plain kept ih =>
    rw [escapes_plain plain] at agree
    have whole : cuts i = false := by
      have here := agree 0
      rcases kept with other | guardedHere
      · simpa [other] using here
      · simpa [guardedHere] using here
    rw [pieces_kept whole]
    apply ih
    intro j
    simpa [Nat.add_assoc, Nat.add_comm 1] using agree (j + 1)
  | case5 i word c rest plain separates ih =>
    obtain ⟨rfl, unguarded⟩ : c = space ∧ guarded i = false := by simpa using separates
    rw [escapes_plain plain] at agree
    have cut : cuts i = true := by simpa [unguarded] using agree 0
    rw [pieces_cut cut]
    congr 1
    apply ih
    intro j
    simpa [Nat.add_assoc, Nat.add_comm 1] using agree (j + 1)

-- Nothing but what is cut out is lost, and nothing is moved.
theorem pieces_flatten (cuts : Nat → Bool) (i : Nat) (word text : Bytes) :
    (pieces cuts i word text).flatten = word.reverse ++ ((text.zipIdx i).filter (fun byte => !cuts byte.2)).map Prod.fst := by
  have finished : ∀ word, (finish word).flatten = word.reverse := by
    intro word
    cases word <;> simp [finish]
  fun_induction pieces cuts i word text with
  | case1 i word => simp [finished]
  | case2 i word c rest cut ih => simp [cut, finished, ih]
  | case3 i word c rest whole ih => simp [whole, ih]

theorem pieces_solid (cuts : Nat → Bool) (i : Nat) (word text : Bytes) (solid : ∀ j < text.length, cuts (i + j) = false) :
    pieces cuts i word text = finish (text.reverse ++ word) := by
  induction text generalizing i word with
  | nil => rfl
  | cons c rest ih =>
    have whole : cuts i = false := solid 0 (by simp)
    rw [pieces_kept whole, ih (i + 1) (c :: word)]
    · simp
    · intro j below
      have here := solid (j + 1) (by simpa using below)
      rwa [Nat.add_comm j, ← Nat.add_assoc] at here

-- The runs from `start` on, if nothing separates up to `i`: those behind `i` come later.

theorem isRun_last (solid : ∀ j, start ≤ j → j < stop → cuts j = false) (run : Span) :
    IsRun cuts start stop run ↔ start < stop ∧ run = ⟨start, stop - 1⟩ := by
  constructor
  · rintro ⟨begins, filled, ends, _, left, right⟩
    have first : run.first = start := by
      by_contra late
      have free := solid (run.first - 1) (by omega) (by omega)
      rw [left (by omega)] at free
      cases free
    have last : run.last + 1 = stop := by
      by_contra early
      have free := solid (run.last + 1) (by omega) (by omega)
      rw [right (by omega)] at free
      cases free
    refine ⟨by omega, ?_⟩
    obtain ⟨one, other⟩ := run
    simp only [Span.mk.injEq] at first last ⊢
    omega
  · rintro ⟨some, rfl⟩
    refine ⟨Nat.le_refl _, by simp only; omega, by simp only; omega, ?_, by simp, by simp only; omega⟩
    intro i inside
    simp only [Span.contains, Bool.and_eq_true, decide_eq_true_eq] at inside
    exact solid i (by omega) (by omega)

theorem isRun_cut (solid : ∀ j, start ≤ j → j < i → cuts j = false) (begun : start ≤ i) (within : i < stop) (cut : cuts i = true)
    (run : Span) : IsRun cuts start stop run ↔ (start < i ∧ run = ⟨start, i - 1⟩) ∨ IsRun cuts (i + 1) stop run := by
  constructor
  · intro isRun
    have outside : ¬(run.first ≤ i ∧ i ≤ run.last) := by
      intro inside
      have free := isRun.solid i (by simpa [Span.contains] using inside)
      rw [cut] at free
      cases free
    have filled := isRun.filled
    by_cases early : run.last < i
    · left
      have here : IsRun cuts start i run :=
        ⟨isRun.begins, filled, early, isRun.solid, isRun.left, fun below => isRun.right (by omega)⟩
      exact (isRun_last solid run).mp here
    · right
      refine ⟨by omega, filled, isRun.ends, isRun.solid, fun later => isRun.left (by omega), isRun.right⟩
  · rintro (⟨some, rfl⟩ | later)
    · have here := (isRun_last solid ⟨start, i - 1⟩).mpr ⟨some, rfl⟩
      refine ⟨here.begins, here.filled, by simp only; omega, here.solid, here.left, ?_⟩
      intro _
      simpa [Nat.sub_add_cancel (show 1 ≤ i by omega)] using cut
    · have begins := later.begins
      refine ⟨by omega, later.filled, later.ends, later.solid, ?_, later.right⟩
      intro _
      by_cases first : run.first = i + 1
      · simpa [first] using cut
      · exact later.left (by omega)

-- The current word is empty, or it is the run that ends here.
theorem finish_run {line : Bytes} (reached : i ≤ line.length) (begun : start ≤ i) (current : word.reverse = line.extract start i) :
    finish word = (if start < i then [⟨start, i - 1⟩] else []).map (slice line) := by
  have size : word.length = i - start := by
    have lengths := congrArg List.length current
    simp at lengths
    omega
  by_cases filled : start < i
  · have some : word ≠ [] := by
      rintro rfl
      simp at size
      omega
    simp [finish, some, filled, slice, current, Nat.sub_add_cancel (show 1 ≤ i by omega)]
  · have none : word = [] := List.length_eq_zero_iff.mp (by omega)
    simp [finish, none, filled]

theorem drop_cons {text : List α} (here : text.drop i = c :: rest) :
    i < text.length ∧ text.drop (i + 1) = rest ∧ text[i]? = some c := by
  refine ⟨?_, ?_, ?_⟩
  · by_contra beyond
    rw [List.drop_eq_nil_of_le (by omega)] at here
    cases here
  · rw [← List.drop_drop, here]
    rfl
  · rw [← List.head?_drop, here]
    rfl

-- What is cut out of a line, with the place of each piece: `word` stands from `start` up to `i`.
theorem pieces_runs (line : Bytes) (cuts : Nat → Bool) (start i : Nat) (word text : Bytes) (here : line.drop i = text)
    (reached : i ≤ line.length) (begun : start ≤ i) (current : word.reverse = line.extract start i)
    (solid : ∀ j, start ≤ j → j < i → cuts j = false) :
    ∃ runs : List Span, pieces cuts i word text = runs.map (slice line) ∧ runs.Pairwise (fun a b => a.last < b.first) ∧
      ∀ run, run ∈ runs ↔ IsRun cuts start line.length run := by
  fun_induction pieces cuts i word text generalizing start with
  | case1 i word =>
    have ended : i = line.length := by
      have lengths := congrArg List.length here
      simp at lengths
      omega
    subst ended
    refine ⟨_, finish_run reached begun current, ?_, ?_⟩
    · split <;> simp
    · intro run
      rw [isRun_last solid]
      split <;> simp [*]
  | case2 i word c rest cut ih =>
    obtain ⟨below, later, _⟩ := drop_cons here
    obtain ⟨runs, same, ordered, members⟩ := ih (i + 1) later below (Nat.le_refl _) (by simp) (fun j after before => by omega)
    refine ⟨_ ++ runs, by rw [finish_run reached begun current, same, ← List.map_append], ?_, ?_⟩
    · refine List.pairwise_append.mpr ⟨by split <;> simp, ordered, ?_⟩
      intro first early second late
      have begins := ((members second).mp late).begins
      split at early
      · obtain rfl := List.mem_singleton.mp early
        simp only
        omega
      · cases early
    · intro run
      rw [isRun_cut solid begun below cut, List.mem_append, members]
      split <;> simp [*]
  | case3 i word c rest whole ih =>
    obtain ⟨below, later, at_⟩ := drop_cons here
    refine ih start later below (by omega) ?_ ?_
    · rw [List.reverse_cons, current, List.extract_eq_take_drop, List.extract_eq_take_drop, Nat.succ_sub begun,
        List.take_add_one, List.getElem?_drop, Nat.add_sub_cancel' begun, at_]
      rfl
    · intro j after before
      by_cases last : j = i
      · simpa [last] using whole
      · exact solid j after (by omega)

-- Splitting fails if and only if one of the three searches does.
theorem split_fails (line : Bytes) :
    (∃ fault, split line = .error fault) ↔ (∃ fault, quoteSpans line singleQuote = .error fault) ∨
      (∃ fault, quoteSpans line doubleQuote = .error fault) ∨ ∃ fault, subshellSpans line = .error fault := by
  unfold split protectedSpans
  rcases quoteSpans line singleQuote with fault | single
  · exact iff_of_true ⟨fault, rfl⟩ (.inl ⟨fault, rfl⟩)
  · rcases quoteSpans line doubleQuote with fault | double
    · exact iff_of_true ⟨fault, rfl⟩ (.inr (.inl ⟨fault, rfl⟩))
    · rcases subshellSpans line with fault | regions
      · exact iff_of_true ⟨fault, rfl⟩ (.inr (.inr ⟨fault, rfl⟩))
      · refine iff_of_false (by rintro ⟨_, ⟨⟩⟩) ?_
        rintro (⟨_, ⟨⟩⟩ | ⟨_, ⟨⟩⟩ | ⟨_, ⟨⟩⟩)

theorem split_pieces (splits : split line = .ok tokens) : tokens = pieces (separates line) 0 [] line := by
  unfold split protectedSpans at splits
  rcases single : quoteSpans line singleQuote with fault | first
  · rw [single] at splits
    cases splits
  · rcases double : quoteSpans line doubleQuote with fault | second
    · rw [single, double] at splits
      cases splits
    · rcases regions : subshellSpans line with fault | third
      · rw [single, double, regions] at splits
        cases splits
      · rw [single, double, regions] at splits
        cases splits
        apply wordsFrom_pieces
        intro j
        simp [separates, encloses, single, double, regions, Except.toOption, covered, List.any_append, Bool.and_assoc]

theorem split_placed (splits : split line = .ok tokens) : ∃ runs, Placed line tokens runs := by
  rw [split_pieces splits]
  obtain ⟨runs, same, ordered, members⟩ := pieces_runs line (separates line) 0 0 [] line rfl (Nat.zero_le _) (Nat.le_refl _) rfl
    (fun j _ before => absurd before (Nat.not_lt_zero j))
  exact ⟨runs, same, ordered, members⟩

-- A line is refused exactly if a quote is left over or a region is not closed. Otherwise its words are the
-- longest runs without a separator, from left to right, so that together they are all the other bytes in order.
theorem split_exact (line : Bytes) :
    ((∃ fault, split line = .error fault) ↔ Odd ((escapes line).count (singleQuote, false)) ∨
      Odd ((escapes line).count (doubleQuote, false)) ∨ ∃ fault, subshellSpans line = .error fault) ∧
    ∀ tokens, split line = .ok tokens →
      (∃ runs, Placed line tokens runs) ∧
      tokens.flatten = (line.zipIdx.filter (fun byte => !separates line byte.2)).map Prod.fst := by
  refine ⟨?_, fun tokens splits => ⟨split_placed splits, ?_⟩⟩
  · rw [split_fails, quoteSpans_fails (.inl rfl), quoteSpans_fails (.inr rfl)]
  · rw [split_pieces splits]
    exact pieces_flatten (separates line) 0 [] line

-- A quote whose partner is escaped; regions of the three kinds that overlap, and a backslash at the end.
theorem split_exact_overlapping :
    (∃ fault, split (ascii "'a\\' b") = .error fault) ∧
      split (ascii "a\\ b  'c \"d' $(e ')\" f') \\' g\\") =
        .ok [ascii "a\\ b", ascii "'c \"d' $(e ')\" f')", ascii "\\'", ascii "g\\"] ∧
      ∃ runs, Placed (ascii "a\\ b  'c \"d' $(e ')\" f') \\' g\\")
        [ascii "a\\ b", ascii "'c \"d' $(e ')\" f')", ascii "\\'", ascii "g\\"] runs := by
  have splits : split (ascii "a\\ b  'c \"d' $(e ')\" f') \\' g\\") =
      .ok [ascii "a\\ b", ascii "'c \"d' $(e ')\" f')", ascii "\\'", ascii "g\\"] :=
    split_cut.mpr (by decide +kernel)
  exact ⟨(split_exact _).1.mpr (.inl (by decide +kernel)), splits, ((split_exact _).2 _ splits).1⟩

end LineShell.Line
