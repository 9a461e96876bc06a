import Mathlib.Data.List.Pairwise
import Mathlib.Data.List.Sort
import LineShell.Proofs.Cutting

-- A parenthesis count says where a span ends, the quotes outside the spans say where one may begin, and no line has two
-- such lists of spans.
namespace LineShell.Line
open Bytes

-- Quotes.

theorem places_ordered (line : Bytes) (q : UInt8) : (places line q).Pairwise (· < ·) := List.pairwise_findIdxs

-- With a quote left over the search reports the line from the last of them on.
theorem quoteSpansFrom_unpaired {line : Bytes} (plain : q ≠ backslash) (i : Nat) (opened : Option (Nat × Bytes)) (text : Bytes)
    (here : line.drop i = text) (begun : ∀ start tail, opened = some (start, tail) → tail = line.drop start)
    (odd : Odd (openPlace opened ++ placesFrom q i text).length) :
    ∃ last, (openPlace opened ++ placesFrom q i text).getLast? = some last ∧
      quoteSpansFrom q i opened text = .error (.parse .unterminatedQuote (line.drop last)) := by
  fun_induction quoteSpansFrom q i opened text with
  | case1 i => simp [openPlace, placesFrom, escapes] at odd
  | case2 i start tail =>
    refine ⟨start, by simp [openPlace, placesFrom, escapes], ?_⟩
    rw [begun start tail rfl]
  | case3 i opened ih =>
    have none : placesFrom q i [backslash] = placesFrom q (i + 1) [] := by simp [placesFrom, escapes, plain.symm]
    rw [none] at odd ⊢
    exact ih (drop_cons here).2.1 begun odd
  | case4 i opened d rest ih =>
    rw [placesFrom_escaped q i d rest plain] at odd ⊢
    exact ih (drop_cons (drop_cons here).2.1).2.1 begun odd
  | case5 i rest _ ih =>
    rw [placesFrom_quote plain] at odd ⊢
    refine ih (drop_cons here).2.1 ?_ odd
    rintro start tail ⟨⟩
    exact here.symm
  | case6 i rest start tail _ ih =>
    rw [placesFrom_quote plain] at odd ⊢
    obtain ⟨last, found, failed⟩ := ih (drop_cons here).2.1 (by rintro start tail ⟨⟩)
      (by simpa [openPlace, Nat.odd_add_one] using odd)
    refine ⟨last, ?_, ?_⟩
    · rw [openPlace, Option.map_none, Option.toList_none, List.nil_append] at found
      simp [openPlace, List.getLast?_cons, found]
    · rw [failed]
      rfl
  | case7 i opened c rest notBackslash notQuote ih =>
    rw [placesFrom_other notBackslash notQuote] at odd ⊢
    exact ih (drop_cons here).2.1 begun odd

-- The quotes of a line taken two at a time are its regions; if one is left over, it is the last that is reported.
theorem quoteSpans_paired (plain : q ≠ backslash) (line : Bytes) :
    (places line q).Pairwise (· < ·) ∧ (∀ i, i ∈ places line q ↔ (escapes line)[i]? = some (q, false)) ∧
      (Even (places line q).length → quoteSpans line q = .ok (pairUp (places line q)) ∧
        (pairUp (places line q)).flatMap (fun span => [span.first, span.last]) = places line q) ∧
      (Odd (places line q).length → ∃ last, (places line q).getLast? = some last ∧
        quoteSpans line q = .error (.parse .unterminatedQuote (line.drop last))) := by
  refine ⟨places_ordered line q, fun i => mem_places line q, fun even => ⟨?_, pairUp_flatten even⟩, ?_⟩
  · exact (quoteSpansFrom_places q plain 0 none line _).mpr ⟨even, rfl⟩
  · exact quoteSpansFrom_unpaired plain 0 none line rfl (by rintro start tail ⟨⟩)

-- Quotes behind one backslash, behind two, and a backslash at the end.
theorem quoteSpans_paired_escaped :
    singleQuote ≠ backslash ∧
      quoteSpans (ascii "a 'b\\'c' \\\\'d' \\") singleQuote = .ok [⟨2, 7⟩, ⟨11, 13⟩] ∧
      quoteSpans (ascii "'a' \\'b 'c\\") singleQuote = .error (.parse .unterminatedQuote (ascii "'c\\")) := by
  have plain : singleQuote ≠ backslash := by decide
  obtain ⟨_, _, paired, _⟩ := quoteSpans_paired plain (ascii "a 'b\\'c' \\\\'d' \\")
  obtain ⟨_, _, _, unpaired⟩ := quoteSpans_paired plain (ascii "'a' \\'b 'c\\")
  rw [show places (ascii "a 'b\\'c' \\\\'d' \\") singleQuote = [2, 7, 11, 13] by decide +kernel] at paired
  rw [show places (ascii "'a' \\'b 'c\\") singleQuote = [0, 2, 8] by decide +kernel] at unpaired
  obtain ⟨last, found, failed⟩ := unpaired (by decide)
  cases found
  exact ⟨plain, (paired (by decide)).1, failed⟩

-- Command substitution.

-- A parenthesis that is not escaped counts up or down.
def weight (byte : UInt8 × Bool) : Int :=
  if byte = (openParen, false) then 1 else if byte = (closeParen, false) then -1 else 0

-- The parentheses open in front of byte `stop`, counted from byte `start` on.
def level (line : Bytes) (start stop : Nat) : Int :=
  ((escapes line).extract start stop).foldl (fun count byte => count + weight byte) 0

-- A `$(` that is not escaped.
def Marked (line : Bytes) (i : Nat) : Prop :=
  (escapes line)[i]? = some (dollar, false) ∧ (escapes line)[i + 1]? = some (openParen, false)

-- The single quotes in front of byte `i` that are neither escaped nor inside one of the spans.
def quotesBefore (line : Bytes) (spans : List Span) (i : Nat) : Nat :=
  (List.range i).countP fun p => (escapes line)[p]? = some (singleQuote, false) && !covered spans p

-- A `$(` that is not escaped and stands outside single quotes.
def Live (line : Bytes) (spans : List Span) (i : Nat) : Prop := Marked line i ∧ Even (quotesBefore line spans i)

-- The count from byte `start` on comes back to zero at byte `last` and not before.
structure Closed (line : Bytes) (start last : Nat) : Prop where
  behind : start < last
  zero : level line start (last + 1) = 0
  first : ∀ i, start < i → i < last → level line start (i + 1) ≠ 0

-- The outermost `$(...)` of a line that end in front of byte `stop`, where none is open.
structure Outermost (line : Bytes) (stop : Nat) (spans : List Span) : Prop where
  ordered : spans.Pairwise (fun a b => a.last < b.first)
  starts : ∀ span ∈ spans, Live line spans span.first
  closes : ∀ span ∈ spans, Closed line span.first span.last
  below : ∀ span ∈ spans, span.last < stop
  complete : ∀ i < stop, Live line spans i → ∃! span, span ∈ spans ∧ span.first ≤ i ∧ i < span.last

-- An outermost `$(` from which on the count never comes back to zero.
structure Unclosed (line : Bytes) (start : Nat) : Prop where
  outermost : ∃ spans, Outermost line start spans ∧ Live line spans start
  never : ∀ i, start < i → i < line.length → level line start (i + 1) ≠ 0

theorem level_succ (reached : start ≤ i) (here : (escapes line)[i]? = some byte) :
    level line start (i + 1) = level line start i + weight byte := by
  have longer : (escapes line).extract start (i + 1) = (escapes line).extract start i ++ [byte] := by
    rw [List.extract_eq_take_drop, List.extract_eq_take_drop, Nat.succ_sub reached, List.take_add_one, List.getElem?_drop,
      Nat.add_sub_cancel' reached, here]
    rfl
  simp [level, longer]

theorem level_self (line : Bytes) (start : Nat) : level line start start = 0 := by simp [level]

theorem covered_iff : covered spans i = true ↔ ∃ span ∈ spans, span.first ≤ i ∧ i ≤ span.last := by
  simp [covered, Span.contains]

theorem covered_agree (there : ∀ span ∈ a, span.first ≤ i → span ∈ b) (back : ∀ span ∈ b, span.first ≤ i → span ∈ a) :
    covered a i = covered b i := by
  rw [Bool.eq_iff_iff, covered_iff, covered_iff]
  constructor
  · rintro ⟨span, member, inside⟩
    exact ⟨span, there span member inside.1, inside⟩
  · rintro ⟨span, member, inside⟩
    exact ⟨span, back span member inside.1, inside⟩

-- A further span covers nothing in front of it.
theorem covered_front (before : p < start) : covered spans p = covered (spans ++ [⟨start, last⟩]) p := by
  have outside : Span.contains ⟨start, last⟩ p = false := by simp [Span.contains, before]
  simp [covered, outside]

theorem Closed.unique (one : Closed line start m) (other : Closed line start n) : m = n := by
  rcases Nat.lt_trichotomy m n with less | same | more
  · exact absurd one.zero (other.first m one.behind less)
  · exact same
  · exact absurd other.zero (one.first n other.behind more)

-- Until it comes back the count is zero only between the dollar and its parenthesis.
theorem Marked.paren_of_zero (marked : Marked line start) (behind : start < i)
    (never : ∀ j, start < j → j < i → level line start (j + 1) ≠ 0) (zero : level line start i = 0) :
    (escapes line)[i]? = some (openParen, false) := by
  have second : i = start + 1 := by
    by_contra further
    rw [← Nat.sub_add_cancel (show 1 ≤ i by omega)] at zero
    exact never (i - 1) (by omega) (by omega) zero
  rw [second]
  exact marked.2

-- The byte that brings the count back to zero is no dollar.
theorem Closed.unmarked (closed : Closed line start last) (marked : Marked line start) : ¬Marked line last := by
  intro also
  have zero := closed.zero
  rw [level_succ (Nat.le_of_lt closed.behind) also.1, show weight (dollar, false) = 0 from rfl, Int.add_zero] at zero
  have both := (marked.paren_of_zero closed.behind closed.first zero).symm.trans also.1
  revert both
  decide

-- Quotes in front of a place, if the spans or the place change.

theorem quotesBefore_congr (agree : ∀ p < i, covered a p = covered b p) : quotesBefore line a i = quotesBefore line b i := by
  refine List.countP_congr ?_
  intro p before
  rw [agree p (List.mem_range.mp before)]

theorem quotesBefore_quote (here : (escapes line)[i]? = some (singleQuote, false)) (free : covered spans i = false) :
    quotesBefore line spans (i + 1) = quotesBefore line spans i + 1 := by
  simp [quotesBefore, List.range_succ, here, free]

theorem quotesBefore_other (other : (escapes line)[i]? ≠ some (singleQuote, false) ∨ covered spans i = true) :
    quotesBefore line spans (i + 1) = quotesBefore line spans i := by
  rcases other with other | inside
  · simp [quotesBefore, List.range_succ, other]
  · simp [quotesBefore, List.range_succ, inside]

theorem quotesBefore_inside (line : Bytes) (order : i ≤ j) (inside : ∀ p, i ≤ p → p < j → covered spans p = true) :
    quotesBefore line spans j = quotesBefore line spans i := by
  induction j, order using Nat.le_induction with
  | base => rfl
  | succ j order ih =>
    rw [quotesBefore_other (.inr (inside j order (Nat.lt_succ_self j)))]
    exact ih fun p late early => inside p late (Nat.lt_succ_of_lt early)

theorem Live.congr (live : Live line a i) (agree : ∀ p < i, covered a p = covered b p) : Live line b i :=
  ⟨live.1, quotesBefore_congr agree ▸ live.2⟩

theorem Marked.below (marked : Marked line i) : i < line.length := by
  obtain ⟨below, _⟩ := List.getElem?_eq_some_iff.mp marked.1
  rwa [escapes_length] at below

-- No place is in two spans that stand one behind the other.
theorem only_one {a b : Span} {spans : List Span} (ordered : spans.Pairwise (fun a b => a.last < b.first)) (one : a ∈ spans)
    (other : b ∈ spans) (inside : a.first ≤ i ∧ i ≤ a.last) (insideOther : b.first ≤ i ∧ i ≤ b.last) : a = b := by
  by_contra distinct
  have apart : spans.Pairwise (fun a b => a.last < b.first ∨ b.last < a.first) := ordered.imp Or.inl
  have symmetric : Std.Symm (fun a b : Span => a.last < b.first ∨ b.last < a.first) := ⟨fun _ _ => Or.symm⟩
  rcases apart.forall one other distinct with before | behind
  · omega
  · omega

-- The spans as the search goes on.

namespace Outermost

theorem uncovered (outermost : Outermost line stop spans) (late : stop ≤ i) : covered spans i = false := by
  rw [← Bool.not_eq_true, covered_iff]
  rintro ⟨span, member, _, inside⟩
  have below := outermost.below span member
  omega

theorem empty (line : Bytes) : Outermost line 0 [] := by
  refine ⟨List.Pairwise.nil, ?_, ?_, ?_, ?_⟩
  · simp
  · simp
  · simp
  · intro i early
    exact absurd early (Nat.not_lt_zero i)

theorem pass (outermost : Outermost line i spans) (dead : ¬Live line spans i) : Outermost line (i + 1) spans := by
  refine ⟨outermost.ordered, outermost.starts, outermost.closes, ?_, ?_⟩
  · exact fun span member => Nat.lt_succ_of_lt (outermost.below span member)
  · intro j early live
    have different : j ≠ i := by
      rintro rfl
      exact dead live
    exact outermost.complete j (by omega) live

theorem close (outermost : Outermost line start spans) (live : Live line spans start) (closed : Closed line start last) :
    Outermost line (last + 1) (spans ++ [⟨start, last⟩]) := by
  have agree : ∀ p < start, covered spans p = covered (spans ++ [⟨start, last⟩]) p := fun p before => covered_front before
  have behind := closed.behind
  have ordered : List.Pairwise (fun a b => a.last < b.first) (spans ++ [⟨start, last⟩]) := by
    refine List.pairwise_append.mpr ⟨outermost.ordered, List.pairwise_singleton _ _, ?_⟩
    intro span early other late
    obtain rfl := List.mem_singleton.mp late
    exact outermost.below span early
  refine ⟨ordered, ?_, ?_, ?_, ?_⟩
  · intro span member
    rcases List.mem_append.mp member with early | late
    · have below := outermost.below span early
      have closes := (outermost.closes span early).behind
      exact (outermost.starts span early).congr fun p before => agree p (by omega)
    · obtain rfl := List.mem_singleton.mp late
      exact live.congr agree
  · intro span member
    rcases List.mem_append.mp member with early | late
    · exact outermost.closes span early
    · obtain rfl := List.mem_singleton.mp late
      exact closed
  · intro span member
    rcases List.mem_append.mp member with early | late
    · have below := outermost.below span early
      omega
    · obtain rfl := List.mem_singleton.mp late
      exact Nat.lt_succ_self last
  · intro i early now
    have found : ∃ span ∈ spans ++ [⟨start, last⟩], span.first ≤ i ∧ i < span.last := by
      by_cases before : i < start
      · have old : Live line spans i := now.congr fun p front => (agree p (by omega)).symm
        obtain ⟨span, ⟨member, inside⟩, _⟩ := outermost.complete i before old
        exact ⟨span, List.mem_append_left _ member, inside⟩
      · have different : i ≠ last := by
          rintro rfl
          exact closed.unmarked live.1 now.1
        exact ⟨⟨start, last⟩, by simp, Nat.le_of_not_lt before, by dsimp only; omega⟩
    obtain ⟨span, member, inside⟩ := found
    refine ⟨span, ⟨member, inside⟩, fun other held => ?_⟩
    exact only_one ordered held.1 member ⟨held.2.1, Nat.le_of_lt held.2.2⟩ ⟨inside.1, Nat.le_of_lt inside.2⟩

-- What is found up to one place is found up to another as well: below the start of a span both lists cover the
-- same places, so both see that start outside quotes, and the count can close a region at one place only.
theorem mem_of_mem (one : Outermost line m a) (other : Outermost line n b) (member : span ∈ a) (early : span.first < n) :
    span ∈ b := by
  induction first : span.first using Nat.strong_induction_on generalizing m n a b span with
  | _ start ih =>
    have inner := (one.closes span member).behind
    have below := one.below span member
    have agree : ∀ p < span.first, covered a p = covered b p := by
      intro p before
      refine covered_agree ?_ ?_
      · exact fun x held front => ih x.first (by omega) one other held (by omega) rfl
      · exact fun x held front => ih x.first (by omega) other one held (by omega) rfl
    obtain ⟨x, ⟨held, inside⟩, _⟩ := other.complete span.first early ((one.starts span member).congr agree)
    rcases Nat.lt_or_eq_of_le inside.1 with before | same
    · have shared := ih x.first (by omega) other one held (by omega) rfl
      rwa [only_one one.ordered member shared ⟨Nat.le_refl _, Nat.le_of_lt inner⟩ ⟨inside.1, Nat.le_of_lt inside.2⟩]
    · have closes := other.closes x held
      rw [same] at closes
      have last := (one.closes span member).unique closes
      have equal : span = x := by
        cases span
        cases x
        simp only [Span.mk.injEq]
        exact ⟨same.symm, last⟩
      rwa [equal]

theorem agree (one : Outermost line m a) (other : Outermost line n b) (below : p < m) (belowOther : p < n) :
    covered a p = covered b p := by
  refine covered_agree ?_ ?_
  · exact fun span member front => one.mem_of_mem other member (by omega)
  · exact fun span member front => other.mem_of_mem one member (by omega)

-- A line has one list of outermost regions.
theorem unique (one : Outermost line stop a) (other : Outermost line stop b) : a = b := by
  have sorted : ∀ {spans}, Outermost line stop spans → spans.Pairwise (fun a b => a.first < b.first) := by
    intro spans outermost
    refine outermost.ordered.imp_of_mem ?_
    intro x y member _ before
    exact Nat.lt_trans (outermost.closes x member).behind before
  have irreflexive : Std.Irrefl (fun a b : Span => a.first < b.first) := ⟨fun x => Nat.lt_irrefl x.first⟩
  have antisymmetric : Std.Antisymm (fun a b : Span => a.first < b.first) :=
    ⟨fun _ _ before behind => absurd before (Nat.lt_asymm behind)⟩
  have early : ∀ {spans}, Outermost line stop spans → ∀ span ∈ spans, span.first < stop := by
    intro spans outermost span member
    exact Nat.lt_trans (outermost.closes span member).behind (outermost.below span member)
  refine List.Pairwise.eq_of_mem_iff (sorted one) (sorted other) fun span => ⟨?_, ?_⟩
  · exact fun member => one.mem_of_mem other member (early one span member)
  · exact fun member => other.mem_of_mem one member (early other span member)

end Outermost

namespace Unclosed

theorem below (unclosed : Unclosed line start) : start < line.length := by
  obtain ⟨_, _, live⟩ := unclosed.outermost
  exact live.1.below

-- Nothing is finished behind a region that is never closed.
theorem blocks (unclosed : Unclosed line start) (outermost : Outermost line stop spans) (within : stop ≤ line.length) :
    stop ≤ start := by
  by_contra beyond
  have reached : start < stop := by omega
  obtain ⟨earlier, before, live⟩ := unclosed.outermost
  have seen : Live line spans start := live.congr fun p front => before.agree outermost front (by omega)
  obtain ⟨x, ⟨held, inside⟩, _⟩ := outermost.complete start reached seen
  have closes := outermost.closes x held
  have ends := outermost.below x held
  rcases Nat.lt_or_eq_of_le inside.1 with front | same
  · have finished := before.below x (outermost.mem_of_mem before held front)
    omega
  · rw [same] at closes
    exact unclosed.never x.last closes.behind (by omega) closes.zero

theorem unique (one : Unclosed line m) (other : Unclosed line n) : m = n := by
  have below := one.below
  have belowOther := other.below
  obtain ⟨_, before, _⟩ := one.outermost
  obtain ⟨_, beforeOther, _⟩ := other.outermost
  have order := one.blocks beforeOther (by omega)
  have orderOther := other.blocks before (by omega)
  omega

end Unclosed

-- The search along a line.

-- The search has reached byte `i`, no backslash is pending there, and `text` is still to be read.
structure Aligned (line : Bytes) (i : Nat) (text : Bytes) : Prop where
  reached : i ≤ line.length
  ahead : (escapes line).drop i = escapes text

namespace Aligned

theorem text_eq (aligned : Aligned line i text) : line.drop i = text := by
  rw [← escapes_fst line, ← List.map_drop, aligned.ahead, escapes_fst]

theorem plain (aligned : Aligned line i (c :: rest)) (notBackslash : c ≠ backslash) :
    (escapes line)[i]? = some (c, false) ∧ Aligned line (i + 1) rest := by
  have head := aligned.ahead
  rw [escapes_plain notBackslash] at head
  obtain ⟨below, later, here⟩ := drop_cons head
  rw [escapes_length] at below
  exact ⟨here, below, later⟩

theorem pair (aligned : Aligned line i (backslash :: d :: rest)) :
    (escapes line)[i]? = some (backslash, false) ∧ (escapes line)[i + 1]? = some (d, true) ∧ Aligned line (i + 2) rest := by
  have head := aligned.ahead
  rw [escapes_escaped] at head
  obtain ⟨_, second, here⟩ := drop_cons head
  obtain ⟨below, later, next⟩ := drop_cons second
  rw [escapes_length] at below
  exact ⟨here, next, below, later⟩

theorem final (aligned : Aligned line i [backslash]) :
    (escapes line)[i]? = some (backslash, false) ∧ Aligned line (i + 1) [] := by
  obtain ⟨below, later, here⟩ := drop_cons aligned.ahead
  rw [escapes_length] at below
  exact ⟨here, below, later⟩

theorem here (aligned : Aligned line i text) : (escapes line)[i]? = text.head?.map (·, false) := by
  rw [← List.head?_drop, aligned.ahead]
  fun_cases escapes text <;> rfl

theorem marked (aligned : Aligned line i (c :: rest)) (notBackslash : c ≠ backslash) :
    Marked line i ↔ c = dollar ∧ rest.head? = some openParen := by
  have next := (aligned.plain notBackslash).2.here
  simp [Marked, aligned.here, next]

theorem ended (aligned : Aligned line i []) : i = line.length := by
  have reached := aligned.reached
  have beyond : line.length ≤ i := List.drop_eq_nil_iff.mp aligned.text_eq
  omega

end Aligned

-- The search is inside an outermost region, with `depth` parentheses open in front of byte `i`.
structure Entered (line : Bytes) (spans : List Span) (start i depth : Nat) : Prop where
  outermost : Outermost line start spans
  live : Live line spans start
  behind : start < i
  count : level line start i = depth
  never : ∀ j, start < j → j < i → level line start (j + 1) ≠ 0

namespace Entered

theorem enter (outermost : Outermost line start spans) (live : Live line spans start) : Entered line spans start (start + 1) 0 := by
  refine ⟨outermost, live, Nat.lt_succ_self start, ?_, ?_⟩
  · rw [level_succ (Nat.le_refl start) live.1.1, level_self]
    rfl
  · intro j late early
    omega

-- Only the parenthesis behind the dollar is met at depth zero.
theorem positive (entered : Entered line spans start i depth) (here : (escapes line)[i]? = some byte)
    (other : byte ≠ (openParen, false)) : depth ≠ 0 := by
  rintro rfl
  have paren := entered.live.1.paren_of_zero entered.behind entered.never entered.count
  exact other (Option.some.inj (here.symm.trans paren))

theorem step {next : Nat} (entered : Entered line spans start i depth) (here : (escapes line)[i]? = some byte)
    (counts : (next : Int) = depth + weight byte) (still : next ≠ 0) : Entered line spans start (i + 1) next := by
  have behind := entered.behind
  have count : level line start (i + 1) = next := by
    rw [level_succ (Nat.le_of_lt behind) here, entered.count, counts]
  refine ⟨entered.outermost, entered.live, by omega, count, ?_⟩
  intro j late early
  by_cases last : j = i
  · rw [last, count]
    exact Int.natCast_ne_zero.mpr still
  · exact entered.never j late (by omega)

theorem pass (entered : Entered line spans start i depth) (here : (escapes line)[i]? = some byte) (idle : weight byte = 0) :
    Entered line spans start (i + 1) depth := by
  refine entered.step here (by rw [idle, Int.add_zero]) (entered.positive here ?_)
  rintro rfl
  cases idle

theorem closed (entered : Entered line spans start i 1) (here : (escapes line)[i]? = some (closeParen, false)) :
    Closed line start i := by
  refine ⟨entered.behind, ?_, entered.never⟩
  rw [level_succ (Nat.le_of_lt entered.behind) here, entered.count]
  decide

theorem unclosed (entered : Entered line spans start line.length depth) : Unclosed line start :=
  ⟨⟨spans, entered.outermost, entered.live⟩, entered.never⟩

end Entered

-- Where the search stands in front of byte `i`, with the regions it has found so far.
def Standing (line : Bytes) (spans : List Span) (i : Nat) : SubshellScan → Prop
  | .outside quoted => Outermost line i spans ∧ (quoted = true ↔ Odd (quotesBefore line spans i))
  | .inside depth start tail => Entered line spans start i depth ∧ tail = line.drop start

-- What the search ends with, if it goes on from the regions found so far.
def Answers (line : Bytes) (spans : List Span) : Except Fault (List Span) → Prop
  | .ok later => Outermost line line.length (spans ++ later)
  | .error fault => ∃ start, Unclosed line start ∧ fault = .parse .unterminatedSubshell (line.drop start)

-- Outside, only a single quote and a `$(` that is not quoted move the search.
theorem Standing.skip (standing : Standing line spans i (.outside quoted)) (here : (escapes line)[i]? = some byte)
    (noQuote : byte ≠ (singleQuote, false)) (closed : quoted = false → ¬Marked line i) :
    Standing line spans (i + 1) (.outside quoted) := by
  obtain ⟨outermost, quotes⟩ := standing
  have dead : ¬Live line spans i := by
    rintro ⟨marked, even⟩
    rw [← Nat.not_odd_iff_even, ← quotes, Bool.not_eq_true] at even
    exact closed even marked
  have other : (escapes line)[i]? ≠ some (singleQuote, false) := by
    rw [here]
    exact fun same => noQuote (Option.some.inj same)
  refine ⟨outermost.pass dead, ?_⟩
  rwa [quotesBefore_other (.inl other)]

-- A byte that is no parenthesis, dollar or single quote moves it nowhere.
theorem Standing.pass (standing : Standing line spans i scan) (here : (escapes line)[i]? = some byte) (idle : weight byte = 0)
    (noQuote : byte ≠ (singleQuote, false)) (noDollar : byte ≠ (dollar, false)) : Standing line spans (i + 1) scan := by
  cases scan with
  | outside quoted =>
    refine standing.skip here noQuote fun _ marked => ?_
    exact noDollar (Option.some.inj (here.symm.trans marked.1))
  | inside depth start tail => exact ⟨standing.1.pass here idle, standing.2⟩

theorem Standing.pair (standing : Standing line spans i scan) (here : (escapes line)[i]? = some (backslash, false))
    (next : (escapes line)[i + 1]? = some (d, true)) : Standing line spans (i + 2) scan :=
  (standing.pass here rfl (by decide) (by decide)).pass next (by simp [weight]) (by simp) (by simp)

theorem Standing.quote (standing : Standing line spans i (.outside quoted)) (here : (escapes line)[i]? = some (singleQuote, false)) :
    Standing line spans (i + 1) (.outside !quoted) := by
  obtain ⟨outermost, quotes⟩ := standing
  have dead : ¬Live line spans i := by
    rintro ⟨⟨marked, _⟩, _⟩
    have both := here.symm.trans marked
    revert both
    decide
  refine ⟨outermost.pass dead, ?_⟩
  rw [quotesBefore_quote here (outermost.uncovered (Nat.le_refl i)), Nat.odd_add_one, ← quotes, Bool.not_eq_true',
    Bool.not_eq_true]

theorem Standing.enter (standing : Standing line spans i (.outside false)) (marked : Marked line i) :
    Standing line spans (i + 1) (.inside 0 i (line.drop i)) := by
  obtain ⟨outermost, quotes⟩ := standing
  have live : Live line spans i := ⟨marked, by simpa using quotes⟩
  exact ⟨.enter outermost live, rfl⟩

-- Behind the parenthesis that closes a region the search is outside again, and outside single quotes.
theorem Entered.leave (entered : Entered line spans start i 1) (here : (escapes line)[i]? = some (closeParen, false)) :
    Standing line (spans ++ [⟨start, i⟩]) (i + 1) (.outside false) := by
  have behind := entered.behind
  have inside : ∀ p, start ≤ p → p < i + 1 → covered (spans ++ [⟨start, i⟩]) p = true := by
    intro p late early
    exact covered_iff.mpr ⟨⟨start, i⟩, by simp, late, Nat.le_of_lt_succ early⟩
  have quotes : quotesBefore line (spans ++ [⟨start, i⟩]) (i + 1) = quotesBefore line spans start := by
    rw [quotesBefore_inside line (by omega) inside]
    exact (quotesBefore_congr fun p before => covered_front before).symm
  refine ⟨entered.outermost.close entered.live (entered.closed here), ?_⟩
  rw [quotes]
  simpa using entered.live.2

theorem Answers.cons (answers : Answers line (spans ++ [span]) result) : Answers line spans ((span :: ·) <$> result) := by
  cases result with
  | error fault => exact answers
  | ok later => simpa [Answers] using answers

-- Each byte keeps the search where it stands, and the end of the line makes an answer of that.
theorem subshellSpansFrom_answers (line : Bytes) (i : Nat) (scan : SubshellScan) (text : Bytes) (aligned : Aligned line i text)
    (standing : Standing line spans i scan) : Answers line spans (subshellSpansFrom i scan text) := by
  fun_induction subshellSpansFrom i scan text generalizing spans with
  | case1 i quoted =>
    have whole := standing.1
    rw [aligned.ended] at whole
    simpa [Answers] using whole
  | case2 i depth start tail =>
    obtain ⟨entered, rfl⟩ := standing
    rw [aligned.ended] at entered
    exact ⟨start, entered.unclosed, rfl⟩
  | case3 i quoted ih | case8 i depth start tail ih =>
    obtain ⟨here, later⟩ := aligned.final
    exact ih later (standing.pass here rfl (by decide) (by decide))
  | case4 i quoted d rest ih | case9 i depth start tail d rest ih =>
    obtain ⟨here, next, later⟩ := aligned.pair
    exact ih later (standing.pair here next)
  | case5 i quoted rest _ ih =>
    obtain ⟨here, later⟩ := aligned.plain (by decide)
    exact ih later (standing.quote here)
  | case6 i quoted c rest notBackslash _ opens ih =>
    obtain ⟨isDollar, rfl, paren⟩ := opens
    have marked := (aligned.marked notBackslash).mpr ⟨isDollar, paren⟩
    rw [← aligned.text_eq] at ih ⊢
    exact ih (aligned.plain notBackslash).2 (standing.enter marked)
  | case7 i quoted c rest notBackslash notQuote passes ih =>
    obtain ⟨here, later⟩ := aligned.plain notBackslash
    refine ih later (standing.skip here (by simp [notQuote]) fun unquoted marked => ?_)
    obtain ⟨isDollar, paren⟩ := (aligned.marked notBackslash).mp marked
    exact passes ⟨isDollar, unquoted, paren⟩
  | case10 i depth start tail rest notBackslash ih =>
    obtain ⟨here, later⟩ := aligned.plain (by decide)
    exact ih later ⟨standing.1.step here (by simp [weight]) (Nat.succ_ne_zero depth), standing.2⟩
  | case11 i depth start tail rest small _ _ ih =>
    obtain ⟨here, later⟩ := aligned.plain (by decide)
    obtain ⟨entered, -⟩ := standing
    have some := entered.positive here (by decide)
    obtain rfl : depth = 1 := by omega
    exact (ih later (entered.leave here)).cons
  | case12 i depth start tail rest large _ _ ih =>
    obtain ⟨here, later⟩ := aligned.plain (by decide)
    have count : ((depth - 1 : Nat) : Int) = depth + weight (closeParen, false) := by
      have closing : weight (closeParen, false) = -1 := rfl
      omega
    exact ih later ⟨standing.1.step here count (by omega), standing.2⟩
  | case13 i depth start tail c rest notBackslash notOpen notClose ih =>
    obtain ⟨here, later⟩ := aligned.plain notBackslash
    have idle : weight (c, false) = 0 := by simp [weight, notOpen, notClose]
    exact ih later ⟨standing.1.pass here idle, standing.2⟩

-- A list of outermost regions and a region that is never closed exclude each other, so the answer is the only one.

theorem Unclosed.whole (unclosed : Unclosed line start) : ¬Outermost line line.length spans := fun outermost =>
  absurd (unclosed.blocks outermost (Nat.le_refl _)) (Nat.not_le_of_lt unclosed.below)

theorem Answers.ok_iff (answers : Answers line [] result) (spans : List Span) :
    result = .ok spans ↔ Outermost line line.length spans := by
  cases result with
  | error fault =>
    obtain ⟨start, unclosed, _⟩ := answers
    exact iff_of_false (by rintro ⟨⟩) unclosed.whole
  | ok found =>
    rw [Except.ok.injEq]
    constructor
    · rintro rfl
      exact answers
    · exact fun outermost => Outermost.unique answers outermost

theorem Answers.error_iff (answers : Answers line [] result) (fault : Fault) :
    result = .error fault ↔ ∃ start, Unclosed line start ∧ fault = .parse .unterminatedSubshell (line.drop start) := by
  cases result with
  | error reported =>
    obtain ⟨start, unclosed, rfl⟩ := answers
    constructor
    · rintro ⟨⟩
      exact ⟨start, unclosed, rfl⟩
    · rintro ⟨other, also, rfl⟩
      rw [unclosed.unique also]
  | ok found =>
    refine iff_of_false (by rintro ⟨⟩) ?_
    rintro ⟨start, unclosed, _⟩
    exact unclosed.whole answers

-- What the search finds is the list of the outermost regions, and it fails exactly if one of them is never closed.
theorem subshellSpans_outermost (line : Bytes) :
    (∀ spans, subshellSpans line = .ok spans ↔ Outermost line line.length spans) ∧
      ∀ fault, subshellSpans line = .error fault ↔
        ∃ start, Unclosed line start ∧ fault = .parse .unterminatedSubshell (line.drop start) := by
  have answers : Answers line [] (subshellSpans line) :=
    subshellSpansFrom_answers line 0 (.outside false) line ⟨Nat.zero_le _, rfl⟩ ⟨.empty line, by simp [quotesBefore]⟩
  exact ⟨answers.ok_iff, answers.error_iff⟩

-- A quote inside a region does not count for what is quoted behind it.
example : subshellSpans (ascii "x $(a (b')) $(c) '$(' \\$(") = .ok [⟨2, 10⟩, ⟨12, 15⟩] := by decide +kernel

end LineShell.Line
