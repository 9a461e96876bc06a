import LineShell.Proofs.Substitution

-- Whether a space separates words depends only on what the three searches have open at that place, so a line can be cut
-- in a single pass that knows no offsets.
namespace LineShell.Line
open Bytes

-- Where the search for `$(...)` stands, without offsets.
inductive Region where
  | outside (quoted : Bool)
  | inside (depth : Nat)
  deriving DecidableEq, Repr

namespace Region

-- The step over one byte that is not escaped; `paren` tells whether a parenthesis opens right behind it.
def next : Region → UInt8 → Bool → Region
  | .outside quoted, c, paren =>
    if c = singleQuote then .outside !quoted
    else if c = dollar ∧ quoted = false ∧ paren = true then .inside 0
    else .outside quoted
  | .inside depth, c, _ =>
    if c = openParen then .inside (depth + 1)
    else if c = closeParen then if depth ≤ 1 then .outside false else .inside (depth - 1)
    else .inside depth

def isInside : Region → Bool
  | .outside _ => false
  | .inside _ => true

end Region

-- What is open at one place of a line.
structure Scan where
  single : Bool := false
  double : Bool := false
  region : Region := .outside false
  deriving DecidableEq, Repr

namespace Scan

def next (scan : Scan) (c : UInt8) (paren : Bool) : Scan where
  single := if c = singleQuote then !scan.single else scan.single
  double := if c = doubleQuote then !scan.double else scan.double
  region := scan.region.next c paren

-- A space at this place belongs to a word, and the line may not end here.
def holds (scan : Scan) : Bool := scan.single || scan.double || scan.region.isInside

end Scan

-- The words of the rest of a line, if nothing is left open. `word` is the current one, last byte first.
def cut : Scan → Bytes → Bytes → Option (List Bytes)
  | scan, word, [] => if scan.holds then none else some (finish word)
  | scan, word, c :: rest =>
    if c = backslash then
      match rest with
      | [] => if scan.holds then none else some (finish (c :: word))
      | d :: rest => cut scan (d :: c :: word) rest
    else if c ≠ space ∨ scan.holds = true then
      cut (scan.next c (rest.head? = some openParen)) (c :: word) rest
    else (cut scan [] rest).map (finish word ++ ·)

-- The three searches between two bytes of a line.
structure Searches where
  single : Option (Nat × Bytes) := none
  double : Option (Nat × Bytes) := none
  region : SubshellScan := .outside false

def SubshellScan.standing : SubshellScan → Region
  | .outside quoted => .outside quoted
  | .inside depth _ _ => .inside depth

namespace Searches

def scan (s : Searches) : Scan := ⟨s.single.isSome, s.double.isSome, s.region.standing⟩

-- The regions found from byte `i` on.
def spans (s : Searches) (i : Nat) (text : Bytes) : Except Fault (List Span) := do
  let single ← quoteSpansFrom singleQuote i s.single text
  let double ← quoteSpansFrom doubleQuote i s.double text
  let regions ← subshellSpansFrom i s.region text
  return single ++ double ++ regions

end Searches

def covered (spans : List Span) (j : Nat) : Bool := spans.any (·.contains j)

-- A search that goes on behind byte `i` finds what covers the later places, or fails, as it would have.
inductive Resumes (i : Nat) : Except Fault (List Span) → Except Fault (List Span) → Prop where
  | failed (e f : Fault) : Resumes i (.error e) (.error f)
  | found (same : ∀ j, i < j → covered spans j = covered later j) : Resumes i (.ok spans) (.ok later)

theorem Resumes.refl (i : Nat) (result : Except Fault (List Span)) : Resumes i result result := by
  cases result with
  | error e => exact .failed e e
  | ok spans => exact .found (fun _ _ => rfl)

-- A region that ends at the current byte covers nothing behind it.
theorem Resumes.ended (i start : Nat) (result : Except Fault (List Span)) :
    Resumes i ((⟨start, i⟩ :: ·) <$> result) result := by
  cases result with
  | error e => exact .failed e e
  | ok spans =>
    refine .found ?_
    intro j later
    have outside : Span.contains ⟨start, i⟩ j = false := by
      simp only [Span.contains, Bool.and_eq_false_iff, decide_eq_false_iff_not]
      omega
    simp [covered, outside]

-- What is open was opened before byte `i`.

def Since (i : Nat) (opened : Option (Nat × Bytes)) : Prop := ∀ start tail, opened = some (start, tail) → start < i

def SubshellScan.start? : SubshellScan → Option Nat
  | .outside _ => none
  | .inside _ start _ => some start

def SubshellScan.Since (i : Nat) (scan : SubshellScan) : Prop := ∀ start, scan.start? = some start → start < i

structure Searches.Since (i : Nat) (s : Searches) : Prop where
  single : Line.Since i s.single
  double : Line.Since i s.double
  region : s.region.Since i

theorem Since.mono (since : Since i opened) (later : i ≤ j) : Since j opened :=
  fun start tail here => Nat.lt_of_lt_of_le (since start tail here) later

theorem SubshellScan.Since.mono {scan : SubshellScan} (since : scan.Since i) (later : i ≤ j) : scan.Since j :=
  fun start here => Nat.lt_of_lt_of_le (since start here) later

theorem SubshellScan.since_outside (i : Nat) (quoted : Bool) : SubshellScan.Since i (.outside quoted) := by
  rintro start ⟨⟩

-- One byte that is not escaped.

theorem quoteSpansFrom_next (q : UInt8) (plain : c ≠ backslash) (since : Since i opened) (rest : Bytes) :
    ∃ next, next.isSome = (if c = q then !opened.isSome else opened.isSome) ∧ Since (i + 1) next ∧
      Resumes i (quoteSpansFrom q i opened (c :: rest)) (quoteSpansFrom q (i + 1) next rest) := by
  by_cases isQuote : c = q
  · subst isQuote
    cases opened with
    | none =>
      refine ⟨some (i, c :: rest), by simp, ?_, ?_⟩
      · rintro start tail ⟨⟩
        exact Nat.lt_succ_self i
      · rw [quoteSpansFrom_opening plain]
        exact Resumes.refl i _
    | some quote =>
      obtain ⟨start, tail⟩ := quote
      refine ⟨none, by simp, by rintro start tail ⟨⟩, ?_⟩
      rw [quoteSpansFrom_closing plain]
      exact Resumes.ended i start _
  · refine ⟨opened, by simp [isQuote], since.mono (Nat.le_succ i), ?_⟩
    rw [quoteSpansFrom_other plain isQuote]
    exact Resumes.refl i _

theorem subshellSpansFrom_next {scan : SubshellScan} (plain : c ≠ backslash) (since : scan.Since i) (rest : Bytes) :
    ∃ next : SubshellScan, next.standing = scan.standing.next c (rest.head? = some openParen) ∧ next.Since (i + 1) ∧
      Resumes i (subshellSpansFrom i scan (c :: rest)) (subshellSpansFrom (i + 1) next rest) := by
  have later := since.mono (Nat.le_succ i)
  rw [subshellSpansFrom.eq_def]
  cases scan with
  | outside quoted =>
    simp only [if_neg plain, SubshellScan.standing, Region.next, decide_eq_true_eq]
    split
    · exact ⟨.outside !quoted, rfl, SubshellScan.since_outside _ _, Resumes.refl i _⟩
    · split
      · exact ⟨.inside 0 i (c :: rest), rfl, by rintro start ⟨⟩; exact Nat.lt_succ_self i, Resumes.refl i _⟩
      · exact ⟨.outside quoted, rfl, SubshellScan.since_outside _ _, Resumes.refl i _⟩
  | inside depth start tail =>
    simp only [if_neg plain, SubshellScan.standing, Region.next]
    split
    · exact ⟨.inside (depth + 1) start tail, rfl, later, Resumes.refl i _⟩
    · split
      · split
        · exact ⟨.outside false, rfl, SubshellScan.since_outside _ _, Resumes.ended i start _⟩
        · exact ⟨.inside (depth - 1) start tail, rfl, later, Resumes.refl i _⟩
      · exact ⟨.inside depth start tail, rfl, later, Resumes.refl i _⟩

-- The three searches side by side.

theorem Resumes.join (single : Resumes i a b) (double : Resumes i c d) (region : Resumes i e f) :
    Resumes i (do let x ← a; let y ← c; let z ← e; return x ++ y ++ z) (do let x ← b; let y ← d; let z ← f; return x ++ y ++ z) := by
  cases single with
  | failed one other => exact .failed one other
  | found first =>
    cases double with
    | failed one other => exact .failed one other
    | found second =>
      cases region with
      | failed one other => exact .failed one other
      | found third =>
        refine .found ?_
        intro j later
        have firstSame := first j later
        have secondSame := second j later
        have thirdSame := third j later
        simp only [covered] at firstSame secondSame thirdSame
        simp [covered, List.any_append, firstSame, secondSame, thirdSame]

namespace Searches

theorem spans_next {s : Searches} (plain : c ≠ backslash) (since : s.Since i) (rest : Bytes) :
    ∃ next : Searches, next.scan = s.scan.next c (rest.head? = some openParen) ∧ next.Since (i + 1) ∧
      Resumes i (s.spans i (c :: rest)) (next.spans (i + 1) rest) := by
  obtain ⟨single, singleOpen, singleSince, singleResumes⟩ := quoteSpansFrom_next singleQuote plain since.single rest
  obtain ⟨double, doubleOpen, doubleSince, doubleResumes⟩ := quoteSpansFrom_next doubleQuote plain since.double rest
  obtain ⟨region, standing, regionSince, regionResumes⟩ := subshellSpansFrom_next plain since.region rest
  refine ⟨⟨single, double, region⟩, ?_, ⟨singleSince, doubleSince, regionSince⟩, ?_⟩
  · simp only [scan, Scan.next, singleOpen, doubleOpen, standing]
  · exact singleResumes.join doubleResumes regionResumes

theorem spans_escaped (s : Searches) (i : Nat) (d : UInt8) (rest : Bytes) :
    s.spans i (backslash :: d :: rest) = s.spans (i + 2) rest := by
  have region : subshellSpansFrom i s.region (backslash :: d :: rest) = subshellSpansFrom (i + 2) s.region rest := by
    cases s.region <;> rfl
  simp only [spans, quoteSpansFrom_escaped, region]

-- The searches fail at the end if and only if one of them has something open.
theorem spans_nil (s : Searches) (i : Nat) :
    (s.scan.holds = true ∧ ∃ e, s.spans i [] = .error e) ∨ (s.scan.holds = false ∧ s.spans i [] = .ok []) := by
  obtain ⟨single, double, region⟩ := s
  cases single with
  | some quote => exact .inl ⟨rfl, _, rfl⟩
  | none =>
    cases double with
    | some quote => exact .inl ⟨rfl, _, rfl⟩
    | none =>
      cases region with
      | inside depth start tail => exact .inl ⟨rfl, _, rfl⟩
      | outside quoted => exact .inr ⟨rfl, rfl⟩

theorem spans_backslash (s : Searches) (i : Nat) : s.spans i [backslash] = s.spans (i + 1) [] := by
  have region : subshellSpansFrom i s.region [backslash] = subshellSpansFrom (i + 1) s.region [] := by
    cases s.region <;> rfl
  have quotes : ∀ q opened, quoteSpansFrom q i opened [backslash] = quoteSpansFrom q (i + 1) opened [] := by
    intro q opened
    cases opened <;> rfl
  simp only [spans, quotes, region]

end Searches

-- Regions that are not open yet begin at the current place or behind it.

theorem quoteSpansFrom_first (q : UInt8) (i : Nat) (opened : Option (Nat × Bytes)) (text : Bytes)
    (paired : quoteSpansFrom q i opened text = .ok spans) :
    ∀ span ∈ spans, i ≤ span.first ∨ ∃ tail, opened = some (span.first, tail) := by
  fun_induction quoteSpansFrom q i opened text generalizing spans with
  | case1 => cases paired; simp
  | case2 => cases paired
  | case5 i rest _ ih =>
    intro span member
    rcases ih paired span member with later | ⟨tail, here⟩
    · exact .inl (by omega)
    · cases here
      exact .inl (Nat.le_refl _)
  | case6 i rest first tail _ ih =>
    obtain ⟨later, pairedLater, rfl⟩ := map_ok paired
    intro span member
    rcases List.mem_cons.mp member with rfl | behind
    · exact .inr ⟨tail, rfl⟩
    · rcases ih pairedLater span behind with after | ⟨_, wrong⟩
      · exact .inl (by omega)
      · cases wrong
  | _ =>
    rename_i ih
    intro span member
    rcases ih paired span member with later | here
    · exact .inl (by omega)
    · exact .inr here

theorem subshellSpansFrom_first (i : Nat) (scan : SubshellScan) (text : Bytes)
    (found : subshellSpansFrom i scan text = .ok spans) :
    ∀ span ∈ spans, i ≤ span.first ∨ scan.start? = some span.first := by
  fun_induction subshellSpansFrom i scan text generalizing spans with
  | case1 => cases found; simp
  | case2 => cases found
  | case6 i quoted c rest _ _ _ ih =>
    intro span member
    rcases ih found span member with later | here
    · exact .inl (by omega)
    · cases here
      exact .inl (Nat.le_refl _)
  | case11 i depth start tail rest _ _ _ ih =>
    obtain ⟨later, foundLater, rfl⟩ := map_ok found
    intro span member
    rcases List.mem_cons.mp member with rfl | behind
    · exact .inr rfl
    · rcases ih foundLater span behind with after | wrong
      · exact .inl (by omega)
      · cases wrong
  | _ =>
    rename_i ih
    intro span member
    rcases ih found span member with later | here
    · exact .inl (by omega)
    · exact .inr here

theorem subshellSpansFrom_opened (i : Nat) (scan : SubshellScan) (text : Bytes) (opened : scan.start? = some start)
    (found : subshellSpansFrom i scan text = .ok spans) : ∃ last, ⟨start, last⟩ ∈ spans ∧ i ≤ last := by
  fun_induction subshellSpansFrom i scan text generalizing spans with
  | case1 => cases opened
  | case2 => cases found
  | case6 => cases opened
  | case11 i depth start tail rest _ _ _ ih =>
    cases opened
    obtain ⟨later, _, rfl⟩ := map_ok found
    exact ⟨i, by simp, Nat.le_refl i⟩
  | _ =>
    rename_i ih
    obtain ⟨last, member, beyond⟩ := ih opened found
    exact ⟨last, member, by omega⟩

-- A place between the bytes of a search is covered if and only if the search has something open there.

theorem covered_of_mem (member : ⟨start, last⟩ ∈ spans) (begun : start < i) (beyond : i < last) : covered spans i = true := by
  refine List.any_eq_true.mpr ⟨_, member, ?_⟩
  simp only [Span.contains, Bool.and_eq_true, decide_eq_true_eq]
  omega

theorem uncovered_of_later (later : ∀ span ∈ spans, i < span.first) : covered spans i = false := by
  refine List.any_eq_false.mpr ?_
  intro span member inside
  have beyond := later span member
  simp only [Span.contains, Bool.and_eq_true, decide_eq_true_eq] at inside
  omega

theorem quoteSpansFrom_covered (paired : quoteSpansFrom q (i + 1) opened rest = .ok spans) (since : Since i opened) :
    covered spans i = opened.isSome := by
  cases opened with
  | some quote =>
    obtain ⟨start, tail⟩ := quote
    obtain ⟨last, member, beyond⟩ := quoteSpansFrom_opened q (i + 1) start tail rest paired
    exact covered_of_mem member (since start tail rfl) beyond
  | none =>
    apply uncovered_of_later
    intro span member
    rcases quoteSpansFrom_first q (i + 1) none rest paired span member with later | ⟨_, wrong⟩
    · exact later
    · cases wrong

theorem subshellSpansFrom_covered {scan : SubshellScan} (found : subshellSpansFrom (i + 1) scan rest = .ok spans)
    (since : scan.Since i) : covered spans i = scan.standing.isInside := by
  cases scan with
  | inside depth start tail =>
    obtain ⟨last, member, beyond⟩ := subshellSpansFrom_opened (i + 1) (.inside depth start tail) rest rfl found
    exact covered_of_mem member (since start rfl) beyond
  | outside quoted =>
    apply uncovered_of_later
    intro span member
    rcases subshellSpansFrom_first (i + 1) (.outside quoted) rest found span member with later | wrong
    · exact later
    · cases wrong

namespace Searches

-- No search looks at a space.
theorem spans_space (s : Searches) (i : Nat) (rest : Bytes) : s.spans i (space :: rest) = s.spans (i + 1) rest := by
  have quotes : ∀ q opened, q ≠ space → quoteSpansFrom q i opened (space :: rest) = quoteSpansFrom q (i + 1) opened rest :=
    fun q opened other => quoteSpansFrom_other (by decide) other.symm i opened rest
  have region : subshellSpansFrom i s.region (space :: rest) = subshellSpansFrom (i + 1) s.region rest := by
    rw [subshellSpansFrom.eq_def]
    cases s.region <;> simp [space, backslash, singleQuote, dollar, openParen, closeParen]
  simp only [spans, quotes singleQuote _ (by decide), quotes doubleQuote _ (by decide), region]

theorem spans_covered {s : Searches} (found : s.spans (i + 1) rest = .ok regions) (since : s.Since i) :
    covered regions i = s.scan.holds := by
  unfold Searches.spans at found
  rcases single : quoteSpansFrom singleQuote (i + 1) s.single rest with e | first
  · rw [single] at found
    cases found
  · rcases double : quoteSpansFrom doubleQuote (i + 1) s.double rest with e | second
    · rw [single, double] at found
      cases found
    · rcases subshells : subshellSpansFrom (i + 1) s.region rest with e | third
      · rw [single, double, subshells] at found
        cases found
      · rw [single, double, subshells] at found
        cases found
        have firstCovered := quoteSpansFrom_covered single since.single
        have secondCovered := quoteSpansFrom_covered double since.double
        have thirdCovered := subshellSpansFrom_covered subshells since.region
        simp only [covered] at firstCovered secondCovered thirdCovered
        simp [covered, scan, Scan.holds, List.any_append, firstCovered, secondCovered, thirdCovered, Bool.or_assoc]

end Searches

theorem cut_nil (word : Bytes) (free : scan.holds = false) : cut scan word [] = some (finish word) :=
  if_neg (by simp [free])

theorem cut_backslash (scan : Scan) (word : Bytes) : cut scan word [backslash] = cut scan (backslash :: word) [] := rfl

theorem cut_escaped (scan : Scan) (word : Bytes) (d : UInt8) (rest : Bytes) :
    cut scan word (backslash :: d :: rest) = cut scan (d :: backslash :: word) rest := rfl

theorem cut_plain (plain : c ≠ backslash) (scan : Scan) (word rest : Bytes) :
    cut scan word (c :: rest) =
      if c ≠ space ∨ scan.holds = true then cut (scan.next c (rest.head? = some openParen)) (c :: word) rest
      else (cut scan [] rest).map (finish word ++ ·) := by
  rw [cut.eq_def]
  simp only [if_neg plain]

theorem cut_kept (plain : c ≠ backslash) (word rest : Bytes) (kept : c ≠ space ∨ scan.holds = true) :
    cut scan word (c :: rest) = cut (scan.next c (rest.head? = some openParen)) (c :: word) rest := by
  rw [cut_plain plain, if_pos kept]

theorem cut_separator (word rest : Bytes) (free : scan.holds = false) :
    cut scan word (space :: rest) = (cut scan [] rest).map (finish word ++ ·) := by
  rw [cut_plain (by decide), if_neg (by simp [free])]

theorem Searches.Since.mono {s : Searches} (since : s.Since i) (later : i ≤ j) : s.Since j :=
  ⟨since.single.mono later, since.double.mono later, since.region.mono later⟩

-- The cut follows the searches: it fails if they do.
theorem cut_fails (s : Searches) (i : Nat) (word text : Bytes) (since : s.Since i) (failed : s.spans i text = .error e) :
    cut s.scan word text = none := by
  generalize here : s.scan = scan
  fun_induction cut scan word text generalizing s i e with
  | case1 scan word holds => rfl
  | case2 scan word free =>
    subst here
    rcases s.spans_nil i with ⟨holds, _⟩ | ⟨_, done⟩
    · exact absurd holds free
    · rw [done] at failed
      cases failed
  | case3 scan word holds => rfl
  | case4 scan word free =>
    subst here
    rw [s.spans_backslash] at failed
    rcases s.spans_nil (i + 1) with ⟨holds, _⟩ | ⟨_, done⟩
    · exact absurd holds free
    · rw [done] at failed
      cases failed
  | case5 scan word d rest ih =>
    rw [s.spans_escaped] at failed
    exact ih s (i + 2) (since.mono (by omega)) failed here
  | case6 scan word c rest plain kept ih =>
    subst here
    obtain ⟨next, standing, later, resumes⟩ := s.spans_next plain since rest
    rw [failed] at resumes
    generalize after : next.spans (i + 1) rest = result at resumes
    cases resumes
    exact ih next (i + 1) later after standing
  | case7 scan word c rest plain separates ih =>
    obtain ⟨rfl, free⟩ : c = space ∧ scan.holds = false := by simpa using separates
    rw [s.spans_space] at failed
    rw [ih s (i + 1) (since.mono (by omega)) failed here]
    rfl

-- Otherwise it gives the words that the regions leave. The guard is only asked about places still to come.
theorem cut_words (guarded : Nat → Bool) (s : Searches) (i : Nat) (word text : Bytes) (since : s.Since i)
    (found : s.spans i text = .ok regions) (guards : ∀ j, i ≤ j → guarded j = covered regions j) :
    cut s.scan word text = some (wordsFrom guarded i word text) := by
  fun_induction wordsFrom guarded i word text generalizing s regions with
  | case1 i word =>
    rcases s.spans_nil i with ⟨_, e, failed⟩ | ⟨free, _⟩
    · rw [failed] at found
      cases found
    · exact cut_nil word free
  | case2 i word =>
    rw [s.spans_backslash] at found
    rcases s.spans_nil (i + 1) with ⟨_, e, failed⟩ | ⟨free, _⟩
    · rw [failed] at found
      cases found
    · exact cut_nil (backslash :: word) free
  | case3 i word d rest ih =>
    rw [s.spans_escaped] at found
    rw [cut_escaped]
    exact ih s (since.mono (by omega)) found (fun j after => guards j (by omega))
  | case4 i word c rest plain kept ih =>
    have holds : c ≠ space ∨ s.scan.holds = true := by
      by_cases blank : c = space
      · subst blank
        rcases kept with other | guardedHere
        · exact absurd rfl other
        · rw [s.spans_space] at found
          rw [← Searches.spans_covered found since, ← guards i (Nat.le_refl i)]
          exact .inr guardedHere
      · exact .inl blank
    obtain ⟨next, standing, later, resumes⟩ := s.spans_next plain since rest
    rw [found] at resumes
    generalize after : next.spans (i + 1) rest = result at resumes
    cases resumes with
    | found same =>
      rw [cut_kept plain word rest holds, ← standing]
      refine ih next later after ?_
      intro j behind
      rw [guards j (by omega), same j (by omega)]
  | case5 i word c rest plain separates ih =>
    obtain ⟨rfl, unguarded⟩ : c = space ∧ guarded i = false := by simpa using separates
    rw [s.spans_space] at found
    have free : s.scan.holds = false := by
      rw [← Searches.spans_covered found since, ← guards i (Nat.le_refl i), unguarded]
    rw [cut_separator word rest free, ih s (since.mono (by omega)) found (fun j after => guards j (by omega))]
    rfl

-- Splitting a line is cutting it in one pass.
theorem split_eq_cut (line : Bytes) : (split line).toOption = cut {} [] line := by
  have since : Searches.Since 0 {} := ⟨by rintro start tail ⟨⟩, by rintro start tail ⟨⟩, SubshellScan.since_outside 0 false⟩
  have searched : protectedSpans line = Searches.spans {} 0 line := rfl
  unfold split
  rw [searched]
  rcases found : Searches.spans {} 0 line with e | regions
  · exact (cut_fails {} 0 [] line since found).symm
  · exact (cut_words (fun i => regions.any (·.contains i)) {} 0 [] line since found (fun _ _ => rfl)).symm

theorem split_cut {line : Bytes} {tokens : List Bytes} : split line = .ok tokens ↔ cut {} [] line = some tokens := by
  rw [← split_eq_cut]
  rcases split line with e | words
  · exact ⟨by rintro ⟨⟩, by rintro ⟨⟩⟩
  · exact ⟨by rintro ⟨⟩; rfl, by rintro ⟨⟩; rfl⟩

theorem join_finish (word : Bytes) : join [space] (finish word) = word.reverse := by
  cases word with
  | nil => rfl
  | cons c rest => simp [finish, join]

-- What the words of a line are joined to, cut from the same place. The part behind the current word opens a
-- parenthesis right there exactly if the line does, so a dollar sign at the end of the word means the same.
theorem cut_join (scan : Scan) (word text : Bytes) (tokens : List Bytes) (cuts : cut scan word text = some tokens) :
    ∃ tail, join [space] tokens = word.reverse ++ tail ∧ cut scan word tail = some tokens ∧
      (word ≠ [] → (tail.head? = some openParen ↔ text.head? = some openParen)) := by
  fun_induction cut scan word text generalizing tokens with
  | case1 => cases cuts
  | case2 scan word free =>
    cases cuts
    exact ⟨[], by simp [join_finish], cut_nil word (by simpa using free), fun _ => Iff.rfl⟩
  | case3 => cases cuts
  | case4 scan word free =>
    cases cuts
    refine ⟨[backslash], by simp [join_finish], ?_, fun _ => Iff.rfl⟩
    rw [cut_backslash]
    exact cut_nil _ (by simpa using free)
  | case5 scan word d rest ih =>
    obtain ⟨tail, joined, same, _⟩ := ih tokens cuts
    refine ⟨backslash :: d :: tail, by simpa using joined, ?_, fun _ => by simp⟩
    rwa [cut_escaped]
  | case6 scan word c rest plain kept ih =>
    obtain ⟨tail, joined, same, ahead⟩ := ih tokens cuts
    refine ⟨c :: tail, by simpa using joined, ?_, fun _ => by simp⟩
    rw [cut_kept plain word tail kept, decide_eq_decide.mpr (ahead (List.cons_ne_nil c word))]
    exact same
  | case7 scan word c rest plain separates ih =>
    obtain ⟨rfl, free⟩ : c = space ∧ scan.holds = false := by simpa using separates
    obtain ⟨later, cutLater, rfl⟩ := Option.map_eq_some_iff.mp cuts
    obtain ⟨tail, joined, same, _⟩ := ih later cutLater
    cases word with
    | nil => exact ⟨tail, joined, same, fun wrong => absurd rfl wrong⟩
    | cons b front =>
      cases later with
      | nil =>
        refine ⟨[], by simp [finish, join], cut_nil _ free, fun _ => ?_⟩
        simp [space, openParen]
      | cons first others =>
        refine ⟨space :: tail, ?_, ?_, fun _ => by simp⟩
        · have whole : join [space] (first :: others) = tail := joined
          simp [finish, join, whole]
        · rw [cut_separator _ _ free, same]
          rfl

-- Cutting the words of a line, joined by single spaces, gives the same words.
theorem split_join_words (line : Bytes) (tokens : List Bytes) (splits : split line = .ok tokens) :
    split (join [space] tokens) = .ok tokens := by
  obtain ⟨tail, joined, same, _⟩ := cut_join {} [] line tokens (split_cut.mp splits)
  have whole : join [space] tokens = tail := joined
  rw [whole]
  exact split_cut.mpr same

-- Quotes that cross the border of a region, a dollar sign in front of spaces, and a backslash at the end.
theorem split_join_words_crossing :
    split (ascii " a  $  (b)   $(c '  d) e  'f\\ \"  g\"   h\\") =
        .ok [ascii "a", ascii "$", ascii "(b)", ascii "$(c '  d) e  'f\\ \"  g\"", ascii "h\\"] ∧
      split (ascii "a $ (b) $(c '  d) e  'f\\ \"  g\" h\\") =
        .ok [ascii "a", ascii "$", ascii "(b)", ascii "$(c '  d) e  'f\\ \"  g\"", ascii "h\\"] := by
  have splits : split (ascii " a  $  (b)   $(c '  d) e  'f\\ \"  g\"   h\\") =
      .ok [ascii "a", ascii "$", ascii "(b)", ascii "$(c '  d) e  'f\\ \"  g\"", ascii "h\\"] :=
    split_cut.mpr (by decide +kernel)
  have joined : join [space] [ascii "a", ascii "$", ascii "(b)", ascii "$(c '  d) e  'f\\ \"  g\"", ascii "h\\"] =
      ascii "a $ (b) $(c '  d) e  'f\\ \"  g\" h\\" := by decide +kernel
  have again := split_join_words _ _ splits
  rw [joined] at again
  exact ⟨splits, again⟩

end LineShell.Line
