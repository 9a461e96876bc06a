import LineShell.Proofs.Quoting

-- A word starts outside single quotes, so reading it on its own is reading it in its place.
namespace LineShell.Line
open Bytes

-- What a reading from the left knows about the place it has come to.
inductive Reading where
  | plain
  -- Behind a dollar sign outside quotes.
  | dollar
  | quoted
  -- Behind a backslash, inside quotes or not.
  | escaped (inside : Bool)
  -- Behind a `$(` outside quotes; nothing that follows takes it back.
  | found
  deriving DecidableEq, Repr

namespace Reading

-- What a byte outside quotes leads to.
def outside (c : UInt8) : Reading :=
  if c = backslash then .escaped false
  else if c = singleQuote then .quoted
  else if c = Bytes.dollar then .dollar
  else .plain

def next : Reading → UInt8 → Reading
  | .found, _ => .found
  | .escaped inside, _ => if inside then .quoted else .plain
  | .quoted, c => if c = backslash then .escaped true else if c = singleQuote then .plain else .quoted
  | .dollar, c => if c = openParen then .found else outside c
  | .plain, c => outside c

def run (r : Reading) (text : Bytes) : Reading := text.foldl next r

@[simp] theorem run_nil (r : Reading) : r.run [] = r := rfl

@[simp] theorem run_cons (r : Reading) (c : UInt8) (rest : Bytes) : r.run (c :: rest) = (r.next c).run rest := rfl

theorem run_append (r : Reading) (front back : Bytes) : r.run (front ++ back) = (r.run front).run back :=
  List.foldl_append

@[simp] theorem run_found (text : Bytes) : found.run text = .found := by
  induction text with
  | nil => rfl
  | cons c rest ih => exact ih

-- Only a parenthesis tells the two apart.
theorem run_dollar (text : Bytes) (other : text.head? ≠ some openParen) :
    dollar.run text = .found ↔ plain.run text = .found := by
  cases text with
  | nil => simp
  | cons c rest =>
    have different : c ≠ openParen := fun same => other (by simp [same])
    simp [next, different]

end Reading

-- What the search for regions knows, taken as a reading.
def SubshellScan.reading : SubshellScan → Reading
  | .outside quoted => if quoted then .quoted else .plain
  | .inside .. => .found

def reading (text : Bytes) : Reading := Reading.plain.run text

-- The line asks for command substitution somewhere.
def Substitutes (text : Bytes) : Prop := reading text = .found

instance (text : Bytes) : Decidable (Substitutes text) := inferInstanceAs (Decidable (_ = _))

theorem map_ok {result : Except Fault α} (done : f <$> result = .ok b) : ∃ a, result = .ok a ∧ f a = b := by
  cases result with
  | ok a => exact ⟨a, rfl, Except.ok.inj done⟩
  | error e => cases done

-- A region that has begun is reported or missed as unclosed, so no regions means nothing was found.
theorem subshellSpansFrom_nil (i : Nat) (scan : SubshellScan) (text : Bytes) :
    subshellSpansFrom i scan text = .ok [] ↔ scan.reading.run text ≠ .found := by
  fun_induction subshellSpansFrom i scan text with
  | case1 i quoted => cases quoted <;> simp [SubshellScan.reading]
  | case2 => simp [SubshellScan.reading]
  | case3 i quoted ih =>
    rw [ih]
    cases quoted <;> decide
  | case4 i quoted d rest ih => cases quoted <;> exact ih
  | case5 i quoted rest _ ih => cases quoted <;> exact ih
  | case6 i quoted c rest _ _ begins ih =>
    obtain ⟨rfl, rfl, paren⟩ := begins
    obtain ⟨after, rfl⟩ : ∃ after, rest = openParen :: after := by
      cases rest with
      | nil => cases paren
      | cons d after => exact ⟨after, by simpa using paren⟩
    exact ih
  | case7 i quoted c rest notBackslash notQuote harmless ih =>
    rw [ih]
    cases quoted with
    | true => simp [SubshellScan.reading, Reading.next, notBackslash, notQuote]
    | false =>
      by_cases isDollar : c = dollar
      · subst isDollar
        have other : rest.head? ≠ some openParen := fun paren => harmless ⟨rfl, rfl, paren⟩
        exact not_congr (Reading.run_dollar rest other).symm
      · simp [SubshellScan.reading, Reading.next, Reading.outside, notBackslash, notQuote, isDollar]
  | case11 i depth start tail rest =>
    have decided : SubshellScan.reading (.inside depth start tail) = .found := rfl
    rw [decided, Reading.run_found]
    refine iff_of_false ?_ (not_not_intro rfl)
    rcases subshellSpansFrom (i + 1) (.outside false) rest with e | spans <;> rintro ⟨⟩
  | case8 => simp [subshellSpansFrom, SubshellScan.reading, Reading.next]
  | _ => rename_i ih; exact ih

theorem subshellSpans_nil (text : Bytes) : subshellSpans text = .ok [] ↔ ¬Substitutes text :=
  subshellSpansFrom_nil 0 (.outside false) text

-- A quote that is open ends in a region that reaches beyond the current place.
theorem quoteSpansFrom_opened (q : UInt8) (i start : Nat) (tail text : Bytes)
    (paired : quoteSpansFrom q i (some (start, tail)) text = .ok spans) : ∃ last, ⟨start, last⟩ ∈ spans ∧ i ≤ last := by
  generalize here : some (start, tail) = opened at paired
  fun_induction quoteSpansFrom q i opened text with
  | case1 => cases here
  | case2 => cases paired
  | case5 => cases here
  | case6 i rest first _ _ ih =>
    cases here
    obtain ⟨later, _, rfl⟩ := map_ok paired
    exact ⟨i, by simp, Nat.le_refl i⟩
  | _ =>
    rename_i ih
    obtain ⟨last, member, beyond⟩ := ih here paired
    exact ⟨last, member, by omega⟩

-- Inside quotes exactly where a quote is open, unless the reading is over.
def Reading.Tracks : Reading → Option (Nat × Bytes) → Prop
  | .found, _ => True
  | .quoted, opened => opened.isSome = true
  | .escaped _, _ => False
  | _, opened => opened = none

theorem reading_append (front back : Bytes) : reading (front ++ back) = (reading front).run back :=
  Reading.run_append _ front back

theorem Reading.Tracks.escape {r : Reading} (tracks : r.Tracks opened) (d : UInt8) :
    ((r.next backslash).next d).Tracks opened := by
  cases r <;> first | exact tracks | cases tracks

theorem Reading.Tracks.open {r : Reading} (tracks : r.Tracks none) (start : Nat) (tail : Bytes) :
    (r.next singleQuote).Tracks (some (start, tail)) := by
  cases r <;> first | rfl | exact trivial | cases tracks

theorem Reading.Tracks.close {r : Reading} (tracks : r.Tracks (some opened)) : (r.next singleQuote).Tracks none := by
  cases r <;> first | rfl | exact trivial | cases tracks

theorem Reading.outside_tracks (plain : c ≠ backslash) (unquoted : c ≠ singleQuote) (closed : opened = none) :
    (outside c).Tracks opened := by
  unfold outside
  rw [if_neg plain, if_neg unquoted]
  split <;> exact closed

theorem Reading.Tracks.other {r : Reading} (tracks : r.Tracks opened) (plain : c ≠ backslash) (unquoted : c ≠ singleQuote) :
    (r.next c).Tracks opened := by
  cases r with
  | found => exact trivial
  | escaped inside => cases tracks
  | quoted => simpa [next, plain, unquoted] using tracks
  | plain => exact outside_tracks plain unquoted tracks
  | dollar =>
    simp only [next]
    split
    · exact trivial
    · exact outside_tracks plain unquoted tracks

theorem substitutes_finish (word : Bytes) : (∃ token ∈ finish word, Substitutes token) ↔ Substitutes word.reverse := by
  cases word with
  | nil => simp [finish, Substitutes, reading]
  | cons c rest => simp [finish]

-- A place inside an open quote is covered by the region the quote ends in.
theorem closed_of_unguarded {guarded : Nat → Bool} (unguarded : guarded i = false)
    (paired : quoteSpansFrom singleQuote (i + 1) opened text = .ok spans)
    (covers : ∀ span ∈ spans, ∀ j, span.contains j = true → guarded j = true)
    (begun : ∀ start tail, opened = some (start, tail) → start ≤ i) : opened = none := by
  cases opened with
  | none => rfl
  | some quote =>
    obtain ⟨start, tail⟩ := quote
    obtain ⟨last, member, beyond⟩ := quoteSpansFrom_opened singleQuote (i + 1) start tail text paired
    have inside : Span.contains ⟨start, last⟩ i = true := by
      have early := begun start tail rfl
      simp only [Span.contains, Bool.and_eq_true, decide_eq_true_eq]
      omega
    rw [covers _ member i inside] at unguarded
    cases unguarded

-- Behind a space outside quotes a fresh reading goes on like the old one.
theorem cut_substitutes (word rest : Bytes) (tracks : (reading word).Tracks none) :
    Substitutes word ∨ Substitutes rest ↔ Substitutes (word ++ space :: rest) := by
  have going (between : (reading word).next space = .plain) (unfinished : reading word ≠ .found) :
      Substitutes word ∨ Substitutes rest ↔ Substitutes (word ++ space :: rest) := by
    have same : reading (word ++ space :: rest) = reading rest := by
      rw [reading_append, Reading.run_cons, between]
      rfl
    simp [Substitutes, same, unfinished]
  cases state : reading word with
  | found =>
    have whole : Substitutes (word ++ space :: rest) := by
      rw [Substitutes, reading_append, state, Reading.run_found]
    exact iff_of_true (.inl state) whole
  | escaped inside =>
    rw [state] at tracks
    cases tracks
  | quoted =>
    rw [state] at tracks
    cases tracks
  | plain => exact going (by rw [state]; rfl) (by simp [state])
  | dollar => exact going (by rw [state]; rfl) (by simp [state])

-- Cutting the rest of a line into words, with the word so far and what is known about quotes: by induction
-- on the cutting, along which the reading of the word tracks whether a quote is open.
theorem wordsFrom_substitutes (guarded : Nat → Bool) (i : Nat) (word text : Bytes) (opened : Option (Nat × Bytes))
    (spans : List Span) (paired : quoteSpansFrom singleQuote i opened text = .ok spans)
    (covers : ∀ span ∈ spans, ∀ j, span.contains j = true → guarded j = true)
    (tracks : (reading word.reverse).Tracks opened) (begun : ∀ start tail, opened = some (start, tail) → start ≤ i) :
    (∃ token ∈ wordsFrom guarded i word text, Substitutes token) ↔ Substitutes (word.reverse ++ text) := by
  have unslashed : singleQuote ≠ backslash := by decide
  fun_induction wordsFrom guarded i word text generalizing opened spans with
  | case1 i word => simpa using substitutes_finish word
  | case2 i word => simpa using substitutes_finish (backslash :: word)
  | case3 i word d rest ih =>
    rw [quoteSpansFrom_escaped] at paired
    have tracked : (reading (d :: backslash :: word).reverse).Tracks opened := by
      simpa [reading_append] using tracks.escape d
    simpa using ih opened spans paired covers tracked (fun start tail here => by have := begun start tail here; omega)
  | case4 i word c rest plain kept ih =>
    have here : (reading (c :: word).reverse) = (reading word.reverse).next c := by simp [reading_append]
    by_cases isQuote : c = singleQuote
    · subst isQuote
      cases opened with
      | none =>
        rw [quoteSpansFrom_opening unslashed] at paired
        have tracked := tracks.open i (singleQuote :: rest)
        rw [← here] at tracked
        simpa using ih _ spans paired covers tracked (by rintro start tail ⟨⟩; omega)
      | some quote =>
        obtain ⟨start, tail⟩ := quote
        rw [quoteSpansFrom_closing unslashed] at paired
        obtain ⟨later, pairedLater, rfl⟩ := map_ok paired
        have tracked := tracks.close
        rw [← here] at tracked
        simpa using ih none later pairedLater (fun span member => covers span (by simp [member])) tracked (by simp)
    · rw [quoteSpansFrom_other plain isQuote] at paired
      have tracked := tracks.other plain isQuote
      rw [← here] at tracked
      simpa using ih opened spans paired covers tracked (fun start tail here => by have := begun start tail here; omega)
  | case5 i word c rest plain separates ih =>
    obtain ⟨rfl, unguarded⟩ : c = space ∧ guarded i = false := by simpa using separates
    rw [quoteSpansFrom_other plain (by decide)] at paired
    cases closed_of_unguarded unguarded paired covers begun
    simp only [List.mem_append, or_and_right, exists_or, substitutes_finish]
    have later := ih none spans paired covers rfl (by simp)
    exact (or_congr Iff.rfl later).trans (cut_substitutes word.reverse rest tracks)

-- The words of a line ask for command substitution if and only if the line does.
theorem split_substitutes (splits : split line = .ok tokens) :
    (∃ token ∈ tokens, Substitutes token) ↔ Substitutes line := by
  unfold split protectedSpans at splits
  rcases single : quoteSpans line singleQuote with e | spans
  · rw [single] at splits
    cases splits
  · rcases double : quoteSpans line doubleQuote with e | more
    · rw [single, double] at splits
      cases splits
    · rcases regions : subshellSpans line with e | others
      · rw [single, double, regions] at splits
        cases splits
      · rw [single, double, regions] at splits
        cases splits
        refine wordsFrom_substitutes _ 0 [] line none spans single ?_ rfl (by simp)
        intro span member j inside
        simp only [List.any_append, Bool.or_eq_true, List.any_eq_true]
        exact .inl (.inl ⟨span, member, inside⟩)

end LineShell.Line

namespace LineShell.Pipeline
open Line

-- The words between the pipe signs are all there, in their order.
theorem partition_flatten (tokens : List Bytes) : (partition tokens).flatten = tokens.filter (· ≠ pipeToken) := by
  induction tokens with
  | nil => rfl
  | cons token rest ih =>
    unfold partition
    split
    · rename_i isPipe
      simpa [isPipe] using ih
    · rename_i word
      split
      · rename_i none
        rw [none] at ih
        simpa [word] using ih
      · rename_i stage stages some
        rw [some] at ih
        simpa [word] using ih

theorem partition_length (tokens : List Bytes) : (partition tokens).length = tokens.count pipeToken + 1 := by
  induction tokens with
  | nil => rfl
  | cons token rest ih =>
    unfold partition
    split
    · rename_i isPipe
      simp [isPipe, ih]
    · rename_i word
      split
      · rename_i none
        rw [none] at ih
        cases ih
      · rename_i stage stages some
        rw [some] at ih
        simpa [word] using ih

theorem partition_substitutes (tokens : List Bytes) :
    (∃ args ∈ partition tokens, ∃ arg ∈ args, Substitutes arg) ↔ ∃ token ∈ tokens, Substitutes token := by
  have harmless : ¬Substitutes pipeToken := by decide
  constructor
  · rintro ⟨args, member, arg, present, found⟩
    have inLine : arg ∈ (partition tokens).flatten := List.mem_flatten.mpr ⟨args, member, present⟩
    rw [partition_flatten] at inLine
    exact ⟨arg, (List.mem_filter.mp inLine).1, found⟩
  · rintro ⟨token, member, found⟩
    have word : token ≠ pipeToken := by
      rintro rfl
      exact harmless found
    have inLine : token ∈ (partition tokens).flatten := by
      rw [partition_flatten]
      exact List.mem_filter.mpr ⟨member, by simpa using word⟩
    obtain ⟨args, memberArgs, present⟩ := List.mem_flatten.mp inLine
    exact ⟨args, memberArgs, token, present, found⟩

theorem detectArgs_nothing (i : Nat) (args : List Bytes) :
    detectArgs i args = (none, []) ↔ ∀ arg ∈ args, ¬Substitutes arg := by
  constructor
  · intro nothing
    induction args generalizing i with
    | nil => simp
    | cons arg rest ih =>
      unfold detectArgs at nothing
      split at nothing
      · cases nothing
      · rename_i spans found
        cases spans with
        | cons span others => simp at nothing
        | nil =>
          intro other member
          rcases List.mem_cons.mp member with rfl | later
          · exact (subshellSpans_nil other).mp found
          · exact ih (i + 1) nothing other later
  · intro clean
    exact detectArgs_of_none args i (fun arg member => (subshellSpans_nil arg).mpr (clean arg member))

-- A pipeline passes both checks if and only if none of its arguments asks for command substitution.
theorem detectStages_passes (stages : List Stage) :
    ((detectStages stages).1 = none ∧ rejectStages (detectStages stages).2 = none) ↔
      ∀ stage ∈ stages, ∀ arg ∈ stage.args, ¬Substitutes arg := by
  induction stages with
  | nil => simp [detectStages, rejectStages]
  | cons stage rest ih =>
    have first := detectArgs_nothing 0 stage.args
    rw [List.forall_mem_cons, ← ih, ← first]
    rcases detected : detectArgs 0 stage.args with ⟨failure, found⟩
    cases failure with
    | some fault => simp [detectStages, detected]
    | none =>
      cases found with
      | nil => simp [detectStages, detected, rejectStages]
      | cons region others => simp [detectStages, detected, rejectStages]

end LineShell.Pipeline

namespace LineShell.Redirection
open Line

theorem targetFault?_none (target : Bytes) : targetFault? target = none ↔ ¬Substitutes target := by
  rw [← subshellSpans_nil]
  unfold targetFault?
  rcases subshellSpans target with fault | spans
  · simp
  · cases spans with
    | nil => simp
    | cons span others => simp

-- The words of a stage once `> FILE 2>&1` is written as `&> FILE`.
theorem mem_combine (args : List Bytes) (member : word ∈ combine args) : word ∈ args ∨ word = bothToken := by
  have reversed : ∀ words : List Bytes, word ∈ combineReversed words → word ∈ words ∨ word = bothToken := by
    intro words present
    unfold combineReversed at present
    split at present
    · split at present
      · simp only [List.mem_cons] at present ⊢
        rcases present with isTarget | isBoth | later
        · exact .inl (.inr (.inl isTarget))
        · exact .inr isBoth
        · exact .inl (.inr (.inr (.inr later)))
      · exact .inl present
    · exact .inl present
  unfold combine at member
  split at member
  · cases member
  · rename_i last rest whole
    have original : ∀ other, other ∈ last :: rest → other ∈ args := by
      intro other present
      rw [← whole] at present
      exact List.mem_reverse.mp present
    split at member
    · rcases List.mem_cons.mp (List.mem_reverse.mp member) with rfl | present
      · exact .inl (original _ (by simp))
      · rcases reversed rest present with old | new
        · exact .inl (original _ (by simp [old]))
        · exact .inr new
    · rcases reversed _ (List.mem_reverse.mp member) with old | new
      · exact .inl (original _ old)
      · exact .inr new

end LineShell.Redirection
