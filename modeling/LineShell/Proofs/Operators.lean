import LineShell.Proofs.Acceptance

-- Which words are operators and which are targets can be told from two neighbours at a time, if each operator is
-- followed by a word that may be a target.
namespace LineShell.Redirection
open Pipeline

-- A tail `> FILE 2>&1`, with or without the marker behind it, is written as `&> FILE`.
inductive Rewritten : List Bytes → List Bytes → Prop where
  | tail (front : List Bytes) (target : Bytes) (last : marker = [] ∨ marker = [backgroundToken]) :
    Rewritten (front ++ [outputToken, target, duplicateToken] ++ marker) (front ++ [bothToken, target] ++ marker)
  | other (none : ∀ front target marker, marker = [] ∨ marker = [backgroundToken] →
      args ≠ front ++ [outputToken, target, duplicateToken] ++ marker) : Rewritten args args

-- Every operator has a target behind it: no operator, and no command substitution.
structure Readable (args : List Bytes) : Prop where
  single : duplicateToken ∉ args
  targets : ∀ (i : Nat) operator, args[i]? = some operator → (slots? operator).isSome = true →
    ∃ target, args[i + 1]? = some target ∧ isOperator target = false ∧ Line.subshellSpans target = .ok []

-- The operators, each with the word behind it.
def redirections (args : List Bytes) : List (Bytes × Bytes) :=
  (args.zip args.tail).filter fun pair => (slots? pair.1).isSome

-- The words that are no operators and do not stand behind one.
def remainingAfter (previous : Bytes) (args : List Bytes) : List Bytes :=
  ((args.zip (previous :: args)).filter fun pair => (slots? pair.1).isNone && (slots? pair.2).isNone).map (·.1)

def remaining (args : List Bytes) : List Bytes := remainingAfter [] args

theorem combineReversed_cases (words : List Bytes) :
    (∃ target rest, words = duplicateToken :: target :: outputToken :: rest ∧
      combineReversed words = target :: bothToken :: rest) ∨
    (∀ target rest, words ≠ duplicateToken :: target :: outputToken :: rest) ∧ combineReversed words = words := by
  unfold combineReversed
  split
  · rename_i duplicate target operator rest
    by_cases tail : duplicate = duplicateToken ∧ operator = outputToken
    · obtain ⟨rfl, rfl⟩ := tail
      exact .inl ⟨target, rest, rfl, if_pos ⟨rfl, rfl⟩⟩
    · refine .inr ⟨?_, if_neg tail⟩
      rintro other more same
      cases same
      exact tail ⟨rfl, rfl⟩
  · rename_i short
    refine .inr ⟨?_, rfl⟩
    rintro target rest rfl
    exact short _ _ _ _ rfl

theorem combine_rewritten (args : List Bytes) : Rewritten args (combine args) := by
  -- The words are looked at from the last one on, so a tail is compared with them in reverse.
  have reversed : ∀ front target marker, args = front ++ [outputToken, target, duplicateToken] ++ marker →
      args.reverse = marker.reverse ++ duplicateToken :: target :: outputToken :: front.reverse := by
    rintro front target marker rfl
    simp
  have apart : duplicateToken ≠ backgroundToken := by decide
  unfold combine
  rcases words : args.reverse with _ | ⟨last, rest⟩
  · cases List.reverse_eq_nil_iff.mp words
    exact .other fun front target marker _ => by simp
  · have whole : args = (last :: rest).reverse := by rw [← words, List.reverse_reverse]
    rw [words] at reversed
    dsimp only
    by_cases marked : last = backgroundToken
    · subst marked
      rw [if_pos rfl]
      rcases combineReversed_cases rest with ⟨target, more, rfl, combined⟩ | ⟨none, same⟩
      · rw [combined, whole]
        simpa using Rewritten.tail more.reverse target (.inr rfl)
      · rw [same, ← whole]
        refine .other fun front target marker last written => ?_
        rcases last with rfl | rfl
        · exact apart (List.cons.inj (reversed _ _ _ written)).1.symm
        · exact none _ _ (List.cons.inj (reversed _ _ _ written)).2
    · rw [if_neg marked]
      rcases combineReversed_cases (last :: rest) with ⟨target, more, tail, combined⟩ | ⟨none, same⟩
      · rw [combined, whole, tail]
        simpa using Rewritten.tail more.reverse target (.inl rfl)
      · rw [same, ← whole]
        refine .other fun front target marker last written => ?_
        rcases last with rfl | rfl
        · exact none _ _ (reversed _ _ _ written)
        · exact marked (List.cons.inj (reversed _ _ _ written)).1

-- There is only one way to write a stage.
theorem rewritten_iff (args words : List Bytes) : Rewritten args words ↔ words = combine args := by
  constructor
  · intro rewritten
    cases rewritten with
    | tail front target last =>
      rcases last with rfl | rfl
      · simp [combine, combineReversed, show duplicateToken ≠ Pipeline.backgroundToken by decide]
      · simp [combine, combineReversed]
    | other none =>
      have same := combine_rewritten args
      generalize combine args = words at same
      cases same with
      | tail front target last => exact absurd rfl (none front target _ last)
      | other _ => rfl
  · rintro rfl
    exact combine_rewritten args

theorem readable_duplicate (rest : List Bytes) : ¬Readable (duplicateToken :: rest) :=
  fun readable => readable.single List.mem_cons_self

theorem readable_word (single : token ≠ duplicateToken) (word : slots? token = none) (rest : List Bytes) :
    Readable (token :: rest) ↔ Readable rest := by
  constructor
  · rintro ⟨alone, targets⟩
    exact ⟨fun present => alone (List.mem_cons_of_mem _ present), fun i operator found => targets (i + 1) operator found⟩
  · rintro ⟨alone, targets⟩
    refine ⟨fun present => ?_, fun i operator found overwrites => ?_⟩
    · rcases List.mem_cons.mp present with same | later
      · exact single same.symm
      · exact alone later
    · cases i with
      | zero =>
        cases found
        rw [word] at overwrites
        cases overwrites
      | succ i => exact targets i operator found overwrites

theorem readable_end (found : slots? token = some slots) : ¬Readable [token] := by
  rintro ⟨_, targets⟩
  obtain ⟨target, behind, _⟩ := targets 0 token rfl (by rw [found]; rfl)
  cases behind

theorem slots?_of_plain (plain : isOperator target = false) : slots? target = none ∧ target ≠ duplicateToken := by
  simpa [isOperator] using plain

theorem readable_operator (single : token ≠ duplicateToken) (found : slots? token = some slots) (target : Bytes)
    (rest : List Bytes) : Readable (token :: target :: rest) ↔
      isOperator target = false ∧ Line.subshellSpans target = .ok [] ∧ Readable rest := by
  constructor
  · rintro ⟨alone, targets⟩
    obtain ⟨_, behind, plain, clean⟩ := targets 0 token rfl (by rw [found]; rfl)
    cases behind
    refine ⟨plain, clean, fun present => alone (by simp [present]), fun i operator here => targets (i + 2) operator here⟩
  · rintro ⟨plain, clean, readable⟩
    obtain ⟨word, other⟩ := slots?_of_plain plain
    have behind := (readable_word other word rest).mpr readable
    refine ⟨fun present => ?_, fun i operator here overwrites => ?_⟩
    · rcases List.mem_cons.mp present with same | later
      · exact single same.symm
      · exact behind.single later
    · cases i with
      | zero => exact ⟨target, rfl, plain, clean⟩
      | succ i => exact behind.targets i operator here overwrites

theorem redirections_word (word : slots? token = none) (rest : List Bytes) :
    redirections (token :: rest) = redirections rest := by
  cases rest with
  | nil => rfl
  | cons next others => simp [redirections, word]

theorem redirections_operator (found : slots? token = some slots) (word : slots? target = none) (rest : List Bytes) :
    redirections (token :: target :: rest) = (token, target) :: redirections rest := by
  rw [← redirections_word word rest]
  simp [redirections, found]

theorem remainingAfter_cons (previous token : Bytes) (rest : List Bytes) : remainingAfter previous (token :: rest) =
    if (slots? token).isNone && (slots? previous).isNone then token :: remainingAfter token rest
    else remainingAfter token rest := by
  simp only [remainingAfter, List.zip_cons_cons, List.filter_cons]
  split <;> rfl

-- What stands in front of a word matters only if it is an operator.
theorem remainingAfter_word (previous : Bytes) (word : slots? previous = none) (args : List Bytes) :
    remainingAfter previous args = remaining args := by
  have empty : slots? [] = none := by decide
  cases args with
  | nil => rfl
  | cons token rest => rw [remaining, remainingAfter_cons, remainingAfter_cons, word, empty]

theorem remaining_word (word : slots? token = none) (rest : List Bytes) :
    remaining (token :: rest) = token :: remaining rest := by
  have empty : slots? [] = none := by decide
  rw [remaining, remainingAfter_cons, word, empty, remainingAfter_word token word rest]
  rfl

theorem remaining_operator (found : slots? token = some slots) (word : slots? target = none) (rest : List Bytes) :
    remaining (token :: target :: rest) = remaining rest := by
  rw [remaining, remainingAfter_cons, found, remainingAfter_cons, word, found, remainingAfter_word target word rest]
  rfl

theorem targetFault?_none_iff (target : Bytes) : targetFault? target = none ↔ Line.subshellSpans target = .ok [] := by
  unfold targetFault?
  split
  · rename_i failed
    simp [failed]
  · rename_i clean
    simp [clean]
  · rename_i found
    simp [found]

end LineShell.Redirection
