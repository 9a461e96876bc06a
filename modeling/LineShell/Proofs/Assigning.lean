import LineShell.Proofs.Recording
import LineShell.Proofs.Tables
import LineShell.Proofs.Unwinding
import LineShell.Proofs.Words

namespace LineShell.Line
open Bytes

-- A byte that no scan of a line takes notice of.
structure Bare (c : UInt8) : Prop where
  backslash : c ≠ Bytes.backslash
  single : c ≠ singleQuote
  double : c ≠ doubleQuote
  dollar : c ≠ Bytes.dollar
  hash : c ≠ Bytes.hash
  space : c ≠ Bytes.space

theorem bare_part (part : Variables.isNamePart c = true) : Bare c := by
  constructor <;> (rintro rfl; cases part)

theorem bare_equals : Bare equals := by constructor <;> decide

-- The line that gives a variable a value.
def assignment (name value : Bytes) : Bytes := name ++ equals :: quote value

-- What stands in front of the value.
def assignee (name : Bytes) : Bytes := name ++ [equals]

theorem assignment_eq (name value : Bytes) : assignment name value = assignee name ++ quote value := by
  simp [assignment, assignee]

theorem assignee_bare (valid : Variables.validName name = true) : ∀ c ∈ assignee name, Bare c := by
  intro c member
  rcases List.mem_append.mp member with inName | last
  · exact bare_part (validName_parts valid c inName)
  · rw [List.mem_singleton.mp last]
    exact bare_equals

-- Each scan passes over bare bytes.

theorem stripFrom_bare (bare : ∀ c ∈ front, Bare c) (rest : Bytes) :
    stripFrom .outside (front ++ rest) = front ++ stripFrom .outside rest := by
  induction front with
  | nil => rfl
  | cons c front ih =>
    have first := bare c (by simp)
    rw [List.cons_append, stripFrom_outside first.backslash, if_neg first.single, if_neg first.double, if_neg first.hash,
      ih fun d member => bare d (by simp [member])]
    rfl

theorem cut_bare (bare : ∀ c ∈ front, Bare c) (word rest : Bytes) : cut {} word (front ++ rest) = cut {} (front.reverse ++ word) rest := by
  induction front generalizing word with
  | nil => rfl
  | cons c front ih =>
    have first := bare c (by simp)
    have same : Scan.next {} c ((front ++ rest).head? = some openParen) = {} := by
      simp [Scan.next, Region.next, first.single, first.double, first.dollar]
    rw [List.cons_append, cut_kept first.backslash _ _ (.inl first.space), same, ih fun d member => bare d (by simp [member])]
    simp

theorem subshellSpansFrom_bare (bare : ∀ c ∈ front, Bare c) (i : Nat) (rest : Bytes) :
    subshellSpansFrom i (.outside false) (front ++ rest) = subshellSpansFrom (i + front.length) (.outside false) rest := by
  induction front generalizing i with
  | nil => rfl
  | cons c front ih =>
    have first := bare c (by simp)
    rw [List.cons_append, subshellSpansFrom_other first.backslash first.single _ _ _ (.inl first.dollar),
      ih fun d member => bare d (by simp [member]), List.length_cons]
    congr 1
    omega

theorem expandFrom_bare (bare : ∀ c ∈ front, Bare c) (value : Bytes → Bytes) (rest : Bytes) :
    expandFrom value none true (front ++ rest) = front ++ expandFrom value none true rest := by
  induction front with
  | nil => rfl
  | cons c front ih =>
    have first := bare c (by simp)
    rw [List.cons_append, expandFrom.eq_def]
    simp [finishName, first.backslash, first.single, first.double, first.dollar, ih fun d member => bare d (by simp [member])]

-- A quoted value stays in its word.

theorem cut_escape (value : Bytes) (word rest : Bytes) :
    cut ⟨true, false, .outside true⟩ word (escape value ++ rest) =
      cut ⟨true, false, .outside true⟩ ((escape value).reverse ++ word) rest := by
  induction value generalizing word with
  | nil => rfl
  | cons c value ih =>
    cases special : needsEscape c with
    | true => simp [special, cut_escaped, ih]
    | false =>
      obtain ⟨notSingle, notDouble, notBackslash⟩ := plain_ne special
      have same : Scan.next ⟨true, false, .outside true⟩ c ((escape value ++ rest).head? = some openParen) = ⟨true, false, .outside true⟩ := by
        simp [Scan.next, Region.next, notSingle, notDouble]
      rw [escape_cons_plain special, List.cons_append, cut_kept notBackslash _ _ (.inr rfl), same, ih]
      simp

theorem cut_quote (value word : Bytes) : cut {} word (quote value) = some (finish ((quote value).reverse ++ word)) := by
  have plain : singleQuote ≠ backslash := by decide
  have letter : singleQuote ≠ space := by decide
  have opened : ∀ paren, Scan.next {} singleQuote paren = ⟨true, false, .outside true⟩ := by decide
  have closed : ∀ paren, Scan.next ⟨true, false, .outside true⟩ singleQuote paren = {} := by decide
  rw [quote, cut_kept plain _ _ (.inl letter), opened, cut_escape, cut_kept plain _ _ (.inl letter), closed, cut_nil _ rfl]
  simp

-- The phases of the line.

theorem stripComment_assignment (valid : Variables.validName name = true) (value : Bytes) :
    stripComment (assignment name value) = assignment name value := by
  have quoted := stripFrom_quote value []
  rw [List.append_nil, stripFrom, List.append_nil] at quoted
  rw [stripComment, assignment_eq, stripFrom_bare (assignee_bare valid), quoted]

theorem width_nameStart (start : Variables.isNameStart c = true) (text : Bytes) : Blank.width Blank.blanks (c :: text) = 0 := by
  have heads : ∀ blank ∈ Blank.blanks, blank.head?.any (fun b => !Variables.isNameStart b) = true := by decide
  have none : Blank.blanks.find? (·.isPrefixOf (c :: text)) = none := by
    refine List.find?_eq_none.mpr ?_
    intro blank member begins
    have head := heads blank member
    cases blank with
    | nil => cases head
    | cons b rest =>
      simp only [List.isPrefixOf_cons_cons, Bool.and_eq_true, beq_iff_eq] at begins
      rw [begins.1] at head
      simp [start] at head
  rw [Blank.width, none]

theorem trim_assignment (valid : Variables.validName name = true) (value : Bytes) :
    Blank.trim (assignment name value) = assignment name value := by
  have left : Blank.trimLeft (assignment name value) = assignment name value := by
    obtain ⟨c, rest, rfl, start⟩ := validName_first valid
    exact dropLeading_of_width _ _ (width_nameStart start _)
  have last : assignment name value = (name ++ equals :: singleQuote :: escape value) ++ [singleQuote] := by
    simp [assignment, quote]
  have right : Blank.trimRight (assignment name value) = assignment name value := by
    rw [Blank.trimRight, last, List.reverse_append, List.reverse_singleton, List.singleton_append,
      dropLeading_of_width _ _ (width_singleQuote _).2]
    simp
  rw [Blank.trim, left, right]

theorem split_assignment (valid : Variables.validName name = true) (value : Bytes) :
    split (assignment name value) = .ok [assignment name value] := by
  rw [split_cut, assignment_eq, cut_bare (assignee_bare valid), cut_quote]
  simp [finish, assignee]

theorem subshellSpans_assignment (valid : Variables.validName name = true) (value : Bytes) :
    subshellSpans (assignment name value) = .ok [] := by
  have quoted := subshellSpansFrom_quote value [] (0 + (assignee name).length)
  rw [List.append_nil, subshellSpansFrom] at quoted
  rw [subshellSpans, assignment_eq, subshellSpansFrom_bare (assignee_bare valid), quoted]

theorem expand_assignment (valid : Variables.validName name = true) (value : Bytes) (lookups : List Lookup) :
    expand lookups (assignment name value) = name ++ equals :: value := by
  have quoted := expand_quote lookups value
  rw [expand] at quoted
  rw [expand, assignment_eq, expandFrom_bare (assignee_bare valid), quoted]
  simp [assignee]

-- The word is neither a sign nor an operator: these have no equals sign.

theorem assignment_ne (plain : equals ∉ token) (name value : Bytes) : assignment name value ≠ token := by
  rintro rfl
  exact plain (by simp [assignment])

theorem isOperator_assignment (name value : Bytes) : Redirection.isOperator (assignment name value) = false := by
  have other (token : Bytes) (plain : equals ∉ token) := assignment_ne plain name value
  simp [Redirection.isOperator, Redirection.slots?, other Redirection.outputToken (by decide), other (ascii "2>") (by decide),
    other Redirection.bothToken (by decide), other (ascii ">&") (by decide), other Redirection.inputToken (by decide),
    other Redirection.duplicateToken (by decide)]

-- A name in double quotes ends at the second of them.
theorem expand_quoted_variable (lookups : List Lookup) (name : Bytes) (valid : Variables.validName name = true) :
    expand lookups (doubleQuote :: Bytes.dollar :: (name ++ [doubleQuote])) = resolve lookups name := by
  have named : name ≠ [] := by
    rintro rfl
    cases valid
  have skipped : expandFrom (resolve lookups) none true (doubleQuote :: Bytes.dollar :: (name ++ [doubleQuote])) =
      expandFrom (resolve lookups) none true (Bytes.dollar :: (name ++ [doubleQuote])) := by
    rw [expandFrom.eq_def]
    simp [finishName, doubleQuote, Bytes.backslash, Bytes.singleQuote]
  have ended : expandFrom (resolve lookups) (some name.reverse) true [doubleQuote] = finishName (resolve lookups) (some name.reverse) := by
    rw [expandFrom.eq_def]
    simp [isNameEnd, doubleQuote, Bytes.backslash, Bytes.singleQuote, expandFrom, finishName]
  rw [expand, skipped, expandFrom_dollar _ _ _ valid, ended, finishName_read _ named]

end LineShell.Line

namespace LineShell

namespace Variables

theorem mem_names (t : Variables) (name : Bytes) : name ∈ t.names ↔ t.contains name = true := by
  simp [names, contains, lookup]

end Variables

namespace Session
open Bytes Line
variable {s : Session} {name value : Bytes}

-- A line of words that mean nothing to the shell is one stage of these words, expanded.
theorem compile_sole (splits : split line = .ok words) (nonempty : words ≠ []) (alone : Pipeline.pipeToken ∉ words)
    (clean : ∀ word ∈ words, subshellSpans word = .ok []) (plain : ∀ word ∈ words, Redirection.isOperator word = false)
    (expand : Bytes → Bytes) (w : World) : compile expand line w = (.ok ⟨[stageOf (words.map expand)]⟩, w) := by
  have assembled : assemble line w = (.ok ⟨[stageOf words]⟩, w) := by
    unfold assemble
    rw [splits]
    dsimp only
    rw [build_sole nonempty alone]
    dsimp only
    rw [detect_sole clean]
    rfl
  unfold compile
  rw [assembled]
  dsimp only
  rw [redirect_sole nonempty plain]
  rfl

theorem compile_assignment (valid : Variables.validName name = true) (value : Bytes) (w : World) :
    compile s.expand (assignment name value) w = (.ok ⟨[stageOf [name ++ equals :: value]]⟩, w) := by
  have expanded : s.expand (assignment name value) = name ++ equals :: value := expand_assignment valid value s.lookups
  rw [← expanded]
  refine compile_sole (split_assignment valid value) (by simp) ?_ ?_ ?_ s.expand w
  · intro member
    exact assignment_ne (by decide) name value (List.mem_singleton.mp member).symm
  · intro arg member
    rw [List.mem_singleton.mp member]
    exact subshellSpans_assignment valid value
  · intro arg member
    rw [List.mem_singleton.mp member]
    exact isOperator_assignment name value

-- No command of the shell has an equals sign in its name.
theorem isBuiltin_equals (present : equals ∈ word) : Builtin.isBuiltin word = false := by
  have names : ∀ b ∈ Builtin.all, equals ∉ b.name := by decide
  cases found : Builtin.find? word with
  | none => simp [Builtin.isBuiltin, found]
  | some b =>
    have name : b.name = word := by simpa using List.find?_some found
    exact absurd (name ▸ present) (names b (List.mem_of_find?_eq_some found))

theorem cut?_name (name value : Bytes) (plain : equals ∉ name) : cut? equals (name ++ equals :: value) = some (name, value) := by
  induction name with
  | nil => simp [cut?]
  | cons c rest ih =>
    simp only [List.mem_cons, not_or] at plain
    simp [cut?, Ne.symm plain.1, ih plain.2]

theorem parseAssignment_name (valid : Variables.validName name = true) (value : Bytes) :
    Variables.parseAssignment (name ++ equals :: value) = some (name, value) := by
  have plain : equals ∉ name := by
    intro member
    cases validName_parts valid equals member
  simp [Variables.parseAssignment, cut?_name name value plain, valid]

theorem enter_assignment (scripts : ScriptRunner) (valid : Variables.validName name = true) (value : Bytes) (e : Engine) (s : Session)
    (w : World) :
    (classified (stageOf [name ++ equals :: value])).kind = .assignment ∧
      e.enter (runner scripts) (classified (stageOf [name ++ equals :: value])) s w = (0, s.assignVariable name value, w) := by
  have foreign : Builtin.isBuiltin (name ++ equals :: value) = false := isBuiltin_equals (by simp)
  have kind : (classified (stageOf [name ++ equals :: value])).kind = .assignment := by
    simp [classified, stageOf, StageKind.classify, foreign]
  have foreground : Engine.stripBackground [name ++ equals :: value] = ([name ++ equals :: value], false) := by
    have other : name ++ equals :: value ≠ Pipeline.backgroundToken := by
      intro same
      have member : equals ∈ Pipeline.backgroundToken := by simp [← same]
      exact absurd member (by decide)
    simp [Engine.stripBackground, other]
  refine ⟨kind, ?_⟩
  have given : (Engine.stripBackground (classified (stageOf [name ++ equals :: value])).args).1 = [name ++ equals :: value] :=
    congrArg Prod.fst foreground
  rw [Engine.enter_assigning kind given]
  simp [runner, Session.assign, parseAssignment_name valid]

theorem trimmed_assignment (valid : Variables.validName name = true) (value : Bytes) :
    trimmed (assignment name value) = assignment name value := by
  rw [trimmed, stripComment_assignment valid, trim_assignment valid]

-- The session behind the line.
theorem interpret_assignment (healthy : s.fatal = none) (valid : Variables.validName name = true) (value : Bytes) (w : World) :
    (interpret (assignment name value) s w).1 = (0, none) ∧
      (interpret (assignment name value) s w).2.1 = { s.assignVariable name value with lastStatus := 0 } := by
  obtain ⟨kind, entered⟩ := enter_assignment (runScriptAt s.levels) valid value s.engine s
    (s.entrance (stageOf [name ++ equals :: value]) w)
  have ran := runLine_sole (compile_assignment valid value w) (.inr kind) entered
  rw [← trimmed_assignment valid] at ran
  have present : trimmed (assignment name value) ≠ [] := by
    rw [trimmed_assignment valid]
    simp [assignment]
  have passed := interpretWith_passed present ran rfl healthy
  rw [interpret, passed]
  exact ⟨rfl, rfl⟩

-- What an assignment changes.
structure Assigned (s : Session) (name value : Bytes) (after : Session) : Prop where
  bare : after.expand (Bytes.dollar :: name) = value
  quoted : after.expand (doubleQuote :: Bytes.dollar :: (name ++ [doubleQuote])) = value
  others : ∀ other, other ≠ name → other ≠ statusVar → resolve after.lookups other = resolve s.lookups other
  names : ∀ other, other ∈ after.env.names ↔ other ∈ s.env.names
  exported : name ∈ s.env.names → after.env.lookup name = some value

theorem assignVariable_contains (s : Session) (key value name : Bytes) :
    (s.assignVariable key value).env.contains name = s.env.contains name := by
  rw [Variables.contains, assignVariable_env]
  by_cases here : name = key ∧ s.env.contains key = true
  · rw [if_pos here, here.1, here.2]
    rfl
  · rw [if_neg here]
    rfl

-- Assigning a quoted value succeeds in every session that can go on, and then the variable is exactly that value.
theorem assign_then_expand (healthy : s.fatal = none) (valid : Variables.validName name = true) (value : Bytes) (w : World) :
    (interpret (assignment name value) s w).1 = (0, none) ∧ Assigned s name value (interpret (assignment name value) s w).2.1 := by
  obtain ⟨returned, left⟩ := interpret_assignment healthy valid value w
  have locals (other : Bytes) : (s.assignVariable name value).locals.lookup other =
      if other = name then some value else s.locals.lookup other := Variables.lookup_set s.locals name value other
  have ordinary : name ≠ statusVar := by
    rintro rfl
    cases valid
  have resolved : resolve (Session.lookups { s.assignVariable name value with lastStatus := 0 }) name = value := by
    simp [resolve, lookups, lookupStatus, ordinary, locals]
  refine ⟨returned, ?_⟩
  rw [left]
  refine ⟨?_, ?_, ?_, ?_, ?_⟩
  · exact (expand_variable _ name valid).trans resolved
  · exact (expand_quoted_variable _ name valid).trans resolved
  · intro other different status
    simp [resolve, lookups, lookupStatus, status, List.findSome?_cons, locals, different, assignVariable_env]
  · intro other
    rw [Variables.mem_names, Variables.mem_names]
    exact iff_of_eq (congrArg (· = true) (assignVariable_contains s name value other))
  · intro inside
    exact (assignVariable_env s name value name).trans (if_pos ⟨rfl, (Variables.mem_names _ _).mp inside⟩)

-- An exported variable is given a text with everything in it that means something to the shell.
theorem assign_then_expand_hostile :
    exported.fatal = none ∧ Variables.validName (ascii "A") = true ∧
      (interpret (assignment (ascii "A") (ascii "=it's #1 \"$(x) $A\" | > \n &\\")) exported (console [])).1 = (0, none) ∧
      Assigned exported (ascii "A") (ascii "=it's #1 \"$(x) $A\" | > \n &\\")
        (interpret (assignment (ascii "A") (ascii "=it's #1 \"$(x) $A\" | > \n &\\")) exported (console [])).2.1 := by
  have healthy : exported.fatal = none := by decide +kernel
  have valid : Variables.validName (ascii "A") = true := by decide +kernel
  exact ⟨healthy, valid, assign_then_expand healthy valid _ (console [])⟩

end Session
end LineShell
