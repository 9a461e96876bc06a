import LineShell.Proofs.Changes
import LineShell.Proofs.Descriptors

namespace LineShell

namespace Variables

theorem lookup_set (t : Variables) (key value name : Bytes) :
    (t.set key value).lookup name = if name = key then some value else t.lookup name := by
  obtain ⟨entries⟩ := t
  unfold set lookup
  dsimp only
  induction entries with
  | nil =>
    by_cases same : name = key
    · simp [setIn, same]
    · simp [setIn, same, Ne.symm same]
  | cons entry rest ih =>
    unfold setIn
    by_cases here : entry.1 = key
    · rw [if_pos here]
      by_cases same : name = key
      · simp [same]
      · simp [same, Ne.symm same, here]
    · rw [if_neg here]
      split
      · by_cases same : name = key
        · simp [same]
        · simp [same, Ne.symm same]
      · by_cases found : entry.1 = name
        · have different : name ≠ key := fun same => here (found.trans same)
          simp [found, different]
        · simpa [found] using ih

theorem lookup_unset (t : Variables) (key name : Bytes) :
    (t.unset key).lookup name = if name = key then none else t.lookup name := by
  obtain ⟨entries⟩ := t
  unfold unset lookup
  dsimp only
  induction entries with
  | nil => simp
  | cons entry rest ih =>
    by_cases here : entry.1 = key
    · rw [List.filter_cons_of_neg (by simpa using here), ih]
      by_cases same : name = key
      · simp [same]
      · simp [same, here, Ne.symm same]
    · rw [List.filter_cons_of_pos (by simpa using here)]
      by_cases found : entry.1 = name
      · have different : name ≠ key := fun same => here (found.trans same)
        simp [found, different]
      · simpa [found] using ih

theorem contains_of_lookup {t : Variables} (found : t.lookup name = some value) : t.contains name = true := by
  simp [contains, found]

-- A variable is one of the texts a table is handed on as.
theorem entry_of_lookup {t : Variables} (found : t.lookup name = some value) : (name, value) ∈ t.entries := by
  obtain ⟨⟨key, kept⟩, here, rfl⟩ := Option.map_eq_some_iff.mp found
  have same : key = name := by simpa using List.find?_some here
  subst same
  exact List.mem_of_find?_eq_some here

end Variables

namespace Line

-- A name is read on as long as nothing in it ends a name.
theorem expandFrom_name (value : Bytes → Bytes) (read name rest : Bytes) (enabled : Bool)
    (plain : ∀ c ∈ name, isNameEnd c = false) :
    expandFrom value (some read) enabled (name ++ rest) = expandFrom value (some (name.reverse ++ read)) enabled rest := by
  induction name generalizing read with
  | nil => rfl
  | cons c name ih =>
    rw [List.cons_append, expandFrom.eq_def]
    simp only [Option.isSome_some, plain c List.mem_cons_self, Bool.not_false, Bool.and_self, if_true, Option.map_some]
    simpa using ih (c :: read) (fun other member => plain other (by simp [member]))

theorem isNameEnd_part (part : Variables.isNamePart c = true) : isNameEnd c = false := by
  apply Bool.eq_false_iff.mpr
  intro ends
  simp only [isNameEnd, Bool.or_eq_true, decide_eq_true_eq] at ends
  rcases ends with ((rfl | rfl) | rfl) | rfl <;> cases part

theorem validName_parts (valid : Variables.validName name = true) : ∀ c ∈ name, Variables.isNamePart c = true := by
  cases name with
  | nil => cases valid
  | cons first rest =>
    obtain ⟨start, parts⟩ : Variables.isNameStart first = true ∧ rest.all Variables.isNamePart = true := by
      simpa [Variables.validName] using valid
    intro c member
    rcases List.mem_cons.mp member with rfl | later
    · simp [Variables.isNamePart, start]
    · exact List.all_eq_true.mp parts c later

theorem validName_first (valid : Variables.validName name = true) :
    ∃ c rest, name = c :: rest ∧ Variables.isNameStart c = true := by
  cases name with
  | nil => cases valid
  | cons c rest =>
    simp only [Variables.validName, Bool.and_eq_true] at valid
    exact ⟨c, rest, rfl, valid.1⟩

theorem expandFrom_dollar (value : Bytes → Bytes) (name rest : Bytes) (valid : Variables.validName name = true) :
    expandFrom value none true (Bytes.dollar :: (name ++ rest)) = expandFrom value (some name.reverse) true rest := by
  have plain : ∀ c ∈ name, isNameEnd c = false := fun c member => isNameEnd_part (validName_parts valid c member)
  obtain ⟨c, others, rfl, start⟩ := validName_first valid
  have bare : c ≠ Bytes.openParen := by
    rintro rfl
    cases start
  have begun : expandFrom value none true (Bytes.dollar :: ((c :: others) ++ rest)) =
      expandFrom value (some []) true ((c :: others) ++ rest) := by
    rw [expandFrom.eq_def]
    simp [finishName, bare, Bytes.dollar, Bytes.backslash, Bytes.singleQuote, Bytes.doubleQuote]
  rw [begun, expandFrom_name _ _ _ _ _ plain, List.append_nil]

theorem finishName_read (value : Bytes → Bytes) (nonempty : name ≠ []) : finishName value (some name.reverse) = value name := by
  unfold finishName
  split
  · rename_i wrong
    cases wrong
  · rename_i wrong
    simp at wrong
    exact absurd wrong nonempty
  · rename_i read whole
    cases whole
    rw [List.reverse_reverse]

theorem expand_variable (lookups : List Lookup) (name : Bytes) (valid : Variables.validName name = true) :
    expand lookups (Bytes.dollar :: name) = resolve lookups name := by
  have named : name ≠ [] := by
    rintro rfl
    cases valid
  have read := expandFrom_dollar (resolve lookups) name [] valid
  rw [List.append_nil] at read
  rw [expand, read]
  exact finishName_read (resolve lookups) named

end Line

namespace Session

-- What the changes of variables do to the two tables, name by name.

theorem assignVariable_env (s : Session) (key value name : Bytes) :
    (s.assignVariable key value).env.lookup name =
      if name = key ∧ s.env.contains key = true then some value else s.env.lookup name := by
  unfold assignVariable
  by_cases exported : s.env.contains key = true
  · simp [exported, Variables.lookup_set]
  · simp [exported]

theorem unexport_locals (s : Session) (key name : Bytes) :
    (Builtin.unexport s key).locals.lookup name =
      if name = key then (s.locals.lookup key).or (s.env.lookup key) else s.locals.lookup name := by
  unfold Builtin.unexport Variables.contains
  dsimp only
  by_cases same : name = key
  · subst same
    cases inside : s.locals.lookup name with
    | some value => cases s.env.lookup name <;> simp [inside]
    | none => cases s.env.lookup name <;> simp [inside, Variables.lookup_set]
  · cases s.env.lookup key with
    | none => simp [same]
    | some value => cases s.locals.lookup key <;> simp [same, Variables.lookup_set]

theorem exportName_locals (s : Session) (key : Bytes) : (Builtin.exportName s key).locals = s.locals := by
  obtain ⟨env, only⟩ := Builtin.exportName_only s key
  rw [only]

theorem exportName_env (s : Session) (key name : Bytes) :
    (Builtin.exportName s key).env.lookup name =
      if name = key then some (((s.locals.lookup key).or (s.env.lookup key)).getD []) else s.env.lookup name := by
  unfold Builtin.exportName Variables.contains
  cases inside : s.locals.lookup key with
  | some value => simp [Variables.lookup_set]
  | none =>
    cases outside : s.env.lookup key with
    | none => simp [Variables.lookup_set]
    | some known =>
      by_cases same : name = key
      · simp [same, outside]
      · simp [same]

-- A name in both tables has one value, the working directory's aside.
def Agree (s : Session) : Prop :=
  ∀ name value known, name ≠ pwdVar → s.locals.lookup name = some value → s.env.lookup name = some known → value = known

theorem change_agree (change : Change s after) (agree : Agree s) : Agree after := by
  intro name value known other inside outside
  have unchanged := agree name value known other
  cases change with
  | assign key given =>
    rw [assignVariable_env] at outside
    replace inside : (s.locals.set key given).lookup name = some value := inside
    rw [Variables.lookup_set] at inside
    by_cases same : name = key
    · by_cases exported : s.env.contains key = true
      · rw [if_pos same] at inside
        rw [if_pos ⟨same, exported⟩] at outside
        exact Option.some.inj (inside.symm.trans outside)
      · rw [if_neg (fun both => exported both.2), same] at outside
        exact absurd (Variables.contains_of_lookup outside) exported
    · rw [if_neg same] at inside
      rw [if_neg (fun both => same both.1)] at outside
      exact unchanged inside outside
  | publish key given =>
    rw [Variables.lookup_set] at inside outside
    by_cases same : name = key
    · rw [if_pos same] at inside outside
      exact Option.some.inj (inside.symm.trans outside)
    · rw [if_neg same] at inside outside
      exact unchanged inside outside
  | unexport key =>
    rw [unexport_locals] at inside
    replace outside : (s.env.unset key).lookup name = some known := outside
    rw [Variables.lookup_unset] at outside
    by_cases same : name = key
    · rw [if_pos same] at outside
      cases outside
    · rw [if_neg same] at inside outside
      exact unchanged inside outside
  | exportName key =>
    rw [exportName_locals] at inside
    rw [exportName_env] at outside
    by_cases same : name = key
    · rw [if_pos same, ← same, inside] at outside
      exact Option.some.inj outside
    · rw [if_neg same] at outside
      exact unchanged inside outside
  | enter directory =>
    rw [Variables.lookup_set, if_neg other] at outside
    exact unchanged inside outside
  | exit => exact unchanged inside outside
  | redirect => exact unchanged inside outside
  | nest => exact unchanged inside outside
  | finish => exact unchanged inside outside
  | stop => exact unchanged inside outside

-- The sessions there can be: new ones, with what may be attached to them, and those that lines lead to.
inductive Reachable : Session → Prop where
  | created (settings : Settings) (std : Triple (Option FileId)) (environ : List Bytes) (w : World) (storage : Storage)
    (recorder : Option Recorder) (debug : Option DebugSink) :
    Reachable { create settings std environ w with storage := storage, recorder := recorder, debug := debug }
  | interpreted (reached : Reachable s) (line : Bytes) (w : World) : Reachable (interpret line s w).2.1

theorem reachable_agree (reached : Reachable s) : Agree s := by
  induction reached with
  | created =>
    intro name value known _ inside
    cases inside
  | interpreted _ line w ih => exact (interpret_follows line _ w).changes.keep change_agree ih

theorem resolve_agreed (agree : Agree s) (valid : Variables.validName name = true)
    (directory : name = pwdVar → s.locals.lookup name = none) (outside : s.env.lookup name = some known) :
    Line.resolve s.lookups name = known := by
  have ordinary : s.lookupStatus name = none := by
    refine if_neg ?_
    rintro rfl
    cases valid
  cases inside : s.locals.lookup name with
  | none => simp [Line.resolve, lookups, ordinary, inside, outside]
  | some value =>
    have other : name ≠ pwdVar := by
      intro same
      rw [directory same] at inside
      cases inside
    simp [Line.resolve, lookups, ordinary, inside, agree name value known other inside outside]

-- In every session there can be, the tables agree on all names but that of the working directory, and an
-- exported variable expands to what started programs are given for it.
theorem reachable_tables (reached : Reachable s) :
    (∀ name value known, name ≠ pwdVar → s.locals.lookup name = some value → s.env.lookup name = some known →
      value = known) ∧
    ∀ name known, Variables.validName name = true → (name = pwdVar → s.locals.lookup name = none) →
      s.env.lookup name = some known →
      s.expand (Bytes.dollar :: name) = known ∧
        ∃ table, s.environ = some table ∧ Variables.entryText (name, known) ∈ table := by
  have agree := reachable_agree reached
  refine ⟨agree, ?_⟩
  intro name known valid directory outside
  have entry := Variables.entry_of_lookup outside
  refine ⟨?_, s.env.environ, ?_, List.mem_map_of_mem entry⟩
  · unfold expand
    rw [Line.expand_variable _ _ valid]
    exact resolve_agreed agree valid directory outside
  · refine if_neg ?_
    intro empty
    rw [List.isEmpty_iff.mp empty] at entry
    cases entry

-- A session in which a variable was exported and then assigned, and one in which the directory was changed
-- after `PWD` had been assigned.

def fresh : Session := create {} ⟨some 0, some 1, some 2⟩ [] (console [])

def exported : Session :=
  (interpret (ascii "A=2") (interpret (ascii "mexport A=1") fresh (console [])).2.1 (console [])).2.1

def moved : Session := (interpret (ascii "mcd /") (interpret (ascii "PWD=x") fresh (console [])).2.1 (console [])).2.1

theorem reachable_tables_exported :
    Reachable exported ∧ exported.locals.lookup (ascii "A") = some (ascii "2") ∧
    exported.expand (ascii "$A") = ascii "2" ∧ ∃ table, exported.environ = some table ∧ ascii "A=2" ∈ table := by
  have start : Reachable fresh := .created {} ⟨some 0, some 1, some 2⟩ [] (console []) .disk none none
  have reached : Reachable exported := (start.interpreted _ _).interpreted _ _
  have outside : exported.env.lookup (ascii "A") = some (ascii "2") := by decide +kernel
  have name : ascii "A" ≠ pwdVar := by decide
  obtain ⟨expands, given⟩ := (reachable_tables reached).2 (ascii "A") (ascii "2") (by decide +kernel)
    (fun same => absurd same name) outside
  exact ⟨reached, by decide +kernel, expands, given⟩

-- Programs are told the new directory, and `$PWD` is still the old value.
theorem reachable_tables_moved :
    Reachable moved ∧ moved.locals.lookup pwdVar = some (ascii "x") ∧ moved.env.lookup pwdVar = some (ascii "/") ∧
      moved.expand (ascii "$PWD") = ascii "x" := by
  have start : Reachable fresh := .created {} ⟨some 0, some 1, some 2⟩ [] (console []) .disk none none
  refine ⟨(start.interpreted _ _).interpreted _ _, ?_⟩
  decide +kernel

end Session
end LineShell
