import LineShell.Proofs.Environments

namespace LineShell

namespace Variables
open Bytes

theorem parseAssignment_iff : parseAssignment operand = some (name, value) ↔
    validName name = true ∧ operand = name ++ equals :: value := by
  constructor
  · intro parsed
    obtain ⟨cut, valid⟩ := Option.filter_eq_some_iff.mp parsed
    exact ⟨valid, (cut?_some cut).1⟩
  · rintro ⟨valid, rfl⟩
    exact Session.parseAssignment_name valid value

end Variables

namespace Session
open Bytes Line

-- A name stands for what the shell's own table says, and where that says nothing for what programs are told.
theorem resolve_eq (s : Session) (name : Bytes) : resolve s.lookups name =
    if name = statusVar then decimalInt s.lastStatus else ((s.locals.lookup name).or (s.env.lookup name)).getD [] := by
  by_cases status : name = statusVar
  · simp [resolve, lookups, lookupStatus, status]
  · cases inside : s.locals.lookup name with
    | some value => simp [resolve, lookups, lookupStatus, status, inside]
    | none => simp [resolve, lookups, lookupStatus, status, inside]

variable {s middle after : Session}

-- Variables that are kept back: programs are not told of them any more, and in the shell they stand for what they did.
structure KeptBack (s : Session) (names : List Bytes) (after : Session) : Prop where
  env : ∀ name, after.env.lookup name = if name ∈ names then none else s.env.lookup name
  resolves : ∀ name, resolve after.lookups name = resolve s.lookups name
  rest : after = { s with locals := after.locals, env := after.env }

theorem KeptBack.trans (first : KeptBack s names middle) (second : KeptBack middle others after) :
    KeptBack s (names ++ others) after := by
  constructor
  case env =>
    intro name
    rw [second.env, first.env]
    by_cases late : name ∈ others <;> by_cases early : name ∈ names <;> simp [late, early]
  case resolves =>
    intro name
    exact (second.resolves name).trans (first.resolves name)
  case rest =>
    rw [second.rest, first.rest]

theorem unexport_keptBack (s : Session) (name : Bytes) : KeptBack s [name] (Builtin.unexport s name) := by
  have env (other : Bytes) : (Builtin.unexport s name).env.lookup other = if other = name then none else s.env.lookup other :=
    Variables.lookup_unset s.env name other
  constructor
  case env =>
    intro other
    simp [env]
  case resolves =>
    intro other
    have status : (Builtin.unexport s name).lastStatus = s.lastStatus := rfl
    rw [resolve_eq, resolve_eq, unexport_locals, env, status]
    by_cases same : other = name
    · simp [same]
    · simp [same]
  case rest => rfl

theorem unexportAll_keptBack (names : List Bytes) (s : Session) : KeptBack s names (names.foldl Builtin.unexport s) := by
  induction names generalizing s with
  | nil => exact ⟨by simp, fun _ => rfl, rfl⟩
  | cons name others ih => exact (unexport_keptBack s name).trans (ih (Builtin.unexport s name))

-- The operand hands the variable of this name on: it assigns it a value, or it is the name.
inductive HandsOn : Bytes → Bytes → Prop where
  | assigned (valid : Variables.validName name = true) : HandsOn (name ++ equals :: value) name
  | named (valid : Variables.validName name = true) : HandsOn name name

-- The value that the last operand gives that assigns the variable.
def LastGiven (operands : List Bytes) (name value : Bytes) : Prop :=
  ∃ front back, operands = front ++ (name ++ equals :: value) :: back ∧ ∀ other, name ++ equals :: other ∉ back

-- Variables that are handed on, by operands of which some assign values.
structure HandedOn (s : Session) (operands : List Bytes) (after : Session) : Prop where
  given : ∀ name value, Variables.validName name = true → LastGiven operands name value → resolve after.lookups name = value
  kept : ∀ name, (Variables.validName name = true → ∀ value, name ++ equals :: value ∉ operands) →
    resolve after.lookups name = resolve s.lookups name
  told : ∀ operand ∈ operands, ∀ name, HandsOn operand name → after.env.lookup name = some (resolve after.lookups name)
  apart : ∀ name, (∀ operand ∈ operands, ¬HandsOn operand name) → after.env.lookup name = s.env.lookup name
  rest : after = { s with locals := after.locals, env := after.env }

theorem lastGiven_append (given : LastGiven (operands ++ others) name value) :
    LastGiven others name value ∨ LastGiven operands name value ∧ ∀ other, name ++ equals :: other ∉ others := by
  obtain ⟨front, back, whole, absent⟩ := given
  rcases List.append_eq_append_iff.mp whole with ⟨between, rfl, late⟩ | ⟨between, rfl, same⟩
  · exact .inl ⟨between, back, late, absent⟩
  · cases between with
    | nil => exact .inl ⟨[], back, same.symm, absent⟩
    | cons operand between =>
      cases same
      refine .inr ⟨⟨front, between, rfl, ?_⟩, ?_⟩
      · exact fun other member => absent other (List.mem_append_left _ member)
      · exact fun other member => absent other (List.mem_append_right _ member)

theorem HandedOn.trans (first : HandedOn s operands middle) (second : HandedOn middle others after) :
    HandedOn s (operands ++ others) after := by
  constructor
  case given =>
    intro name value valid last
    rcases lastGiven_append last with late | ⟨early, absent⟩
    · exact second.given name value valid late
    · rw [second.kept name fun _ => absent]
      exact first.given name value valid early
  case kept =>
    intro name absent
    rw [second.kept name fun valid value member => absent valid value (List.mem_append_right _ member)]
    exact first.kept name fun valid value member => absent valid value (List.mem_append_left _ member)
  case told =>
    intro operand member name handed
    by_cases late : ∃ other ∈ others, HandsOn other name
    · obtain ⟨other, there, again⟩ := late
      exact second.told other there name again
    · have none : ∀ other ∈ others, ¬HandsOn other name := fun other there again => late ⟨other, there, again⟩
      have early : operand ∈ operands := by
        rcases List.mem_append.mp member with early | wrong
        · exact early
        · exact absurd handed (none operand wrong)
      rw [second.apart name none, second.kept name fun valid value there => none _ there (.assigned valid)]
      exact first.told operand early name handed
  case apart =>
    intro name none
    rw [second.apart name fun operand member => none operand (List.mem_append_right _ member)]
    exact first.apart name fun operand member => none operand (List.mem_append_left _ member)
  case rest =>
    rw [second.rest, first.rest]

-- What one operand does.

theorem parseAssignment_named (valid : Variables.validName name = true) : Variables.parseAssignment name = none := by
  have plain : equals ∉ name := by
    intro member
    cases validName_parts valid equals member
  simp [Variables.parseAssignment, cut?_none plain]

theorem handsOn_assigned (parsed : Variables.parseAssignment operand = some (name, value)) (other : Bytes) :
    HandsOn operand other ↔ other = name := by
  obtain ⟨valid, rfl⟩ := Variables.parseAssignment_iff.mp parsed
  constructor
  · intro handed
    generalize whole : name ++ equals :: value = operand at handed parsed
    cases handed with
    | assigned another =>
      rw [parseAssignment_name another] at parsed
      cases parsed
      rfl
    | named another =>
      rw [parseAssignment_named another] at parsed
      cases parsed
  · rintro rfl
    exact .assigned valid

theorem handsOn_plain (plain : Variables.parseAssignment operand = none) (other : Bytes) :
    HandsOn operand other ↔ Variables.validName operand = true ∧ other = operand := by
  constructor
  · intro handed
    cases handed with
    | assigned valid =>
      rw [parseAssignment_name valid] at plain
      cases plain
    | named valid => exact ⟨valid, rfl⟩
  · rintro ⟨valid, rfl⟩
    exact .named valid

theorem lastGiven_single (given : LastGiven [operand] name value) : operand = name ++ equals :: value := by
  obtain ⟨front, back, whole, _⟩ := given
  have member : name ++ equals :: value ∈ [operand] := by simp [whole]
  exact (List.mem_singleton.mp member).symm

theorem publish_handedOn (s : Session) (parsed : Variables.parseAssignment operand = some (name, value)) :
    HandedOn s [operand] { s with locals := s.locals.set name value, env := s.env.set name value } := by
  obtain ⟨valid, whole⟩ := Variables.parseAssignment_iff.mp parsed
  have ordinary : name ≠ statusVar := by
    rintro rfl
    cases valid
  constructor
  case given =>
    intro other another wellFormed last
    have same := parseAssignment_name wellFormed another
    rw [← lastGiven_single last, parsed] at same
    cases same
    simp [resolve_eq, ordinary, Variables.lookup_set]
  case kept =>
    intro other absent
    have different : other ≠ name := by
      rintro rfl
      exact absent valid value (by simp [whole])
    simp only [resolve_eq, Variables.lookup_set, if_neg different]
  case told =>
    intro only member other handed
    cases List.mem_singleton.mp member
    cases (handsOn_assigned parsed other).mp handed
    simp [resolve_eq, ordinary, Variables.lookup_set]
  case apart =>
    intro other none
    have different : other ≠ name := by
      intro same
      exact none operand (by simp) ((handsOn_assigned parsed other).mpr same)
    simp only [Variables.lookup_set, if_neg different]
  case rest => rfl

theorem exportName_rest (s : Session) (name : Bytes) : Builtin.exportName s name =
    { s with locals := (Builtin.exportName s name).locals, env := (Builtin.exportName s name).env } := by
  obtain ⟨env, only⟩ := Builtin.exportName_only s name
  rw [only]

theorem exportName_handedOn (s : Session) (valid : Variables.validName name = true) :
    HandedOn s [name] (Builtin.exportName s name) := by
  have plain := parseAssignment_named valid
  have ordinary : name ≠ statusVar := by
    rintro rfl
    cases valid
  have resolves : ∀ other, resolve (Builtin.exportName s name).lookups other = resolve s.lookups other := by
    intro other
    have status : (Builtin.exportName s name).lastStatus = s.lastStatus := by rw [exportName_rest]
    rw [resolve_eq, resolve_eq, exportName_locals, exportName_env, status]
    by_cases same : other = name
    · subst same
      cases s.locals.lookup other <;> simp
    · simp [same]
  constructor
  case given =>
    intro other value another last
    have wrong := parseAssignment_name another value
    rw [← lastGiven_single last, plain] at wrong
    cases wrong
  case kept => exact fun other _ => resolves other
  case told =>
    intro only member other handed
    cases List.mem_singleton.mp member
    obtain ⟨_, rfl⟩ := (handsOn_plain plain other).mp handed
    rw [resolves, exportName_env, if_pos rfl, resolve_eq, if_neg ordinary]
  case apart =>
    intro other none
    have different : other ≠ name := by
      intro same
      exact none name (by simp) ((handsOn_plain plain other).mpr ⟨valid, same⟩)
    rw [exportName_env, if_neg different]
  case rest => exact exportName_rest s name

theorem refused_handedOn (s : Session) (refused : ∀ name, ¬HandsOn operand name) : HandedOn s [operand] s := by
  constructor
  case given =>
    intro name value valid last
    exact absurd (lastGiven_single last ▸ .assigned valid) (refused name)
  case kept => exact fun _ _ => rfl
  case told =>
    intro only member name handed
    cases List.mem_singleton.mp member
    exact absurd handed (refused name)
  case apart => exact fun _ _ => rfl
  case rest => rfl

-- Whether an operand hands anything on, and the session behind it.

def accepts (operand : Bytes) : Bool := (Variables.parseAssignment operand).isSome || Variables.validName operand

theorem accepts_iff (operand : Bytes) : accepts operand = true ↔ ∃ name, HandsOn operand name := by
  unfold accepts
  cases parsed : Variables.parseAssignment operand with
  | some parts => simp [handsOn_assigned parsed]
  | none => simp [handsOn_plain parsed]

def handOn (s : Session) (operand : Bytes) : Session :=
  match Variables.parseAssignment operand with
  | some (name, value) => { s with locals := s.locals.set name value, env := s.env.set name value }
  | none => if Variables.validName operand then Builtin.exportName s operand else s

theorem handOn_handedOn (s : Session) (operand : Bytes) : HandedOn s [operand] (handOn s operand) := by
  unfold handOn
  cases parsed : Variables.parseAssignment operand with
  | some parts => exact publish_handedOn s parsed
  | none =>
    by_cases valid : Variables.validName operand = true
    · simpa [valid] using exportName_handedOn s valid
    · have refused : ∀ name, ¬HandsOn operand name := fun name handed => valid ((handsOn_plain parsed name).mp handed).1
      simpa [valid] using refused_handedOn s refused

theorem handOn_refused (s : Session) (refused : accepts operand = false) : handOn s operand = s := by
  unfold accepts at refused
  unfold handOn
  cases parsed : Variables.parseAssignment operand with
  | some parts => simp [parsed] at refused
  | none =>
    simp only [parsed, Option.isSome_none, Bool.false_or] at refused
    simp [refused]

-- All operands, one after the other.

theorem handOnAll_handedOn (operands : List Bytes) (s : Session) : HandedOn s operands (operands.foldl handOn s) := by
  induction operands generalizing s with
  | nil =>
    constructor
    case given =>
      rintro name value _ ⟨front, back, wrong, _⟩
      simp at wrong
    case kept => exact fun _ _ => rfl
    case told => exact fun operand member => nomatch member
    case apart => exact fun _ _ => rfl
    case rest => rfl
  | cons operand others ih => exact (handOn_handedOn s operand).trans (ih (handOn s operand))

theorem exportAll_eq (errors : Option FileId) (command : Bytes) (status : Int) (operands : List Bytes) (s : Session) (w : World) :
    (Builtin.exportAll errors command status operands s w).1 = (if operands.all accepts then status else 1) ∧
      (Builtin.exportAll errors command status operands s w).2.1 = operands.foldl handOn s := by
  induction operands generalizing status s w with
  | nil => exact ⟨rfl, rfl⟩
  | cons operand others ih =>
    unfold Builtin.exportAll
    rw [List.foldl_cons, List.all_cons]
    cases parsed : Variables.parseAssignment operand with
    | some parts =>
      obtain ⟨name, value⟩ := parts
      have accepted : accepts operand = true := by simp [accepts, parsed]
      have next : handOn s operand = { s with locals := s.locals.set name value, env := s.env.set name value } := by
        simp [handOn, parsed]
      rw [accepted, next]
      exact ih status _ w
    | none =>
      dsimp only
      by_cases valid : Variables.validName operand = true
      · have accepted : accepts operand = true := by simp [accepts, valid]
        have next : handOn s operand = Builtin.exportName s operand := by simp [handOn, parsed, valid]
        rw [if_pos valid, accepted, next]
        exact ih status _ w
      · have refused : accepts operand = false := by simp [accepts, parsed, valid]
        obtain ⟨failed, left⟩ := ih 1 s (w.emit errors (command ++ ascii ": " ++ Quoted.encode operand ++
          ascii ": not a valid identifier\n"))
        rw [if_neg valid, refused, handOn_refused s refused]
        exact ⟨failed.trans (by simp), left⟩

-- The names of the environment.

theorem KeptBack.names (back : KeptBack s operands after) (name : Bytes) :
    name ∈ after.env.names ↔ name ∈ s.env.names ∧ name ∉ operands := by
  simp only [Variables.mem_names, Variables.contains, back.env]
  by_cases named : name ∈ operands <;> simp [named]

theorem HandedOn.names (handed : HandedOn s operands after) (name : Bytes) :
    name ∈ after.env.names ↔ name ∈ s.env.names ∨ ∃ operand ∈ operands, HandsOn operand name := by
  simp only [Variables.mem_names, Variables.contains]
  by_cases some : ∃ operand ∈ operands, HandsOn operand name
  · obtain ⟨operand, member, hands⟩ := some
    rw [handed.told operand member name hands]
    simp [show ∃ operand ∈ operands, HandsOn operand name from ⟨operand, member, hands⟩]
  · rw [handed.apart name fun operand member hands => some ⟨operand, member, hands⟩]
    simp [some]

-- The command itself.

variable {runScript : Bytes → Streams → Session → World → (Int × Option Bytes) × Session × World} {parsed : Usage.Parsed}

theorem run_export (read : Builtin.exportVariables.usage.parse [] args = .ok parsed)
    (wanted : parsed.isOn Builtin.letterH = false) (streams : Streams) (s : Session) (w : World) :
    runBuiltin (Builtin.exportVariables.name :: args) streams s w =
      Builtin.exportVariables.perform (sourceScript (runScriptAt s.levels)) parsed streams s w := by
  have found : Builtin.find? Builtin.exportVariables.name = some .exportVariables := by decide +kernel
  exact Builtin.run_performed (Builtin.performed_iff.mpr ⟨found, read, wanted⟩) streams s w

theorem perform_unexport (off : parsed.isOn Builtin.letterN = true) (streams : Streams) (s : Session) (w : World) :
    Builtin.exportVariables.perform runScript parsed streams s w = (0, parsed.operands.foldl Builtin.unexport s, w) := by
  simp [Builtin.perform, off]

theorem perform_export (on : parsed.isOn Builtin.letterN = false) (streams : Streams) (s : Session) (w : World) :
    (Builtin.exportVariables.perform runScript parsed streams s w).1 = (if parsed.operands.all accepts then 0 else 1) ∧
      (Builtin.exportVariables.perform runScript parsed streams s w).2.1 = parsed.operands.foldl handOn s := by
  unfold Builtin.perform
  dsimp only
  rw [if_neg (by simp [on])]
  cases operands : parsed.operands with
  | nil => exact ⟨rfl, rfl⟩
  | cons operand others => exact exportAll_eq _ _ 0 (operand :: others) s w

theorem status_export (operands : List Bytes) :
    ((if operands.all accepts then 0 else 1 : Int) = 1) ↔ ∃ operand ∈ operands, ∀ name, ¬HandsOn operand name := by
  have refusal (operand : Bytes) : ¬accepts operand = true ↔ ∀ name, ¬HandsOn operand name := by
    rw [accepts_iff, not_exists]
  simp only [← refusal]
  by_cases every : operands.all accepts = true
  · simp only [every, if_true]
    simpa using every
  · simp only [every]
    simpa using every

-- Any texts can be operands, behind two dashes.
theorem parse_dashes (operands : List Bytes) :
    Builtin.exportVariables.usage.parse [] (ascii "--" :: operands) = .ok ⟨[], operands⟩ := rfl

theorem parse_keep (operands : List Bytes) : Builtin.exportVariables.usage.parse [] (ascii "-n" :: ascii "--" :: operands) =
    .ok ⟨[(Builtin.letterN, true)], operands⟩ := by
  have letters : Utf8.units [Builtin.letterN] = [.char 0x6E [Builtin.letterN]] := by decide +kernel
  have switches : Builtin.exportVariables.usage.allSwitches = Usage.helpSwitch :: Builtin.exportVariables.usage.switches := by
    simp [Usage.allSwitches, Builtin.usage, List.mergeSort, Usage.helpSwitch, Builtin.letterN]
  have cluster : Builtin.exportVariables.usage.readCluster [] (Utf8.units [Builtin.letterN]) = .ok [(Builtin.letterN, true)] := by
    rw [letters]
    unfold Usage.readCluster Usage.byLetter?
    rw [switches]
    rfl
  have option : ascii "-n" = [0x2D, Builtin.letterN] := by decide
  rw [option, Usage.parse, cluster]
  · rfl
  all_goals simp [Builtin.letterN]

-- With `-n` the operands are names that programs are not told any more, and no variable changes in the shell. Without it
-- they hand variables on; operands that are of no use are told by the status, and without them all is the same.
theorem mexport_exact (read : Builtin.exportVariables.usage.parse [] args = .ok parsed)
    (wanted : parsed.isOn Builtin.letterH = false) (streams : Streams) (s : Session) (w : World) :
    ∃ status after left,
      runBuiltin (Builtin.exportVariables.name :: args) streams s w = (status, after, left) ∧
        (parsed.isOn Builtin.letterN = true → KeptBack s parsed.operands after ∧
          ∀ name, name ∈ after.env.names ↔ name ∈ s.env.names ∧ name ∉ parsed.operands) ∧
        (parsed.isOn Builtin.letterN = false → parsed.operands ≠ [] → HandedOn s parsed.operands after ∧
          (∀ name, name ∈ after.env.names ↔ name ∈ s.env.names ∨ ∃ operand ∈ parsed.operands, HandsOn operand name) ∧
          (status = 0 ∨ status = 1) ∧
          (status = 1 ↔ ∃ operand ∈ parsed.operands, ∀ name, ¬HandsOn operand name) ∧
          ∀ front operand back, parsed.operands = front ++ operand :: back → (∀ name, ¬HandsOn operand name) →
            (runBuiltin (Builtin.exportVariables.name :: ascii "--" :: (front ++ back)) streams s w).2.1 = after) := by
  rcases ran : runBuiltin (Builtin.exportVariables.name :: args) streams s w with ⟨status, after, left⟩
  rw [run_export read wanted] at ran
  refine ⟨status, after, left, rfl, ?_, ?_⟩
  · intro off
    rw [perform_unexport off] at ran
    cases ran
    have back := unexportAll_keptBack parsed.operands s
    exact ⟨back, back.names⟩
  · intro on _
    have done := @perform_export (sourceScript (runScriptAt s.levels)) parsed on streams s w
    rw [ran] at done
    obtain ⟨rfl, rfl⟩ := done
    have handed := handOnAll_handedOn parsed.operands s
    refine ⟨handed, handed.names, ?_, status_export parsed.operands, ?_⟩
    · by_cases every : parsed.operands.all accepts = true <;> simp [every]
    · intro front operand back whole refused
      have useless : accepts operand = false := by
        rw [← Bool.not_eq_true, accepts_iff, not_exists]
        exact refused
      rw [run_export (parse_dashes (front ++ back)) rfl, (perform_export rfl streams s w).2, whole]
      simp only [List.foldl_append, List.foldl_cons, handOn_refused _ useless]

-- Operands that repeat a name, and one that names nothing; and names that are kept back, one of them of no variable.
def oddOperands : List Bytes := [ascii "A=3", ascii "1x", ascii "B", ascii "A=4=", ascii "A"]

theorem mexport_exact_odd :
    (∃ status after left,
      runBuiltin (Builtin.exportVariables.name :: oddOperands) (.ofFiles ⟨some 0, some 1, some 2⟩) exported (console []) =
          (status, after, left) ∧
        resolve after.lookups (ascii "A") = ascii "4=" ∧ after.env.lookup (ascii "A") = some (ascii "4=") ∧
        ascii "B" ∈ after.env.names ∧ status = 1) ∧
    ∃ status after left,
      runBuiltin [Builtin.exportVariables.name, ascii "-n", ascii "--", ascii "A", ascii "C"]
          (.ofFiles ⟨some 0, some 1, some 2⟩) exported (console []) = (status, after, left) ∧
        ascii "A" ∉ after.env.names ∧ resolve after.lookups (ascii "A") = resolve exported.lookups (ascii "A") := by
  constructor
  · have read : Builtin.exportVariables.usage.parse [] oddOperands = .ok ⟨[], oddOperands⟩ := by decide
    obtain ⟨status, after, left, ran, _, handing⟩ :=
      mexport_exact read (by decide) (.ofFiles ⟨some 0, some 1, some 2⟩) exported (console [])
    obtain ⟨handed, names, _, failed, _⟩ := handing (by decide) (by decide)
    have last : LastGiven oddOperands (ascii "A") (ascii "4=") := by
      refine ⟨[ascii "A=3", ascii "1x", ascii "B"], [ascii "A"], by decide, ?_⟩
      intro other member
      cases List.mem_singleton.mp member
    have value := handed.given (ascii "A") (ascii "4=") (by decide) last
    refine ⟨status, after, left, ran, value, ?_, ?_, ?_⟩
    · rw [← value]
      exact handed.told (ascii "A") (by decide) (ascii "A") (.named (by decide))
    · exact (names (ascii "B")).mpr (.inr ⟨ascii "B", by decide, .named (by decide)⟩)
    · have useless : accepts (ascii "1x") ≠ true := by decide
      exact failed.mpr ⟨ascii "1x", by decide, not_exists.mp (mt (accepts_iff _).mpr useless)⟩
  · obtain ⟨status, after, left, ran, keeping, _⟩ :=
      mexport_exact (parse_keep [ascii "A", ascii "C"]) (by decide) (.ofFiles ⟨some 0, some 1, some 2⟩) exported (console [])
    obtain ⟨back, names⟩ := keeping (by decide)
    refine ⟨status, after, left, ran, ?_, back.resolves (ascii "A")⟩
    intro inside
    exact ((names (ascii "A")).mp inside).2 (by decide)

end Session
end LineShell
