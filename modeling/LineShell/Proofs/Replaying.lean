import LineShell.Journal.Entry
import LineShell.Proofs.Reading

namespace LineShell.Entry
open Bytes JsonText

-- A text that begins with an entry, blanks in front of it allowed, and what stands behind it.
def Heads (text : Bytes) (e : Entry) (rest : Bytes) : Prop :=
  ∃ before fields body, text = before ++ (body ++ rest) ∧ Blank before ∧ Spells depthLimit (.object fields) body ∧
    ofTree (.object fields) = .ok e

-- A text that begins with these entries, one after another, and what is left behind them.
inductive Entries : Bytes → List Entry → Bytes → Prop where
  | none : Entries text [] text
  | more (first : Heads text e rest) (later : Entries rest es left) : Entries text (e :: es) left

-- Behind blanks, a text ends or goes on with a bracket or a brace that closes nothing.
def Stopped (text : Bytes) : Prop :=
  Blank text ∨ ∃ before c rest, text = before ++ c :: rest ∧ Blank before ∧ (c = 0x5D ∨ c = 0x7D)

theorem ofTree_object (entry : ofTree tree = .ok e) : ∃ fields, tree = .object fields := by
  unfold ofTree at entry
  split at entry
  · cases entry
  · split at entry
    · cases entry
    · rename_i understood
      cases tree with
      | object fields => exact ⟨fields, rfl⟩
      | number =>
        simp only [Value.ofTree] at understood
        split at understood <;> cases understood
      | string =>
        obtain ⟨_, _, same⟩ := map_ok.mp understood
        cases same
      | array =>
        obtain ⟨_, _, same⟩ := map_ok.mp understood
        cases same
      | _ => cases understood
    · cases entry

theorem ofFields_kind (entry : ofFields? fields = some e) : e.kind ≠ [] := by
  unfold ofFields? at entry
  dsimp only at entry
  split at entry
  · cases entry
  · rename_i kind
    cases entry
    simpa using kind

-- No entry is without a kind.
theorem ofTree_kind (entry : ofTree tree = .ok e) : e.kind ≠ [] := by
  unfold ofTree at entry
  split at entry
  · cases entry
  · split at entry
    · cases entry
    · split at entry
      · rename_i found
        cases entry
        exact ofFields_kind found
      · cases entry
    · cases entry

theorem Entries.kinds (entries : Entries text es left) : ∀ e ∈ es, e.kind ≠ [] := by
  induction entries with
  | none => simp
  | more first _ ih =>
    obtain ⟨_, _, _, _, _, _, entry⟩ := first
    exact List.forall_mem_cons.mpr ⟨ofTree_kind entry, ih⟩

-- What a text that begins with an entry looks like to the reader.
theorem Heads.read (heads : Heads text e rest) :
    ∃ more tree, skipBlanks text = 0x7B :: more ∧ read (0x7B :: more) = .ok (tree, rest) ∧ ofTree tree = .ok e := by
  obtain ⟨before, fields, body, rfl, front, spelled, entry⟩ := heads
  have taken : JsonText.read ([] ++ (body ++ rest)) = _ := read_complete (by simp [Blank]) spelled trivial
  have braced : ∃ more, body ++ rest = 0x7B :: more := by cases spelled <;> exact ⟨_, rfl⟩
  obtain ⟨more, same⟩ := braced
  rw [List.nil_append, same] at taken
  exact ⟨more, _, by rw [skipBlanks_append front, same, skipBlanks_solid rfl], taken, entry⟩

theorem Heads.unique (heads : Heads text e rest) (other : Heads text e' rest') : e = e' ∧ rest = rest' := by
  obtain ⟨more, tree, skipped, taken, entry⟩ := heads.read
  obtain ⟨more', tree', skipped', taken', entry'⟩ := other.read
  rw [skipped] at skipped'
  cases skipped'
  rw [taken] at taken'
  cases taken'
  rw [entry] at entry'
  cases entry'
  exact ⟨rfl, rfl⟩

-- The entries a text begins with are determined, if none is left.
theorem Entries.unique (entries : Entries text es left) (none : ∀ e rest, ¬Heads left e rest)
    (others : Entries text es' left') (none' : ∀ e rest, ¬Heads left' e rest) : es = es' ∧ left = left' := by
  induction entries generalizing es' with
  | none =>
    cases others with
    | none => exact ⟨rfl, rfl⟩
    | more first => exact absurd first (none _ _)
  | more first _ ih =>
    cases others with
    | none => exact absurd first (none' _ _)
    | more first' later' =>
      obtain ⟨rfl, rfl⟩ := first.unique first'
      obtain ⟨rfl, rfl⟩ := ih none later'
      exact ⟨rfl, rfl⟩

theorem heads_of_read (skipped : skipBlanks text = c :: rest) (taken : JsonText.read (c :: rest) = .ok (tree, behind))
    (entry : ofTree tree = .ok e) : Heads text e behind ∧ behind.length < text.length := by
  obtain ⟨_, front, blank, rfl⟩ := skipBlanks_cons skipped
  obtain ⟨before, body, parts, gap, spelled⟩ := read_sound taken
  obtain ⟨first, more, rfl, _⟩ := spells_head spelled
  obtain ⟨fields, rfl⟩ := ofTree_object entry
  rw [parts]
  refine ⟨⟨front ++ before, fields, _, by simp, ?_, spelled, entry⟩, ?_⟩
  · exact fun c member => (List.mem_append.mp member).elim (blank c) (gap c)
  · simp only [List.length_append, List.length_cons]
    omega

theorem not_heads_blank (blank : skipBlanks text = []) : ¬Heads text e rest := by
  intro heads
  obtain ⟨_, _, skipped, _⟩ := heads.read
  rw [blank] at skipped
  cases skipped

theorem not_heads_closed (skipped : skipBlanks text = c :: behind) (closed : c = 0x5D ∨ c = 0x7D) : ¬Heads text e rest := by
  intro heads
  obtain ⟨_, _, braced, _⟩ := heads.read
  rw [skipped] at braced
  cases braced
  rcases closed with same | same <;> cases same

-- Whether reading stops in front of a text is seen behind its blanks.
theorem stopped_iff : Stopped text ↔ skipBlanks text = [] ∨ ∃ c rest, skipBlanks text = c :: rest ∧ (c = 0x5D ∨ c = 0x7D) := by
  constructor
  · rintro (blank | ⟨before, c, rest, rfl, blank, closed⟩)
    · exact .inl (skipBlanks_nil.mpr blank)
    · refine .inr ⟨c, rest, ?_, closed⟩
      rw [skipBlanks_append blank]
      rcases closed with rfl | rfl <;> exact skipBlanks_solid rfl
  · rintro (blank | ⟨c, rest, skipped, closed⟩)
    · exact .inl (skipBlanks_nil.mp blank)
    · obtain ⟨_, before, blank, parts⟩ := skipBlanks_cons skipped
      exact .inr ⟨before, c, rest, parts, blank, closed⟩

theorem not_stopped (skipped : skipBlanks text = c :: rest) (other : ¬(c = 0x5D ∨ c = 0x7D)) : ¬Stopped text := by
  rw [stopped_iff, skipped]
  rintro (same | ⟨_, _, same, closed⟩)
  · cases same
  · cases same
    exact other closed

-- What the values at the start of a text come to, with enough fuel for all of them.
theorem valuesFrom_entries (enough : text.length < fuel) (read : valuesFrom fuel text = (found, ending))
    (stand : ofTrees (found.map (·.1)) = (es, fault)) :
    ∃ left, Entries text es left ∧ (∀ e rest, ¬Heads left e rest) ∧
      ((fault = none ∧ ∃ behind, ending = .ok behind) ↔ Stopped left) := by
  induction fuel generalizing text found es with
  | zero => omega
  | succ fuel ih =>
    unfold valuesFrom at read
    split at read
    · rename_i blank
      cases read
      cases stand
      exact ⟨text, .none, fun _ _ => not_heads_blank blank, by simp [stopped_iff, blank]⟩
    · rename_i c rest skipped
      split at read
      · rename_i closed
        simp only [Bool.or_eq_true, decide_eq_true_eq] at closed
        cases read
        cases stand
        refine ⟨text, .none, fun _ _ => not_heads_closed skipped closed, ?_⟩
        exact ⟨fun _ => stopped_iff.mpr (.inr ⟨c, rest, skipped, closed⟩), fun _ => ⟨rfl, _, rfl⟩⟩
      · rename_i other
        simp only [Bool.or_eq_true, decide_eq_true_eq] at other
        have going := not_stopped skipped other
        split at read
        · rename_i problem failed
          cases read
          cases stand
          refine ⟨text, .none, fun e rest heads => ?_, by simp [going]⟩
          obtain ⟨_, _, same, taken, _⟩ := heads.read
          rw [skipped] at same
          rw [same, taken] at failed
          cases failed
        · rename_i tree behind taken
          split at read
          rename_i later ending' more
          cases read
          simp only [List.map_cons, ofTrees] at stand
          split at stand
          · rename_i refused
            cases stand
            refine ⟨text, .none, fun e rest heads => ?_, by simp [going]⟩
            obtain ⟨_, _, same, taken', entry⟩ := heads.read
            rw [skipped] at same
            rw [same, taken'] at taken
            cases taken
            rw [refused] at entry
            cases entry
          · rename_i e entry
            cases stand
            obtain ⟨first, shorter⟩ := heads_of_read skipped taken entry
            obtain ⟨left, entries, none, stops⟩ := ih (by omega) more rfl
            exact ⟨left, .more first entries, none, stops⟩

theorem readAll_cut (log : Bytes) : ∃ left, Entries log (readAll log).1 left ∧ (∀ e rest, ¬Heads left e rest) ∧
    ((readAll log).2 = none ↔ Stopped left) := by
  cases read : valuesFrom (log.length + 1) log with
  | mk found ending =>
    cases stand : ofTrees (found.map (·.1)) with
    | mk es fault =>
      obtain ⟨left, entries, none, stops⟩ := valuesFrom_entries (Nat.lt_succ_self _) read stand
      have handled : (readAll log).1 = es := by
        simp only [readAll, values, read, stand]
        cases fault <;> cases ending <;> rfl
      have faultless : (readAll log).2 = Option.none ↔ fault = Option.none ∧ ∃ behind, ending = .ok behind := by
        simp only [readAll, values, read, stand]
        cases fault <;> cases ending <;> simp [Except.mapError]
      rw [handled]
      exact ⟨left, entries, none, faultless.trans stops⟩

-- However a log is cut into entries and something that begins with none, these are the entries that are read.
theorem readAll_of_entries (entries : Entries log es left) (none : ∀ e rest, ¬Heads left e rest) :
    (readAll log).1 = es ∧ ((readAll log).2 = Option.none ↔ Stopped left) := by
  obtain ⟨left', entries', none', stops⟩ := readAll_cut log
  obtain ⟨same, rfl⟩ := entries'.unique none' entries none
  exact ⟨same, stops⟩

-- Reading ends without a fault in front of a closing bracket or brace, whatever stands behind it.
theorem readAll_entries (log : Bytes) : ∃ left, Entries log (readAll log).1 left ∧ (∀ e rest, ¬Heads left e rest) ∧
    (∀ e ∈ (readAll log).1, e.kind ≠ []) ∧ ((readAll log).2 = none ↔ Stopped left) := by
  obtain ⟨left, entries, none, stops⟩ := readAll_cut log
  exact ⟨left, entries, none, entries.kinds, stops⟩

-- A whole entry behind a bracket that closes nothing.
def halved : Bytes := ascii "\x7b\x22type\x22:\x22a\x22\x7d]\x7b\x22type\x22:\x22b\x22\x7d"

-- The second entry is dropped, and there is no fault.
theorem readAll_entries_dropped : (readAll halved).1.map (·.kind) = [ascii "a"] ∧ (readAll halved).2 = none ∧
    ¬∃ es left, Entries halved es left ∧ Blank left := by
  refine ⟨by decide +kernel, by decide +kernel, ?_⟩
  rintro ⟨es, left, entries, blank⟩
  have solid : skipBlanks halved = halved := by decide +kernel
  cases entries with
  | none => exact absurd (skipBlanks_nil.mpr blank) (by decide +kernel)
  | more first later =>
    obtain ⟨more, tree, skipped, taken, _⟩ := first.read
    rw [← skipped, solid] at taken
    have behind : (JsonText.read halved).toOption.map (·.2) = some (ascii "]\x7b\x22type\x22:\x22b\x22\x7d") := by decide +kernel
    rw [taken] at behind
    cases behind
    cases later with
    | none => exact absurd (skipBlanks_nil.mpr blank) (by decide +kernel)
    | more second => exact absurd second (not_heads_closed (c := 0x5D) rfl (.inl rfl))

end LineShell.Entry
