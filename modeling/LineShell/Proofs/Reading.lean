import LineShell.Proofs.Spelling

-- Both directions go by induction on the fuel, for values, items and fields at a time.
namespace LineShell.JsonText
open Bytes

-- What the reader takes with some fuel is spelled as the grammar has it.
def SoundValue (fuel : Nat) : Prop := ∀ {depth text tree rest}, readValue depth fuel text = .ok (tree, rest) →
  ∃ before body, text = before ++ (body ++ rest) ∧ Blank before ∧ Spells (depthLimit - depth) tree body

def SoundItems (fuel : Nat) : Prop := ∀ {depth text items rest}, readItems depth fuel text = .ok (items, rest) →
  ∃ body, text = body ++ 0x5D :: rest ∧ SpellsItems (depthLimit - depth) items body

def SoundFields (fuel : Nat) : Prop := ∀ {depth text fields rest}, readFields depth fuel text = .ok (fields, rest) →
  ∃ body, text = body ++ 0x7D :: rest ∧ SpellsFields (depthLimit - depth) fields body

theorem room_inside {depth : Nat} (shallow : ¬depthLimit ≤ depth) : depthLimit - depth = depthLimit - (depth + 1) + 1 := by
  omega

-- A value is followed by blanks and by a byte that is none.
theorem loosely (sound : SoundValue fuel) (read : readValue depth fuel text = .ok (tree, behind))
    (skipped : skipBlanks behind = c :: rest) :
    ∃ body, text = body ++ c :: rest ∧ SpellsLoosely (depthLimit - depth) tree body := by
  obtain ⟨before, body, rfl, front, spelled⟩ := sound read
  obtain ⟨_, after, back, rfl⟩ := skipBlanks_cons skipped
  exact ⟨_, by simp, .intro front spelled back⟩

theorem soundItems (value : SoundValue fuel) (items : SoundItems fuel) : SoundItems (fuel + 1) := by
  intro depth text found rest read
  unfold readItems at read
  split at read
  · cases read
  · rename_i item behind first
    split at read
    · cases read
    · rename_i c after skipped
      obtain ⟨body, rfl, spelled⟩ := loosely value first skipped
      split at read
      · rename_i comma
        subst comma
        obtain ⟨⟨more, later⟩, second, same⟩ := map_ok.mp read
        cases same
        obtain ⟨inner, rfl, others⟩ := items second
        exact ⟨_, by simp, .more spelled others⟩
      · split at read
        · rename_i closed
          subst closed
          cases read
          exact ⟨_, rfl, .last spelled⟩
        · cases read

theorem soundFields (value : SoundValue fuel) (fields : SoundFields fuel) : SoundFields (fuel + 1) := by
  intro depth text found rest read
  unfold readFields at read
  split at read
  · cases read
  · rename_i q inside start
    obtain ⟨_, before, front, rfl⟩ := skipBlanks_cons start
    split at read
    · cases read
    · rename_i quoted
      rw [Decidable.not_not] at quoted
      subst quoted
      split at read
      · cases read
      · rename_i key afterKey keyRead
        obtain ⟨_, rfl, raw, rfl⟩ := readString_sound keyRead
        split at read
        · cases read
        · rename_i c afterColon keyEnd
          obtain ⟨_, gap, between, rfl⟩ := skipBlanks_cons keyEnd
          split at read
          · cases read
          · rename_i isColon
            rw [Decidable.not_not] at isColon
            subst isColon
            split at read
            · cases read
            · rename_i tree behind first
              split at read
              · cases read
              · rename_i d after skipped
                obtain ⟨body, rfl, spelled⟩ := loosely value first skipped
                have field := SpellsField.intro front raw between spelled
                split at read
                · rename_i comma
                  subst comma
                  obtain ⟨⟨more, later⟩, second, same⟩ := map_ok.mp read
                  cases same
                  obtain ⟨inner, rfl, others⟩ := fields second
                  exact ⟨_, by simp, .more field others⟩
                · split at read
                  · rename_i closed
                    subst closed
                    cases read
                    exact ⟨_, by simp, .last field⟩
                  · cases read

-- Blanks may stand in front of the first item and of the first field.
theorem SpellsLoosely.behind (gap : Blank blanks) (value : SpellsLoosely room tree text) :
    SpellsLoosely room tree (blanks ++ text) := by
  obtain ⟨front, spelled, back⟩ := value
  rw [← List.append_assoc]
  exact .intro (fun c member => (List.mem_append.mp member).elim (gap c) (front c)) spelled back

theorem SpellsItems.behind (gap : Blank blanks) (items : SpellsItems room trees text) :
    SpellsItems room trees (blanks ++ text) := by
  cases items with
  | last item => exact .last (item.behind gap)
  | more item later =>
    rw [← List.append_assoc]
    exact .more (item.behind gap) later

theorem SpellsField.behind (gap : Blank blanks) (field : SpellsField room pair text) :
    SpellsField room pair (blanks ++ text) := by
  obtain ⟨front, key, between, value⟩ := field
  rw [← List.append_assoc]
  exact .intro (fun c member => (List.mem_append.mp member).elim (gap c) (front c)) key between value

theorem SpellsFields.behind (gap : Blank blanks) (fields : SpellsFields room pairs text) :
    SpellsFields room pairs (blanks ++ text) := by
  cases fields with
  | last field => exact .last (field.behind gap)
  | more field later =>
    rw [← List.append_assoc]
    exact .more (field.behind gap) later

theorem soundValue (items : SoundItems fuel) (fields : SoundFields fuel) : SoundValue (fuel + 1) := by
  intro depth text tree rest read
  unfold readValue at read
  split at read
  · cases read
  · rename_i c behind start
    obtain ⟨_, before, front, rfl⟩ := skipBlanks_cons start
    suffices ∃ body, c :: behind = body ++ rest ∧ Spells (depthLimit - depth) tree body by
      obtain ⟨body, same, spelled⟩ := this
      exact ⟨before, body, by rw [same], front, spelled⟩
    obtain ⟨gap, blank, parts⟩ := skipBlanks_parts behind
    split at read
    · rename_i quoted
      subst quoted
      obtain ⟨_, found, same⟩ := map_ok.mp read
      cases same
      obtain ⟨raw, same, spelled, rfl⟩ := readString_sound found
      rw [same]
      exact ⟨_, by simp, .string spelled⟩
    · split at read
      · rename_i opened
        subst opened
        split at read
        · cases read
        · rename_i shallow
          rw [room_inside shallow]
          split at read
          · rename_i after closed
            cases read
            rw [closed] at parts
            exact ⟨_, by simp [parts], .emptyObject blank⟩
          · obtain ⟨_, found, same⟩ := map_ok.mp read
            cases same
            obtain ⟨inner, same, spelled⟩ := fields found
            rw [same] at parts
            exact ⟨_, by simp [parts], .object (spelled.behind blank)⟩
      · split at read
        · rename_i opened
          subst opened
          split at read
          · cases read
          · rename_i shallow
            rw [room_inside shallow]
            split at read
            · rename_i after closed
              cases read
              rw [closed] at parts
              exact ⟨_, by simp [parts], .emptyList blank⟩
            · obtain ⟨_, found, same⟩ := map_ok.mp read
              cases same
              obtain ⟨inner, same, spelled⟩ := items found
              rw [same] at parts
              exact ⟨_, by simp [parts], .list (spelled.behind blank)⟩
        · split at read
          · rename_i first
            obtain ⟨rfl, rfl⟩ := readLiteral_sound read
            rw [first]
            exact ⟨_, rfl, .true⟩
          · split at read
            · rename_i first
              obtain ⟨rfl, rfl⟩ := readLiteral_sound read
              rw [first]
              exact ⟨_, rfl, .false⟩
            · split at read
              · rename_i first
                obtain ⟨rfl, rfl⟩ := readLiteral_sound read
                rw [first]
                exact ⟨_, rfl, .null⟩
              · split at read
                · obtain ⟨_, found, same⟩ := map_ok.mp read
                  cases same
                  obtain ⟨numeral, same⟩ := readNumber_sound found
                  exact ⟨_, same, .number numeral⟩
                · split at read <;> cases read

theorem sound (fuel : Nat) : SoundValue fuel ∧ SoundItems fuel ∧ SoundFields fuel := by
  induction fuel with
  | zero =>
    refine ⟨?_, ?_, ?_⟩
    · intro depth text tree rest read
      cases read
    · intro depth text items rest read
      cases read
    · intro depth text fields rest read
      cases read
  | succ fuel ih =>
    obtain ⟨value, items, fields⟩ := ih
    exact ⟨soundValue items fields, soundItems value items, soundFields value fields⟩

theorem read_sound (taken : read text = .ok (tree, rest)) :
    ∃ before body, text = before ++ (body ++ rest) ∧ Blank before ∧ Spells depthLimit tree body := (sound _).1 taken

-- A numeral has to be followed by something that ends it, other values need not.
def Bounded : Tree → Bytes → Prop
  | .number _, rest => Ends rest
  | _, _ => True

-- What the grammar spells is taken, and nothing behind it, with twice as much fuel as there are bytes.
def CompleteValue (fuel : Nat) : Prop := ∀ {depth tree body rest}, Spells (depthLimit - depth) tree body →
  2 * body.length ≤ fuel → Bounded tree rest → readValue depth fuel (body ++ rest) = .ok (tree, rest)

def CompleteItems (fuel : Nat) : Prop := ∀ {depth items body rest}, SpellsItems (depthLimit - depth) items body →
  2 * body.length + 1 ≤ fuel → readItems depth fuel (body ++ 0x5D :: rest) = .ok (items, rest)

def CompleteFields (fuel : Nat) : Prop := ∀ {depth fields body rest}, SpellsFields (depthLimit - depth) fields body →
  2 * body.length + 1 ≤ fuel → readFields depth fuel (body ++ 0x7D :: rest) = .ok (fields, rest)

-- The bytes that may follow a value and blanks.
def isMark (c : UInt8) : Bool := c = 0x2C || c = 0x5D || c = 0x7D

theorem mark_solid (mark : isMark c = true) : isBlank c = false := by
  simp only [isMark, Bool.or_eq_true, decide_eq_true_eq] at mark
  rcases mark with (rfl | rfl) | rfl <;> decide

theorem mark_ends (mark : isMark c = true) : Ends (c :: rest) := by
  simp only [isMark, Bool.or_eq_true, decide_eq_true_eq] at mark
  rintro _ ⟨⟩
  rcases mark with (rfl | rfl) | rfl <;> decide

theorem blank_ends (blank : Blank (c :: rest)) : Ends (c :: rest') := by
  have first := blank c List.mem_cons_self
  simp only [isBlank, Bool.or_eq_true, decide_eq_true_eq] at first
  rintro _ ⟨⟩
  rcases first with ((rfl | rfl) | rfl) | rfl <;> decide

theorem bounded_behind (back : Blank after) (mark : isMark c = true) : Bounded tree (after ++ c :: rest) := by
  cases tree with
  | number =>
    cases after with
    | nil => exact mark_ends mark
    | cons => exact blank_ends back
  | _ => trivial

theorem readValue_behind (front : Blank before) : readValue depth fuel (before ++ text) = readValue depth fuel text := by
  cases fuel with
  | zero => rfl
  | succ => rw [readValue, readValue, skipBlanks_append front]

theorem completeLoosely (complete : CompleteValue fuel) (loose : SpellsLoosely (depthLimit - depth) tree text)
    (enough : 2 * text.length ≤ fuel) (mark : isMark c = true) (rest : Bytes) :
    ∃ behind, readValue depth fuel (text ++ c :: rest) = .ok (tree, behind) ∧ skipBlanks behind = c :: rest := by
  obtain @⟨before, _, _, body, after, front, spelled, back⟩ := loose
  refine ⟨after ++ c :: rest, ?_, ?_⟩
  · rw [List.append_assoc, List.append_assoc, readValue_behind front]
    refine complete spelled ?_ (bounded_behind back mark)
    simp only [List.length_append] at enough
    omega
  · rw [skipBlanks_append back, skipBlanks_solid (mark_solid mark)]

theorem completeItems (value : CompleteValue fuel) (items : CompleteItems fuel) : CompleteItems (fuel + 1) := by
  intro depth found body rest spelled enough
  cases spelled with
  | last item =>
    obtain ⟨behind, first, skipped⟩ := completeLoosely (c := 0x5D) value item (by omega) rfl rest
    simp only [readItems, first, skipped]
    rfl
  | @more _ tree text trees others item later =>
    simp only [List.length_append, List.length_cons] at enough
    obtain ⟨behind, first, skipped⟩ := completeLoosely (c := 0x2C) value item (by omega) rfl (others ++ 0x5D :: rest)
    rw [List.append_assoc, List.cons_append]
    simp only [readItems, first, skipped, items later (by omega : 2 * others.length + 1 ≤ fuel)]
    rfl

-- The reader in front of a field.
theorem readFields_field (value : CompleteValue fuel) (field : SpellsField (depthLimit - depth) pair text)
    (enough : 2 * text.length ≤ fuel) (mark : isMark c = true) :
    readFields depth (fuel + 1) (text ++ c :: rest) =
      if c = 0x2C then (readFields depth fuel rest).map fun found => (pair :: found.1, found.2)
      else if c = 0x7D then .ok ([pair], rest)
      else refuse .afterField c rest := by
  obtain @⟨before, name, gap, _, tree, text, front, key, between, loose⟩ := field
  simp only [List.length_append, List.length_cons] at enough
  obtain ⟨behind, first, skipped⟩ := completeLoosely value loose (by omega) mark rest
  have start : skipBlanks (before ++ doubleQuote :: (name ++ doubleQuote :: (gap ++ colon :: text)) ++ c :: rest) =
      doubleQuote :: (name ++ doubleQuote :: (gap ++ colon :: (text ++ c :: rest))) := by
    rw [List.append_assoc, skipBlanks_append front, List.cons_append, skipBlanks_solid rfl]
    simp
  have keyEnd : skipBlanks (gap ++ colon :: (text ++ c :: rest)) = colon :: (text ++ c :: rest) := by
    rw [skipBlanks_append between, skipBlanks_solid rfl]
  simp only [readFields, start, readString_complete key, keyEnd, first, skipped]
  rfl

theorem completeFields (value : CompleteValue fuel) (fields : CompleteFields fuel) : CompleteFields (fuel + 1) := by
  intro depth found body rest spelled enough
  cases spelled with
  | last field =>
    rw [readFields_field value field (by omega) rfl]
    rfl
  | @more _ pair text pairs others field later =>
    simp only [List.length_append, List.length_cons] at enough
    rw [List.append_assoc, List.cons_append, readFields_field value field (by omega) rfl,
      fields later (by omega : 2 * others.length + 1 ≤ fuel)]
    rfl

theorem numeral_head (numeral : Numeral text) : ∃ c rest, text = c :: rest ∧ (c = 0x2D ∨ isDigit c = true) := by
  obtain ⟨sign, whole, _, _⟩ := numeral
  obtain ⟨c, rest, rfl, digit⟩ := whole_head whole
  rcases sign with rfl | rfl
  · exact ⟨c, _, rfl, .inr digit⟩
  · exact ⟨0x2D, _, rfl, .inl rfl⟩

theorem numeral_first (first : c = 0x2D ∨ isDigit c = true) (other : UInt8) (minus : other ≠ 0x2D)
    (digit : isDigit other = false) : c ≠ other := by
  rintro rfl
  rcases first with rfl | same
  · exact minus rfl
  · rw [digit] at same
    cases same

-- A value begins with no blank and with nothing that may follow one.
theorem spells_head (spelled : Spells room tree text) : ∃ c rest, text = c :: rest ∧ isBlank c = false ∧ isMark c = false := by
  cases spelled with
  | number numeral =>
    obtain ⟨c, rest, rfl, first⟩ := numeral_head numeral
    have other := numeral_first first
    refine ⟨c, rest, rfl, ?_, ?_⟩
    · simp [isBlank, other 0x20, other 0x09, other 0x0A, other 0x0D, isDigit]
    · simp [isMark, other 0x2C, other 0x5D, other 0x7D, isDigit]
  | _ => exact ⟨_, _, rfl, by decide, by decide⟩

theorem items_head (items : SpellsItems room trees text) (behind : Bytes) :
    ∃ c rest, skipBlanks (text ++ behind) = c :: rest ∧ isMark c = false := by
  have loose : ∀ {tree text} (_ : SpellsLoosely room tree text) (behind : Bytes),
      ∃ c rest, skipBlanks (text ++ behind) = c :: rest ∧ isMark c = false := by
    rintro _ _ ⟨front, spelled, _⟩ behind
    obtain ⟨c, rest, rfl, solid, other⟩ := spells_head spelled
    rw [List.append_assoc, skipBlanks_append front]
    exact ⟨c, _, skipBlanks_solid solid, other⟩
  cases items with
  | last item => exact loose item behind
  | more item =>
    rw [List.append_assoc]
    exact loose item _

theorem fields_head (fields : SpellsFields room pairs text) (behind : Bytes) :
    ∃ rest, skipBlanks (text ++ behind) = doubleQuote :: rest := by
  have field : ∀ {pair text} (_ : SpellsField room pair text) (behind : Bytes),
      ∃ rest, skipBlanks (text ++ behind) = doubleQuote :: rest := by
    rintro _ _ ⟨front, _, _, _⟩ behind
    rw [List.append_assoc, skipBlanks_append front]
    exact ⟨_, skipBlanks_solid rfl⟩
  cases fields with
  | last first => exact field first behind
  | more first =>
    rw [List.append_assoc]
    exact field first _

theorem readItems_behind : readItems depth fuel (skipBlanks text) = readItems depth fuel text := by
  cases fuel with
  | zero => rfl
  | succ fuel =>
    obtain ⟨before, blank, parts⟩ := skipBlanks_parts text
    have same : readValue depth fuel (skipBlanks text) = readValue depth fuel text := by
      conv => rhs; rw [parts]
      exact (readValue_behind blank).symm
    rw [readItems, readItems, same]

theorem readFields_behind : readFields depth fuel (skipBlanks text) = readFields depth fuel text := by
  cases fuel with
  | zero => rfl
  | succ =>
    obtain ⟨before, blank, parts⟩ := skipBlanks_parts text
    have same : skipBlanks (skipBlanks text) = skipBlanks text := by
      conv => rhs; rw [parts]
      exact (skipBlanks_append blank).symm
    rw [readFields, readFields, same]

theorem readValue_list (shallow : ¬depthLimit ≤ depth) (first : skipBlanks text = c :: rest) (other : isMark c = false) :
    readValue depth (fuel + 1) (0x5B :: text) =
      (readItems (depth + 1) fuel text).map fun found => (.array found.1, found.2) := by
  have quote : ¬(0x5B : UInt8) = doubleQuote := by decide
  have brace : ¬(0x5B : UInt8) = 0x7B := by decide
  rw [← readItems_behind, readValue, skipBlanks_solid rfl]
  simp only [if_neg quote, if_neg brace, if_neg shallow, if_true, first]
  split
  · rename_i same
    cases same
    cases other
  · rfl

theorem readValue_object (shallow : ¬depthLimit ≤ depth) (first : skipBlanks text = doubleQuote :: rest) :
    readValue depth (fuel + 1) (0x7B :: text) =
      (readFields (depth + 1) fuel text).map fun found => (.object found.1, found.2) := by
  rw [← readFields_behind, readValue, skipBlanks_solid rfl]
  simp only [if_neg shallow, first]
  rfl

theorem completeValue (items : CompleteItems fuel) (fields : CompleteFields fuel) : CompleteValue (fuel + 1) := by
  intro depth tree body rest spelled enough bounded
  have start : skipBlanks (body ++ rest) = body ++ rest := by
    obtain ⟨c, more, rfl, solid, _⟩ := spells_head spelled
    exact skipBlanks_solid solid
  generalize room : depthLimit - depth = r at spelled
  cases spelled with
  | null =>
    rw [readValue, start]
    exact readLiteral_complete "null" .null ['u', 'l', 'l'] rest (by decide)
  | true =>
    rw [readValue, start]
    exact readLiteral_complete "true" (.bool true) ['r', 'u', 'e'] rest (by decide)
  | false =>
    rw [readValue, start]
    exact readLiteral_complete "false" (.bool false) ['a', 'l', 's', 'e'] rest (by decide)
  | number numeral =>
    have taken := readNumber_complete numeral bounded
    obtain ⟨c, more, rfl, first⟩ := numeral_head numeral
    have other := numeral_first first
    rw [readValue, start]
    simp only [List.cons_append] at taken ⊢
    rw [if_neg (other _ (by decide) (by decide)), if_neg (other _ (by decide) (by decide)),
      if_neg (other _ (by decide) (by decide)), if_neg (other _ (by decide) (by decide)),
      if_neg (other _ (by decide) (by decide)), if_neg (other _ (by decide) (by decide)),
      if_pos (by simpa using first), taken]
    rfl
  | string raw =>
    rw [readValue, start]
    simp only [List.cons_append, List.append_assoc, if_true, List.nil_append, readString_complete raw]
    rfl
  | emptyList gap =>
    have shallow : ¬depthLimit ≤ depth := by omega
    rw [readValue, start]
    simp only [List.cons_append, List.append_assoc, List.nil_append, if_neg shallow, skipBlanks_append gap]
    rfl
  | @list r _ text inner =>
    have shallow : ¬depthLimit ≤ depth := by omega
    have inside : depthLimit - (depth + 1) = r := by omega
    obtain ⟨c, more, first, other⟩ := items_head inner (0x5D :: rest)
    rw [List.cons_append, List.append_assoc, List.singleton_append, readValue_list shallow first other,
      items (inside ▸ inner) (by simp only [List.length_cons, List.length_append] at enough; omega)]
    rfl
  | emptyObject gap =>
    have shallow : ¬depthLimit ≤ depth := by omega
    rw [readValue, start]
    simp only [List.cons_append, List.append_assoc, List.nil_append, if_neg shallow, skipBlanks_append gap]
    rfl
  | @object r _ text inner =>
    have shallow : ¬depthLimit ≤ depth := by omega
    have inside : depthLimit - (depth + 1) = r := by omega
    obtain ⟨more, first⟩ := fields_head inner (0x7D :: rest)
    rw [List.cons_append, List.append_assoc, List.singleton_append, readValue_object shallow first,
      fields (inside ▸ inner) (by simp only [List.length_cons, List.length_append] at enough; omega)]
    rfl

theorem complete (fuel : Nat) : CompleteValue fuel ∧ CompleteItems fuel ∧ CompleteFields fuel := by
  induction fuel with
  | zero =>
    refine ⟨?_, ?_, ?_⟩
    · intro depth tree body rest spelled enough
      obtain ⟨c, more, rfl, _⟩ := spells_head spelled
      simp at enough
    · intro depth items body rest spelled enough
      omega
    · intro depth fields body rest spelled enough
      omega
  | succ fuel ih =>
    obtain ⟨value, items, fields⟩ := ih
    exact ⟨completeValue items fields, completeItems value items, completeFields value fields⟩

theorem read_complete (front : Blank before) (spelled : Spells depthLimit tree body) (bounded : Bounded tree rest) :
    read (before ++ (body ++ rest)) = .ok (tree, rest) := by
  rw [read, readValue_behind front]
  refine (complete _).1 spelled ?_ bounded
  simp only [List.length_append]
  omega

end LineShell.JsonText
