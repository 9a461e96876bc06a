import Mathlib.Data.List.TakeDrop
import Mathlib.Data.List.TakeWhile
import LineShell.JsonText.Basic

-- A grammar knows of no positions and no fuel; how deep a value may be nested is the room it is given.
namespace LineShell.JsonText
open Bytes

-- Nothing but blanks.
def Blank (text : Bytes) : Prop := ∀ c ∈ text, isBlank c = true

-- What may stand between the quotes of a string.
inductive Raw : Bytes → Prop where
  | nil : Raw []
  | plain (visible : ¬c < 0x20) (open_ : c ≠ doubleQuote) (unescaped : c ≠ backslash) (later : Raw rest) : Raw (c :: rest)
  | letter (known : (ascii "bfnrt\\/\"").contains e = true) (later : Raw rest) : Raw (backslash :: e :: rest)
  | unicode (digits : [a, b, d, e].all isHex = true) (later : Raw rest) : Raw (backslash :: 0x75 :: a :: b :: d :: e :: rest)

-- Digits, at least one.
def Figures (text : Bytes) : Prop := text ≠ [] ∧ ∀ c ∈ text, isDigit c = true

inductive Whole : Bytes → Prop where
  | zero : Whole [0x30]
  | positive (first : c ≠ 0x30) (figures : Figures (c :: rest)) : Whole (c :: rest)

inductive Fraction : Bytes → Prop where
  | none : Fraction []
  | some (figures : Figures text) : Fraction (0x2E :: text)

inductive Exponent : Bytes → Prop where
  | none : Exponent []
  | some (mark : c = 0x65 ∨ c = 0x45) (sign : s = [] ∨ s = [0x2B] ∨ s = [0x2D]) (figures : Figures text) :
    Exponent (c :: (s ++ text))

inductive Numeral : Bytes → Prop where
  | intro (sign : s = [] ∨ s = [0x2D]) (whole : Whole w) (fraction : Fraction f) (exponent : Exponent e) :
    Numeral (s ++ w ++ f ++ e)

mutual

-- The texts of a value that begin and end with it.
inductive Spells : Nat → Tree → Bytes → Prop where
  | null : Spells room .null (ascii "null")
  | true : Spells room (.bool true) (ascii "true")
  | false : Spells room (.bool false) (ascii "false")
  | number (numeral : Numeral text) : Spells room (.number text) text
  | string (raw : Raw text) : Spells room (.string text) (doubleQuote :: (text ++ [doubleQuote]))
  | emptyList (gap : Blank text) : Spells (room + 1) (.array []) (0x5B :: (text ++ [0x5D]))
  | list (items : SpellsItems room values text) : Spells (room + 1) (.array values) (0x5B :: (text ++ [0x5D]))
  | emptyObject (gap : Blank text) : Spells (room + 1) (.object []) (0x7B :: (text ++ [0x7D]))
  | object (fields : SpellsFields room values text) : Spells (room + 1) (.object values) (0x7B :: (text ++ [0x7D]))

-- The texts of a value with blanks around it.
inductive SpellsLoosely : Nat → Tree → Bytes → Prop where
  | intro (front : Blank before) (value : Spells room tree text) (back : Blank behind) :
    SpellsLoosely room tree (before ++ (text ++ behind))

-- The texts of the items of a list.
inductive SpellsItems : Nat → List Tree → Bytes → Prop where
  | last (item : SpellsLoosely room tree text) : SpellsItems room [tree] text
  | more (item : SpellsLoosely room tree text) (later : SpellsItems room rest behind) :
    SpellsItems room (tree :: rest) (text ++ 0x2C :: behind)

-- The texts of one field of an object.
inductive SpellsField : Nat → Bytes × Tree → Bytes → Prop where
  | intro (front : Blank before) (key : Raw name) (between : Blank gap) (value : SpellsLoosely room tree text) :
    SpellsField room (name, tree) (before ++ doubleQuote :: (name ++ doubleQuote :: (gap ++ colon :: text)))

-- The texts of the fields of an object.
inductive SpellsFields : Nat → List (Bytes × Tree) → Bytes → Prop where
  | last (field : SpellsField room pair text) : SpellsFields room [pair] text
  | more (field : SpellsField room pair text) (later : SpellsFields room rest behind) :
    SpellsFields room (pair :: rest) (text ++ 0x2C :: behind)

end

theorem map_ok {f : α → β} {x : Except ε α} : x.map f = .ok b ↔ ∃ a, x = .ok a ∧ f a = b := by
  cases x <;> simp [Except.map]

theorem bind_ok {x : Except ε α} {f : α → Except ε β} : (x >>= f) = .ok b ↔ ∃ a, x = .ok a ∧ f a = .ok b := by
  cases x <;> simp [bind, Except.bind]

-- Blanks

theorem skipBlanks_append (blank : Blank before) : skipBlanks (before ++ text) = skipBlanks text := by
  unfold skipBlanks
  rw [List.dropWhile_append, if_pos]
  rw [List.isEmpty_iff, List.dropWhile_eq_nil_iff]
  exact blank

theorem skipBlanks_solid (solid : isBlank c = false) : skipBlanks (c :: rest) = c :: rest := by
  simp [skipBlanks, solid]

theorem skipBlanks_parts (text : Bytes) : ∃ before, Blank before ∧ text = before ++ skipBlanks text :=
  ⟨text.takeWhile isBlank, fun _ member => List.mem_takeWhile_imp member, (List.takeWhile_append_dropWhile).symm⟩

theorem skipBlanks_nil : skipBlanks text = [] ↔ Blank text := List.dropWhile_eq_nil_iff

theorem skipBlanks_cons (skipped : skipBlanks text = c :: rest) :
    isBlank c = false ∧ ∃ before, Blank before ∧ text = before ++ c :: rest := by
  obtain ⟨before, blank, parts⟩ := skipBlanks_parts text
  rw [skipped] at parts
  have := List.head?_dropWhile_not isBlank text
  unfold skipBlanks at skipped
  rw [skipped] at this
  exact ⟨by simpa using this, before, blank, parts⟩

-- Strings

theorem readString_sound (read : readString taken text = .ok (raw, rest)) :
    ∃ body, raw = taken.reverse ++ body ∧ Raw body ∧ text = body ++ doubleQuote :: rest := by
  fun_induction readString taken text
  all_goals try simp only [refuse, reduceCtorEq] at read
  case case2 =>
    cases read
    exact ⟨[], by simp, .nil, rfl⟩
  case case4 digits _ ih =>
    obtain ⟨body, rfl, spelled, rfl⟩ := ih read
    exact ⟨_, by simp, .unicode digits spelled, rfl⟩
  case case7 known _ ih =>
    obtain ⟨body, rfl, spelled, rfl⟩ := ih read
    exact ⟨_, by simp, .letter known spelled, rfl⟩
  case case10 open_ unescaped visible ih =>
    obtain ⟨body, rfl, spelled, rfl⟩ := ih read
    exact ⟨_, by simp, .plain visible open_ unescaped spelled, rfl⟩

theorem readString_complete (raw : Raw body) (taken rest : Bytes) :
    readString taken (body ++ doubleQuote :: rest) = .ok (taken.reverse ++ body, rest) := by
  have escape : backslash ≠ doubleQuote := by decide
  induction raw generalizing taken with
  | nil =>
    unfold readString
    simp
  | plain visible open_ unescaped _ ih =>
    rw [List.cons_append]
    unfold readString
    simp [visible, open_, unescaped, ih]
  | @letter e _ known _ ih =>
    have named : e ≠ 0x75 := by
      intro same
      rw [same] at known
      exact absurd known (by decide)
    rw [List.cons_append, List.cons_append]
    unfold readString
    rw [if_neg escape, if_pos rfl]
    split
    · rename_i same
      cases same
    · rename_i same
      exact absurd (List.cons.inj same).1 named
    · rename_i same
      cases same
      rw [if_pos known, ih]
      simp
  | unicode digits _ ih =>
    simp only [List.cons_append]
    unfold readString
    rw [if_neg escape, if_pos rfl]
    simp only [digits, if_true, ih]
    simp

-- Numerals

-- What a numeral ends in front of.
def Ends (rest : Bytes) : Prop := ∀ c ∈ rest.head?, isDigit c = false ∧ c ≠ 0x2E ∧ c ≠ 0x65 ∧ c ≠ 0x45

theorem readDigits_sound (read : readDigits text = .ok (figures, rest)) : Figures figures ∧ text = figures ++ rest := by
  unfold readDigits at read
  rw [List.span_eq_takeWhile_dropWhile] at read
  split at read
  · cases read
  · cases read
  · rename_i some_ _
    injection read with parts
    injection parts with front back
    subst front back
    refine ⟨⟨fun none => ?_, fun _ member => List.mem_takeWhile_imp member⟩, (List.takeWhile_append_dropWhile).symm⟩
    cases behind : text.dropWhile isDigit <;> simp_all

theorem span_figures (figures : Figures text) (ends : ∀ c ∈ rest.head?, isDigit c = false) :
    (text ++ rest).span isDigit = (text, rest) := by
  have none : rest.takeWhile isDigit = [] ∧ rest.dropWhile isDigit = rest := by
    cases rest with
    | nil => exact ⟨rfl, rfl⟩
    | cons c rest => simp [ends c rfl]
  rw [List.span_eq_takeWhile_dropWhile, List.takeWhile_append_of_pos figures.2, List.dropWhile_append_of_pos figures.2,
    none.1, none.2, List.append_nil]

theorem readDigits_complete (figures : Figures text) (ends : ∀ c ∈ rest.head?, isDigit c = false) :
    readDigits (text ++ rest) = .ok (text, rest) := by
  unfold readDigits
  rw [span_figures figures ends]
  obtain ⟨some_, _⟩ := figures
  cases text with
  | nil => exact absurd rfl some_
  | cons => rfl

theorem readWhole_sound (read : readWhole text = .ok (whole, rest)) : Whole whole ∧ text = whole ++ rest := by
  unfold readWhole at read
  split at read
  · cases read; exact ⟨.zero, rfl⟩
  · rename_i positive
    obtain ⟨figures, rfl⟩ := readDigits_sound read
    cases whole with
    | nil => exact absurd rfl figures.1
    | cons c digits =>
      refine ⟨.positive ?_ figures, rfl⟩
      rintro rfl
      exact positive _ rfl

theorem readWhole_complete (whole : Whole text) (ends : ∀ c ∈ rest.head?, isDigit c = false) :
    readWhole (text ++ rest) = .ok (text, rest) := by
  cases whole with
  | zero => rfl
  | @positive c digits first figures =>
    unfold readWhole
    split
    · rename_i same; cases same; exact absurd rfl first
    · exact readDigits_complete figures ends

theorem readFraction_sound (read : readFraction text = .ok (fraction, rest)) : Fraction fraction ∧ text = fraction ++ rest := by
  unfold readFraction at read
  split at read
  · obtain ⟨⟨digits, behind⟩, found, same⟩ := map_ok.mp read
    cases same
    obtain ⟨figures, rfl⟩ := readDigits_sound found
    exact ⟨.some figures, rfl⟩
  · cases read; exact ⟨.none, rfl⟩

theorem readFraction_complete (fraction : Fraction text) (ends : ∀ c ∈ rest.head?, isDigit c = false ∧ c ≠ 0x2E) :
    readFraction (text ++ rest) = .ok (text, rest) := by
  cases fraction with
  | none =>
    unfold readFraction
    split
    · rename_i same
      exact absurd rfl (ends _ (by rw [← List.nil_append rest, same]; rfl)).2
    · rfl
  | some figures =>
    unfold readFraction
    simp only [List.cons_append, readDigits_complete figures fun c first => (ends c first).1]
    rfl

theorem readExponent_sound (read : readExponent text = .ok (exponent, rest)) : Exponent exponent ∧ text = exponent ++ rest := by
  unfold readExponent at read
  split at read
  · rename_i c behind
    split at read
    · rename_i mark
      split at read
      rename_i sign digits parts
      have signed : (sign = [] ∨ sign = [0x2B] ∨ sign = [0x2D]) ∧ behind = sign ++ digits := by
        split at parts
        · split at parts
          · rename_i sign
            cases parts
            exact ⟨.inr (by simpa using sign), rfl⟩
          · cases parts
            exact ⟨.inl rfl, rfl⟩
        · cases parts
          exact ⟨.inl rfl, rfl⟩
      obtain ⟨⟨figures, later⟩, found, same⟩ := map_ok.mp read
      cases same
      obtain ⟨figures, rfl⟩ := readDigits_sound found
      obtain ⟨signed, rfl⟩ := signed
      exact ⟨.some (by simpa using mark) signed figures, by simp⟩
    · cases read
      exact ⟨.none, rfl⟩
  · cases read
    exact ⟨.none, rfl⟩

theorem readExponent_complete (exponent : Exponent text) (ends : Ends rest) :
    readExponent (text ++ rest) = .ok (text, rest) := by
  cases exponent with
  | none =>
    unfold readExponent
    split
    · rename_i c behind same
      obtain ⟨_, _, small, large⟩ := ends c (by rw [← List.nil_append rest, same]; rfl)
      rw [if_neg (by simp [small, large]), ← same]
      rfl
    · rename_i same
      rw [← List.nil_append rest, same]
  | @some c sign digits mark signed figures =>
    have read := readDigits_complete figures fun c first => (ends c first).1
    have unsigned : ∀ s ∈ digits, ¬(s = 0x2B ∨ s = 0x2D) := by
      rintro s member (rfl | rfl)
      all_goals exact absurd (figures.2 _ member) (by decide)
    obtain ⟨s, more, rfl⟩ := List.exists_cons_of_ne_nil figures.1
    unfold readExponent
    simp only [List.cons_append] at read ⊢
    rw [if_pos (by simpa using mark)]
    rcases signed with rfl | rfl | rfl
    · simp [unsigned s List.mem_cons_self, read, Except.map]
    all_goals simp [read, Except.map]

theorem whole_head (whole : Whole text) : ∃ c rest, text = c :: rest ∧ isDigit c = true := by
  cases whole with
  | zero => exact ⟨_, _, rfl, rfl⟩
  | positive _ figures => exact ⟨_, _, rfl, figures.2 _ List.mem_cons_self⟩

theorem readNumber_sound (read : readNumber text = .ok (numeral, rest)) : Numeral numeral ∧ text = numeral ++ rest := by
  unfold readNumber at read
  split at read
  rename_i s digits parts
  have signed : (s = [] ∨ s = [0x2D]) ∧ text = s ++ digits := by
    split at parts
    · cases parts
      exact ⟨.inr rfl, rfl⟩
    · cases parts
      exact ⟨.inl rfl, rfl⟩
  obtain ⟨⟨w, later⟩, whole, read⟩ := bind_ok.mp read
  obtain ⟨⟨f, later⟩, fraction, read⟩ := bind_ok.mp read
  obtain ⟨⟨e, later⟩, exponent, read⟩ := bind_ok.mp read
  cases read
  obtain ⟨sign, rfl⟩ := signed
  obtain ⟨wholeText, rfl⟩ := readWhole_sound whole
  obtain ⟨fractionText, rfl⟩ := readFraction_sound fraction
  obtain ⟨exponentText, rfl⟩ := readExponent_sound exponent
  exact ⟨.intro sign wholeText fractionText exponentText, by simp⟩

-- A fraction and an exponent begin with a byte that ends the digits in front of them.
theorem fraction_head (fraction : Fraction text) (ends : ∀ c ∈ rest.head?, isDigit c = false) :
    ∀ c ∈ (text ++ rest).head?, isDigit c = false := by
  cases fraction with
  | none => exact ends
  | some => rintro _ ⟨⟩; decide

theorem exponent_head (exponent : Exponent text) (ends : Ends rest) :
    ∀ c ∈ (text ++ rest).head?, isDigit c = false ∧ c ≠ 0x2E := by
  cases exponent with
  | none => exact fun c first => ⟨(ends c first).1, (ends c first).2.1⟩
  | some mark =>
    rintro _ ⟨⟩
    rcases mark with rfl | rfl <;> decide

theorem readNumber_complete (numeral : Numeral text) (ends : Ends rest) : readNumber (text ++ rest) = .ok (text, rest) := by
  obtain @⟨s, w, f, e, sign, whole, fraction, exponent⟩ := numeral
  have behind := exponent_head exponent ends
  have readW := readWhole_complete whole (fraction_head fraction fun c first => (behind c first).1)
  have readF := readFraction_complete fraction behind
  have readE := readExponent_complete exponent ends
  unfold readNumber
  split
  rename_i sign' digits parts
  have signed : sign' = s ∧ digits = w ++ (f ++ (e ++ rest)) := by
    obtain ⟨c, behind, rfl, digit⟩ := whole_head whole
    rcases sign with rfl | rfl
    · split at parts
      · rename_i same
        rw [List.nil_append, List.cons_append, List.cons_append, List.cons_append] at same
        rw [(List.cons.inj same).1] at digit
        exact absurd digit (by decide)
      · cases parts
        exact ⟨rfl, by simp⟩
    · cases parts
      exact ⟨rfl, by simp⟩
  obtain ⟨rfl, rfl⟩ := signed
  refine bind_ok.mpr ⟨_, readW, bind_ok.mpr ⟨_, readF, bind_ok.mpr ⟨_, readE, ?_⟩⟩⟩
  rfl

-- Literal names

theorem readLiteral_sound (read : readLiteral name value letters text = .ok (tree, rest)) :
    tree = value ∧ text = (letters.map fun c => UInt8.ofNat c.toNat) ++ rest := by
  induction letters generalizing text with
  | nil =>
    cases read
    exact ⟨rfl, rfl⟩
  | cons c more ih =>
    cases text with
    | nil => cases read
    | cons b text =>
      unfold readLiteral at read
      split at read
      · rename_i same
        obtain ⟨rfl, rfl⟩ := ih read
        exact ⟨rfl, by simp [← same]⟩
      · cases read

theorem readLiteral_complete (name : String) (value : Tree) (letters : List Char) (rest : Bytes)
    (plain : letters.all (·.toNat < 256) = true) :
    readLiteral name value letters ((letters.map fun c => UInt8.ofNat c.toNat) ++ rest) = .ok (value, rest) := by
  induction letters with
  | nil => rfl
  | cons c more ih =>
    rw [List.all_cons, Bool.and_eq_true, decide_eq_true_eq] at plain
    have first : (UInt8.ofNat c.toNat).toNat = c.toNat := by
      rw [UInt8.toNat_ofNat', Nat.mod_eq_of_lt plain.1]
    rw [List.map_cons, List.cons_append, readLiteral, if_pos first]
    exact ih plain.2

end LineShell.JsonText
