import LineShell.Bytes.Blank
import LineShell.Bytes.Path
import LineShell.Errno
import LineShell.Line.Comment
import LineShell.Proofs.Characters
import LineShell.Proofs.Numerals
import LineShell.Proofs.Scanning

-- Each of these passes works at plain bytes or at whole characters, so no character is taken apart.
namespace LineShell
open Utf8 Bytes

-- A text whose encoding is plain.

theorem high_byte (n : Nat) (high : 128 ≤ n % 256) : ¬UInt8.ofNat n < 0x80 := by
  rw [UInt8.lt_iff_toNat_lt, UInt8.toNat_ofNat']
  exact Nat.not_lt.mpr high

-- A character that takes several bytes begins with a high one.
theorem encodeChar_plain (c : Char) (small : ∀ b ∈ String.utf8EncodeChar c, b < 0x80) : UInt8.ofNat c.toNat < 0x80 := by
  unfold String.utf8EncodeChar at small
  dsimp only at small
  split at small
  · exact small _ (List.mem_singleton_self _)
  · split at small
    · exact absurd (small _ List.mem_cons_self) (high_byte _ (by omega))
    · split at small
      · exact absurd (small _ List.mem_cons_self) (high_byte _ (by omega))
      · exact absurd (small _ List.mem_cons_self) (high_byte _ (by omega))

theorem utf8_bytes (text : String) : utf8 text = text.toByteArray.data.toList := by
  rw [← String.utf8Encode_toList]
  simp [utf8, List.utf8Encode]

-- This is quicker to find out than to take the text apart into characters.
theorem ascii_plain (text : String) (all : text.toByteArray.data.toList.all (· < 0x80) = true) :
    (ascii text).all (· < 0x80) = true := by
  rw [← utf8_bytes] at all
  simp only [utf8, List.all_flatMap, List.all_eq_true, decide_eq_true_eq] at all
  simp only [ascii, List.all_map, List.all_eq_true, Function.comp_apply, decide_eq_true_eq]
  exact fun c member => encodeChar_plain c (all c member)

namespace Utf8.WellFormed

theorem ascii (text : String) (all : text.toByteArray.data.toList.all (· < 0x80) = true) :
    WellFormed (LineShell.ascii text) :=
  plain_all (ascii_plain text all)

theorem single {c : UInt8} (small : c < 0x80) : WellFormed [c] := one (character_plain small)

theorem decimal (n : Nat) : WellFormed (decimal n) :=
  plain fun c member => by
    have digit := (decimal_figures n).2 c member
    unfold isDigit at digit
    simp only [Bool.and_eq_true, decide_eq_true_eq] at digit
    exact UInt8.lt_of_le_of_lt digit.2 (by decide)

theorem decimalInt (n : Int) : WellFormed (decimalInt n) := by
  cases n with
  | ofNat n => exact decimal n
  | negSucc n => exact (ascii "-" (by decide)).append (decimal (n + 1))

theorem splitOn {text : Bytes} (good : WellFormed text) (small : c < 0x80) : ∀ piece ∈ splitOn c text, WellFormed piece := by
  -- The piece that is being read may have begun already.
  have begun : ∀ (text front : Bytes), WellFormed (front ++ text) →
      ∃ piece pieces, Bytes.splitOn c text = piece :: pieces ∧ WellFormed (front ++ piece) ∧ ∀ other ∈ pieces, WellFormed other := by
    intro text
    induction text with
    | nil => exact fun front good => ⟨[], [], rfl, good, by simp⟩
    | cons b rest ih =>
      intro front good
      unfold Bytes.splitOn
      by_cases same : b = c
      · subst same
        obtain ⟨piece, pieces, cuts, first, others⟩ := ih [] (good.right small)
        rw [if_pos rfl]
        exact ⟨[], _, rfl, by simpa using good.left small, by simpa [cuts] using ⟨first, others⟩⟩
      · obtain ⟨piece, pieces, cuts, first, others⟩ := ih (front ++ [b]) (by simpa using good)
        rw [if_neg same, cuts]
        exact ⟨b :: piece, pieces, rfl, by simpa using first, others⟩
  obtain ⟨piece, pieces, cuts, first, others⟩ := begun text [] good
  rw [cuts]
  simpa using ⟨first, others⟩

theorem join {pieces : List Bytes} (separator : WellFormed between) (all : ∀ piece ∈ pieces, WellFormed piece) :
    WellFormed (join between pieces) := by
  induction pieces with
  | nil => exact .nil
  | cons piece rest ih =>
    have first := all piece List.mem_cons_self
    have others := ih fun other member => all other (List.mem_cons_of_mem _ member)
    cases rest with
    | nil => exact first
    | cons _ _ => exact (first.append separator).append others

end Utf8.WellFormed

-- Paths.

namespace Path

theorem push_wellFormed (absolute : Bool) {stack : List Bytes} (all : ∀ part ∈ stack, WellFormed part)
    (part : WellFormed next) : ∀ part ∈ push absolute stack next, WellFormed part := by
  have up : WellFormed parent := .ascii ".." (by decide)
  unfold push
  split
  · exact all
  · split
    · split
      · split <;> simp [up]
      · rename_i top rest
        simp only [List.mem_cons, forall_eq_or_imp] at all
        split
        · simpa using ⟨up, all⟩
        · exact all.2
    · simpa using ⟨part, all⟩

theorem clean_wellFormed (path : WellFormed text) : WellFormed (clean text) := by
  have slashes : WellFormed [slash] := .single (by decide)
  have stacked : ∀ (parts stack : List Bytes), (∀ part ∈ stack, WellFormed part) → (∀ part ∈ parts, WellFormed part) →
      ∀ part ∈ parts.foldl (push (isAbsolute text)) stack, WellFormed part := by
    intro parts
    induction parts with
    | nil => exact fun _ all _ => all
    | cons part rest ih =>
      intro stack all parts
      simp only [List.mem_cons, forall_eq_or_imp] at parts
      exact ih _ (push_wellFormed _ all parts.1) parts.2
  have parts : ∀ part ∈ ((splitOn slash text).foldl (push (isAbsolute text)) []).reverse, WellFormed part := by
    simpa using stacked _ [] (by simp) (path.splitOn (by decide))
  unfold clean
  dsimp only
  split
  · exact slashes.append (.join slashes parts)
  · exact .ascii "." (by decide)
  · exact .join slashes parts

theorem join_wellFormed {parts : List Bytes} (all : ∀ part ∈ parts, WellFormed part) : WellFormed (join parts) := by
  unfold join
  split
  · exact .nil
  · refine clean_wellFormed (.join (.single (by decide)) fun part member => all part ?_)
    exact (List.dropWhile_sublist _).mem member

theorem splitList_wellFormed (list : WellFormed text) : ∀ directory ∈ splitList text, WellFormed directory := by
  unfold splitList
  split
  · simp
  · exact list.splitOn (by decide)

-- A name looked for in directories.
theorem inside_wellFormed {directories : List Bytes} (all : ∀ directory ∈ directories, WellFormed directory)
    (name : WellFormed text) :
    ∀ path ∈ directories.map fun d => join [if d.isEmpty then current else d, text], WellFormed path := by
  intro path member
  obtain ⟨directory, among, rfl⟩ := List.mem_map.mp member
  refine join_wellFormed ?_
  have here : WellFormed (if directory.isEmpty then current else directory) := by
    split
    · exact .ascii "." (by decide)
    · exact all directory among
  exact List.forall_mem_cons.mpr ⟨here, List.forall_mem_singleton.mpr name⟩

end Path

-- Quoted texts are well-formed whatever they quote, and so are the texts of system errors.

namespace Quoted

theorem hex_plain (width n : Nat) : ∀ c ∈ hex width n, c < 0x80 := by
  have digit : ∀ d < 16, hexDigit d < 0x80 := by decide
  induction width generalizing n with
  | zero => simp [hex]
  | succ width ih =>
    intro c member
    unfold hex at member
    rcases List.mem_append.mp member with front | last
    · exact ih _ c front
    · cases List.mem_singleton.mp last
      exact digit _ (Nat.mod_lt _ (by decide))

theorem named_plain (named : named? n = some letter) : letter < 0x80 := by
  unfold named? at named
  split at named
  all_goals
    cases named
    try decide

theorem unit_character (text : Bytes) : ∀ u ∈ units text, ∀ n bytes, u = .char n bytes → Character bytes := by
  have each : ∀ (text : Bytes) (skip : Nat), ∀ u ∈ unitsFrom skip text, ∀ n bytes, u = .char n bytes → Character bytes := by
    intro text
    induction text with
    | nil => simp [unitsFrom]
    | cons a rest ih =>
      intro skip u member n bytes isChar
      cases skip with
      | succ skip => exact ih skip u member n bytes isChar
      | zero =>
        rcases List.mem_cons.mp member with first | later
        · obtain ⟨tail, _, same, _, reads⟩ := unitAt_char (first.symm.trans isChar)
          rw [same]
          exact reads.character
        · exact ih _ u later n bytes isChar
  exact each text 0

theorem encodeUnit_wellFormed (whole : ∀ n bytes, u = .char n bytes → Character bytes) : WellFormed (encodeUnit u) := by
  have escaped : ∀ n, WellFormed (escapeByte n) := fun n => (WellFormed.ascii "\\x" (by decide)).append (.plain (hex_plain 2 n))
  cases u with
  | stray b => exact escaped b.toNat
  | char n bytes =>
    unfold encodeUnit
    dsimp only
    split
    · rename_i letter named
      have both : ∀ c ∈ [backslash, letter], c < 0x80 := by simpa using ⟨by decide, named_plain named⟩
      exact .plain both
    · split
      · exact .one (whole n bytes rfl)
      · split
        · exact escaped n
        · split
          · exact (WellFormed.ascii "\\u" (by decide)).append (.plain (hex_plain 4 n))
          · exact (WellFormed.ascii "\\U" (by decide)).append (.plain (hex_plain 8 n))

theorem encode_wellFormed (text : Bytes) : WellFormed (encode text) := by
  have quote : WellFormed [doubleQuote] := .single (by decide)
  exact (quote.append (.flatMap fun u member => encodeUnit_wellFormed (unit_character text u member))).append quote

end Quoted

theorem Errno.message_wellFormed (code : Errno) : WellFormed (message code) := by
  have texts : ∀ row ∈ table, row.text.toByteArray.data.toList.all (· < 0x80) = true := by decide +kernel
  unfold message
  split
  · rename_i row found
    exact .ascii row.text (texts row (List.mem_of_find?_eq_some found))
  · exact (WellFormed.ascii "errno " (by decide)).append (.decimal code)

-- What is left of a line without its comment and the blanks around it.

namespace Line

-- A comment begins at a plain byte.
theorem stripFrom_cut (quotes : Quotes) (text : Bytes) :
    stripFrom quotes text = text ∨ ∃ rest, text = stripFrom quotes text ++ hash :: rest := by
  have deeper : ∀ (front : Bytes) {stripped whole : Bytes}, (stripped = whole ∨ ∃ rest, whole = stripped ++ hash :: rest) →
      front ++ stripped = front ++ whole ∨ ∃ rest, front ++ whole = front ++ stripped ++ hash :: rest := by
    rintro front stripped whole (same | ⟨rest, cut⟩)
    · exact .inl (congrArg _ same)
    · exact .inr ⟨rest, by rw [List.append_assoc, ← cut]⟩
  fun_induction stripFrom quotes text with
  | case1 => exact .inl rfl
  | case2 => exact .inl rfl
  | case3 quotes d rest ih => exact deeper [_, d] ih
  | case4 c rest _ ih => exact deeper [c] ih
  | case5 c rest _ ih => exact deeper [c] ih
  | case6 rest _ ih => exact deeper [singleQuote] ih
  | case7 rest _ _ ih => exact deeper [doubleQuote] ih
  | case8 => exact .inr ⟨_, rfl⟩
  | case9 c rest _ _ _ _ ih => exact deeper [c] ih

theorem stripComment_wellFormed (line : WellFormed text) : WellFormed (stripComment text) := by
  unfold stripComment
  rcases stripFrom_cut .outside text with same | ⟨rest, cut⟩
  · rwa [same]
  · rw [cut] at line
    exact line.left (by decide)

end Line

namespace Blank

-- Only whole patterns are dropped.
theorem dropLeading_dropped (patterns : List Bytes) (text : Bytes) :
    ∃ dropped : List Bytes, (∀ blank ∈ dropped, blank ∈ patterns) ∧ text = dropped.flatten ++ dropLeading patterns 0 text := by
  have skipped : ∀ (text : Bytes) (skip : Nat), dropLeading patterns skip text = dropLeading patterns 0 (text.drop skip) := by
    intro text
    induction text with
    | nil => intro skip; simp [dropLeading]
    | cons b rest ih =>
      intro skip
      cases skip with
      | zero => rfl
      | succ skip => exact ih skip
  induction length : text.length using Nat.strongRecOn generalizing text with
  | ind size ih =>
    cases text with
    | nil => exact ⟨[], by simp, by simp [dropLeading]⟩
    | cons b rest =>
      unfold dropLeading
      split
      · exact ⟨[], by simp, rfl⟩
      · rename_i n wide
        unfold width at wide
        split at wide
        · rename_i blank found
          have starts := List.find?_some found
          obtain ⟨more, begins⟩ := List.isPrefixOf_iff_prefix.mp starts
          cases blank with
          | nil => cases wide
          | cons c blank =>
            obtain ⟨rfl, same⟩ : c = b ∧ blank ++ more = rest := List.cons.inj begins
            have count : blank.length = n := Nat.succ.inj wide
            have behind : rest.drop n = more := by rw [← same, ← count, List.drop_left]
            have shorter : more.length < size := by
              rw [← length, List.length_cons, ← same, List.length_append]
              omega
            obtain ⟨dropped, all, whole⟩ := ih _ shorter more rfl
            refine ⟨(c :: blank) :: dropped, ?_, ?_⟩
            · simpa using ⟨List.mem_of_find?_eq_some found, all⟩
            · rw [skipped, behind, List.flatten_cons, List.append_assoc, ← whole, List.cons_append, same]
        · cases wide

theorem blanks_heads : ∀ blank ∈ blanks, ∃ a tail, blank = a :: tail ∧ isTail a = false := by
  have heads : ∀ blank ∈ blanks, blank.head?.any (!isTail ·) = true := by decide
  intro blank member
  have head := heads blank member
  cases blank with
  | nil => cases head
  | cons a tail => exact ⟨a, tail, rfl, by simpa using head⟩

theorem blanks_wellFormed : ∀ blank ∈ blanks, WellFormed blank := fun blank member =>
  wellFormed_of_valid blank ((by decide : ∀ blank ∈ blanks, valid blank = true) blank member)

theorem trimLeft_wellFormed (text : WellFormed line) : WellFormed (trimLeft line) := by
  obtain ⟨dropped, all, whole⟩ := dropLeading_dropped blanks line
  rw [whole] at text
  refine WellFormed.behind ?_ text
  simpa using WellFormed.flatMap (f := id) fun blank member => blanks_wellFormed blank (all blank member)

-- From behind, the last of the dropped blanks is the first to go.
theorem trimRight_wellFormed (text : WellFormed line) : WellFormed (trimRight line) := by
  obtain ⟨dropped, all, whole⟩ := dropLeading_dropped (blanks.map List.reverse) line.reverse
  unfold trimRight
  have turned := congrArg List.reverse whole
  rw [List.reverse_reverse, List.reverse_append] at turned
  rw [turned] at text
  generalize (dropLeading (blanks.map List.reverse) 0 line.reverse).reverse = kept at text
  clear whole turned
  induction dropped with
  | nil => simpa using text
  | cons last others ih =>
    simp only [List.mem_cons, forall_eq_or_imp] at all
    obtain ⟨⟨blank, member, rfl⟩, later⟩ := And.imp_left List.mem_map.mp all
    obtain ⟨a, tail, rfl, head⟩ := blanks_heads blank member
    rw [List.flatten_cons, List.reverse_append, List.reverse_reverse, ← List.append_assoc] at text
    exact ih later (text.before head)

theorem trim_wellFormed (text : WellFormed line) : WellFormed (trim line) := trimRight_wellFormed (trimLeft_wellFormed text)

end Blank

-- The words of a line and what they stand for.

namespace Line

theorem finish_wellFormed (word : WellFormed reversed.reverse) : ∀ w ∈ finish reversed, WellFormed w := by
  unfold finish
  split
  · simp
  · simpa using word

-- The bytes of the word that is being read and the text behind them stand next to each other in the line.
theorem wordsFrom_wellFormed (guarded : Nat → Bool) (i : Nat) (word text : Bytes) (line : WellFormed (word.reverse ++ text)) :
    ∀ w ∈ wordsFrom guarded i word text, WellFormed w := by
  fun_induction wordsFrom guarded i word text with
  | case1 => exact finish_wellFormed (by simpa using line)
  | case2 => exact finish_wellFormed (by simpa using line)
  | case3 i word d rest ih => exact ih (by simpa using line)
  | case4 i word c rest _ _ ih => exact ih (by simpa using line)
  | case5 i word c rest _ separates ih =>
    have small : c < 0x80 := by
      simp only [not_or, ne_eq, Decidable.not_not] at separates
      rw [separates.1]
      decide
    intro w member
    rcases List.mem_append.mp member with here | later
    · exact finish_wellFormed (line.left small) w here
    · exact ih (by simpa using line.right small) w later

theorem split_wellFormed (line : WellFormed text) (splits : split text = .ok tokens) : ∀ token ∈ tokens, WellFormed token := by
  unfold split at splits
  cases spans : protectedSpans text with
  | error fault =>
    rw [spans] at splits
    cases splits
  | ok found =>
    rw [spans] at splits
    cases splits
    exact wordsFrom_wellFormed _ 0 [] text line

theorem isNameEnd_plain (ends : isNameEnd c = true) : c < 0x80 := by
  unfold isNameEnd at ends
  simp only [Bool.or_eq_true, decide_eq_true_eq] at ends
  rcases ends with ((rfl | rfl) | rfl) | rfl <;> decide

-- In front of what is read stands what the word stands for so far. While a name is read this is whole characters, and
-- so is the name with the rest of the word.
theorem expandFrom_wellFormed (value : Bytes → Bytes) (values : ∀ name, WellFormed (value name)) (name : Option Bytes)
    (enabled : Bool) (text front : Bytes)
    (good : match name with
      | none => WellFormed (front ++ text)
      | some read => WellFormed front ∧ WellFormed (read.reverse ++ text)) :
    WellFormed (front ++ expandFrom value name enabled text) := by
  have finished : ∀ name, WellFormed (finishName value name) := by
    intro name
    unfold finishName
    split
    · exact .nil
    · exact .nil
    · exact values _
  fun_induction expandFrom value name enabled text generalizing front with
  | case1 name enabled =>
    cases name with
    | none => simpa [finishName] using good
    | some read => exact good.1.append (finished _)
  | case2 name enabled c rest reading ih =>
    cases name with
    | none => simp at reading
    | some read => exact ih front ⟨good.1, by simpa using good.2⟩
  | case3 name enabled c rest ends escaped toggled dropped named =>
    have whole : WellFormed (front ++ finishName value name ++ c :: rest) := by
      cases name with
      | none => simpa [finishName] using good
      | some read =>
        have behind := good.2.right (isNameEnd_plain (by simpa using ends))
        have from_end : WellFormed (c :: rest) := (WellFormed.single (isNameEnd_plain (by simpa using ends))).append behind
        exact (good.1.append (finished _)).append from_end
    rw [← List.append_assoc]
    generalize front ++ finishName value name = before at whole
    have without (small : c < 0x80) : WellFormed (before ++ rest) := (whole.left small).append (whole.right small)
    split
    · rename_i isBackslash
      subst isBackslash
      split
      · simpa using whole.left (by decide)
      · rename_i d rest
        simpa using escaped (before ++ [d]) (by simpa using without (by decide))
    · split
      · rename_i isQuote
        exact toggled before (without (by rw [isQuote]; decide))
      · split
        · rename_i isQuote
          exact dropped before (without (by rw [isQuote]; decide))
        · split
          · rename_i isDollar
            simp only [Bool.and_eq_true, decide_eq_true_eq] at isDollar
            have small : c < 0x80 := by rw [isDollar.1.1]; decide
            exact named before ⟨whole.left small, by simpa using whole.right small⟩
          · simpa using dropped (before ++ [c]) (by simpa using whole)

theorem expand_wellFormed (lookups : List Lookup)
    (values : ∀ lookup ∈ lookups, ∀ name value, lookup name = some value → WellFormed value) (word : WellFormed text) :
    WellFormed (expand lookups text) := by
  have resolved : ∀ name, WellFormed (resolve lookups name) := by
    intro name
    unfold resolve
    cases found : lookups.findSome? (· name) with
    | none => exact .nil
    | some value =>
      obtain ⟨lookup, member, known⟩ := List.exists_of_findSome?_eq_some found
      exact values lookup member name value known
  exact expandFrom_wellFormed (resolve lookups) resolved none true text [] word

end Line
end LineShell
