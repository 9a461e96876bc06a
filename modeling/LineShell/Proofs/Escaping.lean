import LineShell.JsonText.Value
import LineShell.Proofs.Characters
import LineShell.Proofs.Spelling

namespace LineShell.JsonText
open Bytes Utf8

-- No control characters, so no line ends either.
def Visible (text : Bytes) : Prop := ∀ c ∈ text, ¬c < 0x20

theorem Visible.append (front : Visible a) (back : Visible b) : Visible (a ++ b) := fun c member =>
  (List.mem_append.mp member).elim (front c) (back c)

theorem Visible.no_newline (visible : Visible text) : newline ∉ text := fun member => visible _ member (by decide)

-- The ways a byte of a string is written.
inductive Escaped (c : UInt8) : Bytes → Prop where
  | itself (visible : ¬c < 0x20) (open_ : c ≠ doubleQuote) (unescaped : c ≠ backslash) : Escaped c [c]
  | letter (known : (ascii "bfnrt\\/\x22").contains e = true) (named : e ≠ 0x75) (value : simpleEscape e = c) :
    Escaped c [backslash, e]
  | unicode (digits : [a, b, d, e].all isHex = true) (below : hexValue [a, b, d, e] < 0xD800)
    (value : Utf8.encode (hexValue [a, b, d, e]) = [c]) : Escaped c [backslash, 0x75, a, b, d, e]

theorem hex_small : ∀ n < 32, (hex 4 n).all isHex = true ∧ hexValue (hex 4 n) = n := by decide +kernel

-- The bytes that are escaped with a letter.
def lettered : List UInt8 := [doubleQuote, backslash, 0x08, 0x0C, 0x0A, 0x0D, 0x09]

theorem escapeByte_escaped (c : UInt8) : Escaped c (escapeByte c) := by
  by_cases letter : c ∈ lettered
  · simp only [lettered, List.mem_cons, List.not_mem_nil, or_false] at letter
    rcases letter with rfl | rfl | rfl | rfl | rfl | rfl | rfl
    all_goals exact .letter (by decide) (by decide) (by decide)
  · simp only [lettered, List.mem_cons, List.not_mem_nil, or_false, not_or] at letter
    obtain ⟨open_, unescaped, b, f, n, r, t⟩ := letter
    simp only [escapeByte, if_neg open_, if_neg unescaped, if_neg b, if_neg f, if_neg n, if_neg r, if_neg t]
    split
    · rename_i control
      have small : c.toNat < 32 := UInt8.lt_iff_toNat_lt.mp control
      obtain ⟨digits, value⟩ := hex_small c.toNat small
      refine .unicode digits ?_ ?_
      · exact lt_of_eq_of_lt value (by omega)
      · show Utf8.encode (hexValue (hex 4 c.toNat)) = [c]
        rw [value, Utf8.encode, if_pos (by omega), UInt8.ofNat_toNat]
    · rename_i visible
      exact .itself visible open_ unescaped

theorem Escaped.raw (escaped : Escaped c text) (later : Raw rest) : Raw (text ++ rest) := by
  cases escaped with
  | itself visible open_ unescaped => exact .plain visible open_ unescaped later
  | letter known => exact .letter known later
  | unicode digits => exact .unicode digits later

theorem escape_raw (text : Bytes) : Raw (escape text) := by
  induction text with
  | nil => exact .nil
  | cons c rest ih => exact (escapeByte_escaped c).raw ih

-- What holds of no control character.
theorem visible_of {p : UInt8 → Bool} (none : ∀ n < 32, p (UInt8.ofNat n) = false) (holds : p c = true) : ¬c < 0x20 := by
  intro control
  have not := none c.toNat (UInt8.lt_iff_toNat_lt.mp control)
  rw [UInt8.ofNat_toNat, holds] at not
  cases not

theorem Raw.visible (raw : Raw text) : Visible text := by
  induction raw with
  | nil => simp [Visible]
  | plain visible _ _ _ ih => exact List.forall_mem_cons.mpr ⟨visible, ih⟩
  | letter known _ ih =>
    have shown := visible_of (p := (ascii "bfnrt\\/\x22").contains) (by decide) known
    exact List.forall_mem_cons.mpr ⟨by decide, List.forall_mem_cons.mpr ⟨shown, ih⟩⟩
  | unicode digits _ ih =>
    have shown := fun c member => visible_of (by decide) (List.all_eq_true.mp digits c member)
    simp only [List.forall_mem_cons] at shown
    obtain ⟨a, b, d, e, _⟩ := shown
    simp only [Visible, List.forall_mem_cons]
    exact ⟨by decide, by decide, a, b, d, e, ih⟩

-- Resolving escapes

theorem unescapeFrom_behind (tail later : Bytes) : unescapeFrom tail.length (tail ++ later) = unescapeFrom 0 later := by
  induction tail with
  | nil => rfl
  | cons c tail ih => rw [List.length_cons, List.cons_append, unescapeFrom, ih]

theorem unescape_character (reads : Reads a tail n) (other : a ≠ backslash) (later : Bytes) :
    unescapeFrom 0 (a :: (tail ++ later)) = (unescapeFrom 0 later).map (a :: tail ++ ·) := by
  conv => lhs; unfold unescapeFrom
  simp only [if_neg other, reads.same, List.length_cons, Nat.add_sub_cancel, unescapeFrom_behind]

theorem Escaped.resolved (escaped : Escaped c text) (plain : c < 0x80) (later : Bytes) :
    unescapeFrom 0 (text ++ later) = (unescapeFrom 0 later).map (c :: ·) := by
  cases escaped with
  | itself visible open_ unescaped =>
    obtain ⟨a, tail, n, same, reads⟩ := (character_plain plain).reads
    cases same
    exact unescape_character reads unescaped later
  | @letter e known named value =>
    conv => lhs; unfold unescapeFrom
    simp only [List.cons_append, List.nil_append, if_true]
    split
    · rename_i same
      exact absurd (List.cons.inj same).1 named
    · rename_i same
      cases same
      rw [value]
      rfl
    · rename_i same
      cases same
  | @unicode a b d e digits below value =>
    conv => lhs; unfold unescapeFrom
    have high : ¬0xD800 ≤ hexValue [a, b, d, e] := Nat.not_le.mpr below
    have low : ¬0xDC00 ≤ hexValue [a, b, d, e] := fun above => high (Nat.le_trans (by omega) above)
    simp only [List.cons_append, List.nil_append, if_true, high, low, value, decide_false, Bool.false_and, Bool.false_eq_true, if_false]
    rfl

theorem escape_character (high : ∀ c ∈ text, 0x80 ≤ c) : escape text = text := by
  have same : ∀ c ∈ text, escapeByte c = [c] := by
    intro c member
    have above := high c member
    have other : ∀ d : UInt8, d < 0x80 → c ≠ d := fun d below same => absurd (same ▸ above) (UInt8.not_le.mpr below)
    have visible : ¬c < 0x20 := fun control => absurd (UInt8.lt_trans control (by decide)) (UInt8.not_lt.mpr above)
    simp only [escapeByte, if_neg (other _ (by decide : doubleQuote < 0x80)), if_neg (other _ (by decide : backslash < 0x80)),
      if_neg (other 0x08 (by decide)), if_neg (other 0x0C (by decide)), if_neg (other 0x0A (by decide)),
      if_neg (other 0x0D (by decide)), if_neg (other 0x09 (by decide)), if_neg visible]
  rw [escape, List.flatMap_def, List.map_congr_left same, ← List.flatMap_def]
  exact List.flatMap_singleton' text

-- A well-formed text is what its escaped form stands for.
theorem unescape_escape (text : WellFormed bytes) : unescape (escape bytes) = .ok bytes := by
  induction text with
  | nil => rfl
  | @cons bytes rest character _ ih => 
    have parts : escape (bytes ++ rest) = escape bytes ++ escape rest := List.flatMap_append
    unfold unescape at ih ⊢
    rw [parts]
    rcases character.cases with ⟨c, plain, rfl⟩ | high
    · have one : escape [c] = escapeByte c := List.flatMap_singleton _ _
      rw [one, (escapeByte_escaped c).resolved plain, ih]
      rfl
    · obtain ⟨a, tail, n, rfl, reads⟩ := character.reads
      have other : a ≠ backslash := by
        rintro rfl
        exact absurd (high _ List.mem_cons_self) (by decide)
      rw [escape_character high, List.cons_append, unescape_character reads other, ih]
      rfl

end LineShell.JsonText
