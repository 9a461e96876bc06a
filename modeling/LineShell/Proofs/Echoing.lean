import LineShell.Session.Builtin

namespace LineShell.Builtin
open Bytes

-- The digit that stands for a number, as a small or a capital letter from ten on.
def digit (capital : Bool) (n : Nat) : UInt8 :=
  UInt8.ofNat (if n < 10 then 0x30 + n else if capital then 0x37 + n else 0x57 + n)

-- How a byte is written. Three octal digits have room for a ninth bit, which is lost.
inductive Writing where
  | itself
  | octal (ninth : Bool)
  | hex (capitalHigh capitalLow : Bool)

def Writing.bytes (b : UInt8) : Writing → Bytes
  | itself => [b]
  | octal ninth =>
    [backslash, 0x30, digit false (b.toNat / 64 + if ninth then 4 else 0), digit false (b.toNat / 8 % 8),
      digit false (b.toNat % 8)]
  | hex capitalHigh capitalLow =>
    [backslash, 0x78, digit capitalHigh (b.toNat / 16), digit capitalLow (b.toNat % 16)]

theorem octal_value : ∀ n < 8, digitValue? 8 (digit false n) = some n := by decide

theorem hex_value (capital : Bool) : ∀ n < 16, digitValue? 16 (digit capital n) = some n := by
  cases capital <;> decide

theorem digitsValue_cons (known : digitValue? base c = some n) (limit value : Nat) (rest : Bytes) :
    digitsValue base (limit + 1) value (c :: rest) =
      ((digitsValue base limit (value * base + n) rest).1, (digitsValue base limit (value * base + n) rest).2 + 1) := by
  rw [digitsValue, known]

theorem digitsValue_full (base value : Nat) (text : Bytes) : digitsValue base 0 value text = (value, 0) := by
  cases text <;> rfl

-- What the escape behind a backslash is read as, when its digits are there.

theorem unescape_octal (first : digitValue? 8 a = some l) (second : digitValue? 8 b = some m)
    (third : digitValue? 8 c = some n) (rest : Bytes) :
    unescapeFrom 0 (backslash :: 0x30 :: a :: b :: c :: rest) = UInt8.ofNat ((l * 8 + m) * 8 + n) :: unescapeFrom 0 rest := by
  have value : digitsValue 8 3 0 (a :: b :: c :: rest) = ((l * 8 + m) * 8 + n, 3) := by
    rw [digitsValue_cons first, digitsValue_cons second, digitsValue_cons third, digitsValue_full]
    simp
  have octal : letterEscape? 0x30 = none := by decide
  rw [unescapeFrom, if_neg (by simp)]
  dsimp only
  rw [octal, value]
  rfl

theorem unescape_hex (first : digitValue? 16 a = some m) (second : digitValue? 16 b = some n) (rest : Bytes) :
    unescapeFrom 0 (backslash :: 0x78 :: a :: b :: rest) = UInt8.ofNat (m * 16 + n) :: unescapeFrom 0 rest := by
  have value : digitsValue 16 2 0 (a :: b :: rest) = (m * 16 + n, 2) := by
    rw [digitsValue_cons first, digitsValue_cons second, digitsValue_full]
    simp
  have hex : letterEscape? 0x78 = none := by decide
  rw [unescapeFrom, if_neg (by simp)]
  dsimp only
  rw [hex, value]
  rfl

theorem unescape_plain (plain : c ≠ backslash) (rest : Bytes) : unescapeFrom 0 (c :: rest) = c :: unescapeFrom 0 rest := by
  rw [unescapeFrom.eq_def]
  exact if_pos plain

-- One written byte is read as that byte, whatever follows.
theorem unescape_bytes (writing : Writing) (allowed : writing = .itself → b ≠ backslash) (rest : Bytes) :
    unescapeFrom 0 (writing.bytes b ++ rest) = b :: unescapeFrom 0 rest := by
  have byte : b.toNat < 256 := b.toNat_lt
  have same : ∀ n, n % 256 = b.toNat → UInt8.ofNat n = b := by
    intro n value
    apply UInt8.toNat_inj.mp
    rw [UInt8.toNat_ofNat']
    exact value
  cases writing with
  | itself => exact unescape_plain (allowed rfl) rest
  | octal ninth =>
    have top : b.toNat / 64 + (if ninth then 4 else 0) < 8 := by
      cases ninth
      · simp only [Bool.false_eq_true, if_false]
        omega
      · simp only [if_true]
        omega
    have read := unescape_octal (octal_value _ top) (octal_value (b.toNat / 8 % 8) (by omega))
      (octal_value (b.toNat % 8) (by omega)) rest
    rw [same _ (by cases ninth <;> simp <;> omega)] at read
    exact read
  | hex capitalHigh capitalLow =>
    have read := unescape_hex (hex_value capitalHigh (b.toNat / 16) (by omega))
      (hex_value capitalLow (b.toNat % 16) (by omega)) rest
    rw [same _ (by omega)] at read
    exact read

theorem unescape_parts (parts : List (Writing × UInt8)) (allowed : ∀ part ∈ parts, part.1 = .itself → part.2 ≠ backslash) :
    unescape (parts.flatMap fun part => part.1.bytes part.2) = parts.map Prod.snd := by
  unfold unescape
  induction parts with
  | nil => rfl
  | cons part others ih =>
    obtain ⟨here, later⟩ := List.forall_mem_cons.mp allowed
    rw [List.flatMap_cons, unescape_bytes part.1 here, ih later, List.map_cons]

-- What is skipped has been paid for before. An escape that is no longer than what it is read as is copied.
theorem unescapeFrom_length (skip : Nat) (text : Bytes) : (unescapeFrom skip text).length ≤ text.length - skip := by
  induction text generalizing skip with
  | nil => simp [unescapeFrom]
  | cons c rest ih =>
    cases skip with
    | succ skip =>
      rw [unescapeFrom]
      have left := ih skip
      simp only [List.length_cons]
      omega
    | zero =>
      have one : ∀ (b : UInt8) (skip : Nat), (b :: unescapeFrom skip rest).length ≤ rest.length + 1 := by
        intro b skip
        have left := ih skip
        simp only [List.length_cons]
        omega
      have copied : ∀ (d : UInt8), rest ≠ [] → (c :: d :: unescapeFrom 1 rest).length ≤ rest.length + 1 := by
        intro d present
        have left := ih 1
        have some := List.length_pos_iff.mpr present
        simp only [List.length_cons]
        omega
      unfold unescapeFrom
      split
      · exact one c 0
      · split
        · simp
        · rename_i d more
          split
          · exact one _ _
          · split
            · exact one _ _
            · split
              · dsimp only
                split
                · exact copied d (by simp)
                · exact one _ _
              · exact copied d (by simp)

-- However the bytes of a text are written it is read; a text without backslashes is read as it is; and nothing grows.
theorem unescape_exact :
    (∀ parts : List (Writing × UInt8), (∀ part ∈ parts, part.1 = .itself → part.2 ≠ backslash) →
      unescape (parts.flatMap fun part => part.1.bytes part.2) = parts.map Prod.snd) ∧
    (∀ text : Bytes, backslash ∉ text → unescape text = text) ∧
    ∀ text : Bytes, (unescape text).length ≤ text.length := by
  refine ⟨unescape_parts, fun text plain => ?_, unescapeFrom_length 0⟩
  have read := unescape_parts (text.map fun c => (.itself, c)) (by
    intro part member _
    obtain ⟨c, here, rfl⟩ := List.mem_map.mp member
    rintro rfl
    exact plain here)
  simpa [List.flatMap_map, Writing.bytes, Function.comp_def] using read

-- Bytes with digits, letters and backslashes behind them that would go on an escape or begin one.
def runTogether : List (Writing × UInt8) :=
  [(.hex false true, 0x4A), (.itself, 0x31), (.octal true, 0xFF), (.itself, 0x37), (.octal false, backslash), (.itself, 0x6E),
    (.hex false true, backslash), (.hex false false, 0x0A)]

theorem unescape_exact_digits :
    (∀ part ∈ runTogether, part.1 = .itself → part.2 ≠ backslash) ∧
    runTogether.flatMap (fun part => part.1.bytes part.2) = ascii "\\x4A1\\07777\\0134n\\x5C\\x0a" ∧
    unescape (ascii "\\x4A1\\07777\\0134n\\x5C\\x0a") = [0x4A, 0x31, 0xFF, 0x37, 0x5C, 0x6E, 0x5C, 0x0A] ∧
    unescape (ascii "plain") = ascii "plain" ∧ (unescape (ascii "\\xZ\\")).length ≤ 4 := by
  have allowed : ∀ part ∈ runTogether, part.1 = .itself → part.2 ≠ backslash := by
    unfold runTogether
    simp [backslash]
  have written : runTogether.flatMap (fun part => part.1.bytes part.2) = ascii "\\x4A1\\07777\\0134n\\x5C\\x0a" := by
    decide +kernel
  have read := unescape_exact.1 runTogether allowed
  rw [written] at read
  exact ⟨allowed, written, read, unescape_exact.2.1 _ (by decide), unescape_exact.2.2 (ascii "\\xZ\\")⟩

end LineShell.Builtin
