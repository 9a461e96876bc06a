import LineShell.Bytes

namespace LineShell

-- The number `digits · 10 ^ exponent`, with a sign.
structure Decimal where
  negative : Bool := false
  digits : Nat
  exponent : Int := 0
  deriving DecidableEq, Repr

-- The number `mantissa · 2 ^ exponent`, with a sign.
structure Binary where
  negative : Bool := false
  mantissa : Nat
  exponent : Int := 0
  deriving DecidableEq, Repr

structure BinaryFormat where
  precision : Nat
  least : Int
  limit : Nat
  deriving DecidableEq, Repr

def BinaryFormat.double : BinaryFormat := ⟨53, -1074, 1024⟩

def BinaryFormat.single : BinaryFormat := ⟨24, -149, 128⟩

def roundDiv (a b : Nat) : Nat :=
  let q := a / b
  let r := a % b
  if 2 * r < b then q else if b < 2 * r then q + 1 else q + q % 2

namespace Binary

-- The quotient `a / b` as `(a', b')` with `a' / b' = a / b · 2 ^ (-e)`.
def scaled (a b : Nat) : Int → Nat × Nat
  | .ofNat e => (a, b * Nat.pow 2 e)
  | .negSucc e => (a * Nat.pow 2 (e + 1), b)

def nearest? (format : BinaryFormat) (negative : Bool) (a b : Nat) : Option Binary :=
  if a = 0 then some ⟨negative, 0, 0⟩
  else
    -- One more than needed at most: the quotient has this or one more binary digit.
    let guess : Int := (a.log2 : Int) - b.log2 - format.precision
    let place (e : Int) : Int := max e format.least
    let (x, y) := scaled a b (place guess)
    let e := if x / y < Nat.pow 2 format.precision then place guess else place (guess + 1)
    let (x, y) := scaled a b e
    let m := roundDiv x y
    if 0 ≤ e && Nat.pow 2 format.limit ≤ m * Nat.pow 2 e.toNat then none
    else some ⟨negative, m, e⟩

def reach : Int := 500

def ofDecimal? (format : BinaryFormat) (d : Decimal) : Option Binary :=
  let magnitude : Int := (Nat.toDigits 10 d.digits).length + d.exponent
  if d.digits = 0 then some ⟨d.negative, 0, 0⟩
  else if reach < magnitude then none
  else if magnitude < -reach then some ⟨d.negative, 0, 0⟩
  else
    match d.exponent with
    | .ofNat e => nearest? format d.negative (d.digits * Nat.pow 10 e) 1
    | .negSucc e => nearest? format d.negative d.digits (Nat.pow 10 (e + 1))

def truncate (b : Binary) : Int :=
  let n : Nat :=
    match b.exponent with
    | .ofNat e => b.mantissa * Nat.pow 2 e
    | .negSucc e => b.mantissa / Nat.pow 2 (e + 1)
  if b.negative then -n else n

end Binary

def wordCount : Nat := 18446744073709551616

def signedLimit : Int := 9223372036854775808

def isWord (n : Int) : Bool := -signedLimit ≤ n && n < signedLimit

def clamp64 (n : Int) : Int := if isWord n then n else -signedLimit

def wrap64 (n : Int) : Int := (n + signedLimit) % wordCount - signedLimit

namespace Decimal

def spanDigits (text : Bytes) : Bytes × Bytes := text.span Bytes.isDigit

-- Every digit sequence may be empty, so the text has to be checked elsewhere.
def read (text : Bytes) : Decimal :=
  let (negative, text) :=
    match text with
    | 0x2D :: rest => (true, rest)
    | 0x2B :: rest => (false, rest)
    | _ => (false, text)
  let (whole, text) := spanDigits text
  let (fraction, text) :=
    match text with
    | 0x2E :: rest => spanDigits rest
    | _ => ([], text)
  let exponent : Int :=
    match text with
    | _ :: 0x2D :: rest => -((numeral? 10 rest).getD 0)
    | _ :: 0x2B :: rest => (numeral? 10 rest).getD 0
    | _ :: rest => (numeral? 10 rest).getD 0
    | [] => 0
  ⟨negative, (numeral? 10 (whole ++ fraction)).getD 0, exponent - fraction.length⟩

end Decimal
end LineShell
