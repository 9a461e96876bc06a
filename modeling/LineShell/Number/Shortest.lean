import LineShell.Number.Binary

namespace LineShell

inductive Floating where
  | finite (value : Binary)
  | infinite (negative : Bool)
  | notANumber
  deriving DecidableEq, Repr

-- `0.digits * 10 ^ point`
structure Digits where
  digits : Bytes
  point : Int
  deriving DecidableEq, Repr

structure Quotient where
  num : Nat
  den : Nat

namespace Quotient

def ofBinary (m : Nat) : Int → Quotient
  | .ofNat e => ⟨m * Nat.pow 2 e, 1⟩
  | .negSucc e => ⟨m, Nat.pow 2 (e + 1)⟩

def ofDecimal (n : Nat) : Int → Quotient
  | .ofNat e => ⟨n * Nat.pow 10 e, 1⟩
  | .negSucc e => ⟨n, Nat.pow 10 (e + 1)⟩

def lt (a b : Quotient) : Bool := a.num * b.den < b.num * a.den

def le (a b : Quotient) : Bool := a.num * b.den ≤ b.num * a.den

def divide (a b : Quotient) : Nat × Ordering :=
  let num := a.num * b.den
  let den := a.den * b.num
  (num / den, compare (2 * (num % den)) den)

-- The `p` with `10 ^ (p - 1) ≤ q < 10 ^ p`, for a positive `q`.
def magnitude (q : Quotient) : Int :=
  let places (n : Nat) : Int := (Nat.toDigits 10 n).length
  if q.den ≤ q.num then places (q.num / q.den)
  else
    let k := places (q.den / q.num)
    if q.num * Nat.pow 10 (k - 1).toNat = q.den then 2 - k else 1 - k

end Quotient

structure Interval where
  low : Quotient
  high : Quotient
  closed : Bool

def Interval.contains (i : Interval) (q : Quotient) : Bool :=
  if i.closed then i.low.le q && q.le i.high else i.low.lt q && q.lt i.high

namespace Binary

-- Below the first number of an exponent the steps are only half as wide.
def interval (format : BinaryFormat) (b : Binary) : Interval :=
  let atStart := b.mantissa = Nat.pow 2 (format.precision - 1) && format.least < b.exponent
  { low := .ofBinary (4 * b.mantissa - (if atStart then 1 else 2)) (b.exponent - 2)
    high := .ofBinary (4 * b.mantissa + 2) (b.exponent - 2)
    closed := b.mantissa % 2 = 0 }

def normalize (format : BinaryFormat) (b : Binary) : Binary :=
  if b.mantissa = Nat.pow 2 format.precision then { b with mantissa := b.mantissa / 2, exponent := b.exponent + 1 } else b

def digitsFrom (value : Quotient) (interval : Interval) (magnitude : Int) : Nat → Nat → Nat × Int
  | 0, count => ((value.divide (.ofDecimal 1 (magnitude - count))).1, magnitude - count)
  | fuel + 1, count =>
    let unit : Int := magnitude - count
    let (down, rest) := value.divide (.ofDecimal 1 unit)
    let lower := interval.contains (.ofDecimal down unit)
    let upper := interval.contains (.ofDecimal (down + 1) unit)
    let up :=
      match rest with
      | .lt => false
      | .eq => down % 2 = 1
      | .gt => true
    if lower && upper then (if up then down + 1 else down, unit)
    else if lower then (down, unit)
    else if upper then (down + 1, unit)
    else digitsFrom value interval magnitude fuel (count + 1)

def enoughDigits : Nat := 17

def shortest (format : BinaryFormat) (b : Binary) : Digits :=
  let b := b.normalize format
  let value := Quotient.ofBinary b.mantissa b.exponent
  let (n, unit) := digitsFrom value (b.interval format) value.magnitude enoughDigits 1
  let all := decimal n
  let digits := (all.reverse.dropWhile (· = 0x30)).reverse
  ⟨digits, unit + all.length⟩

end Binary

structure NumberLayout where
  least : Int
  limit : Int
  padded : Bool

namespace Digits

def zeros (n : Int) : Bytes := List.replicate n.toNat 0x30

def positional (d : Digits) : Bytes :=
  if d.point ≤ 0 then ascii "0." ++ zeros (-d.point) ++ d.digits
  else if d.digits.length ≤ d.point.toNat then d.digits ++ zeros (d.point - d.digits.length)
  else d.digits.take d.point.toNat ++ ascii "." ++ d.digits.drop d.point.toNat

def scientific (d : Digits) (padded : Bool) : Bytes :=
  let exponent := d.point - 1
  let numeral := decimal exponent.natAbs
  let numeral := if numeral.length < 2 && (padded || 0 ≤ exponent) then ascii "0" ++ numeral else numeral
  d.digits.take 1 ++ (if d.digits.length ≤ 1 then [] else ascii "." ++ d.digits.drop 1) ++
    ascii (if exponent < 0 then "e-" else "e+") ++ numeral

def text (layout : NumberLayout) (d : Digits) : Bytes :=
  if d.point - 1 < layout.least || layout.limit ≤ d.point - 1 then d.scientific layout.padded else d.positional

end Digits

namespace Binary

def text (format : BinaryFormat) (layout : NumberLayout) (b : Binary) : Bytes :=
  (if b.negative then ascii "-" else []) ++
    (if b.mantissa = 0 then ascii "0" else (b.shortest format).text layout)

def convert (format : BinaryFormat) (b : Binary) : Floating :=
  let q := Quotient.ofBinary b.mantissa b.exponent
  match nearest? format b.negative q.num q.den with
  | some found => .finite found
  | none => .infinite b.negative

end Binary

def Floating.text (format : BinaryFormat) (layout : NumberLayout) : Floating → Bytes
  | .finite b => b.text format layout
  | .infinite negative => ascii (if negative then "-Inf" else "+Inf")
  | .notANumber => ascii "NaN"

def Binary.lt (a b : Binary) : Bool :=
  let x := Quotient.ofBinary a.mantissa a.exponent
  let y := Quotient.ofBinary b.mantissa b.exponent
  match a.negative, b.negative with
  | false, false => x.lt y
  | true, true => y.lt x
  | true, false => 0 < a.mantissa || 0 < b.mantissa
  | false, true => false

def Floating.precedes : Floating → Floating → Bool
  | .notANumber, b => b ≠ .notANumber
  | .infinite true, b => b ≠ .notANumber && b ≠ .infinite true
  | .finite a, .finite b => a.lt b
  | .finite _, .infinite negative => !negative
  | _, _ => false

def Floating.convert (format : BinaryFormat) : Floating → Floating
  | .finite b => b.convert format
  | other => other

end LineShell
