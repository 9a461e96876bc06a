import LineShell.Bytes

namespace LineShell.Utf8

-- A character with the bytes it was written with, or a byte that belongs to none.
inductive Unit where
  | char (value : Nat) (bytes : Bytes)
  | stray (byte : UInt8)
  deriving DecidableEq, Repr

def isTail (b : UInt8) : Bool := 0x80 ≤ b && b ≤ 0xBF

def low6 (b : UInt8) : Nat := b.toNat % 64

def secondAllowed (first second : UInt8) : Bool :=
  if first = 0xE0 then 0xA0 ≤ second && second ≤ 0xBF
  else if first = 0xED then 0x80 ≤ second && second ≤ 0x9F
  else if first = 0xF0 then 0x90 ≤ second && second ≤ 0xBF
  else if first = 0xF4 then 0x80 ≤ second && second ≤ 0x8F
  else isTail second

def unitAt (a : UInt8) (rest : Bytes) : Unit :=
  if a < 0x80 then .char a.toNat [a]
  else if 0xC2 ≤ a && a ≤ 0xDF then
    match rest with
    | b :: _ => if isTail b then .char ((a.toNat - 0xC0) * 64 + low6 b) [a, b] else .stray a
    | _ => .stray a
  else if 0xE0 ≤ a && a ≤ 0xEF then
    match rest with
    | b :: c :: _ =>
      if secondAllowed a b && isTail c then
        .char (((a.toNat - 0xE0) * 64 + low6 b) * 64 + low6 c) [a, b, c]
      else .stray a
    | _ => .stray a
  else if 0xF0 ≤ a && a ≤ 0xF4 then
    match rest with
    | b :: c :: d :: _ =>
      if secondAllowed a b && isTail c && isTail d then
        .char ((((a.toNat - 0xF0) * 64 + low6 b) * 64 + low6 c) * 64 + low6 d) [a, b, c, d]
      else .stray a
    | _ => .stray a
  else .stray a

def Unit.bytes : Unit → Bytes
  | .char _ bs => bs
  | .stray b => [b]

-- `skip` bytes already belong to the unit before.
def unitsFrom : Nat → Bytes → List Unit
  | _, [] => []
  | skip + 1, _ :: rest => unitsFrom skip rest
  | 0, a :: rest =>
    let u := unitAt a rest
    u :: unitsFrom (u.bytes.length - 1) rest

def units (text : Bytes) : List Unit := unitsFrom 0 text

def Unit.isChar : Unit → Bool
  | .char .. => true
  | .stray _ => false

def valid (text : Bytes) : Bool := (units text).all Unit.isChar

-- Numbers of no character give U+FFFD.
def encode (n : Nat) : Bytes :=
  if n < 0x80 then [UInt8.ofNat n]
  else if n < 0x800 then [UInt8.ofNat (0xC0 + n / 64), UInt8.ofNat (0x80 + n % 64)]
  else if (0xD800 ≤ n && n ≤ 0xDFFF) || 0x110000 ≤ n then [0xEF, 0xBF, 0xBD]
  else if n < 0x10000 then
    [UInt8.ofNat (0xE0 + n / 4096), UInt8.ofNat (0x80 + n / 64 % 64), UInt8.ofNat (0x80 + n % 64)]
  else
    [UInt8.ofNat (0xF0 + n / 262144), UInt8.ofNat (0x80 + n / 4096 % 64),
      UInt8.ofNat (0x80 + n / 64 % 64), UInt8.ofNat (0x80 + n % 64)]

end LineShell.Utf8
