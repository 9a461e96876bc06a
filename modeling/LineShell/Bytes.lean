namespace LineShell

abbrev Bytes := List UInt8

def ascii (s : String) : Bytes := s.toList.map fun c => UInt8.ofNat c.toNat

def utf8 (s : String) : Bytes := s.toList.flatMap String.utf8EncodeChar

namespace Bytes

-- The bytes with a meaning of their own somewhere in a line.
def newline : UInt8 := 0x0A
def space : UInt8 := 0x20
def doubleQuote : UInt8 := 0x22
def hash : UInt8 := 0x23
def dollar : UInt8 := 0x24
def ampersand : UInt8 := 0x26
def singleQuote : UInt8 := 0x27
def openParen : UInt8 := 0x28
def closeParen : UInt8 := 0x29
def dot : UInt8 := 0x2E
def slash : UInt8 := 0x2F
def colon : UInt8 := 0x3A
def equals : UInt8 := 0x3D
def backslash : UInt8 := 0x5C

def isDigit (c : UInt8) : Bool := 0x30 ≤ c && c ≤ 0x39

def isLetter (c : UInt8) : Bool := (0x41 ≤ c && c ≤ 0x5A) || (0x61 ≤ c && c ≤ 0x7A)

def lowerByte (c : UInt8) : UInt8 := if 0x41 ≤ c && c ≤ 0x5A then c + 0x20 else c

def lower (b : Bytes) : Bytes := b.map lowerByte

def digitValue? (base : Nat) (c : UInt8) : Option Nat :=
  let value :=
    if isDigit c then some (c.toNat - 0x30)
    else if 0x61 ≤ c && c ≤ 0x66 then some (c.toNat - 0x61 + 10)
    else if 0x41 ≤ c && c ≤ 0x46 then some (c.toNat - 0x41 + 10)
    else none
  value.filter (· < base)

def cut? (c : UInt8) : Bytes → Option (Bytes × Bytes)
  | [] => none
  | b :: rest => if b = c then some ([], rest) else (cut? c rest).map fun p => (b :: p.1, p.2)

def splitOn (c : UInt8) : Bytes → List Bytes
  | [] => [[]]
  | b :: rest =>
    if b = c then [] :: splitOn c rest
    else match splitOn c rest with
      | [] => [[b]]
      | piece :: pieces => (b :: piece) :: pieces

def join (separator : Bytes) : List Bytes → Bytes
  | [] => []
  | [piece] => piece
  | piece :: pieces => piece ++ separator ++ join separator pieces

def hasInfix (pattern : Bytes) : Bytes → Bool
  | [] => pattern.isEmpty
  | b :: rest => pattern.isPrefixOf (b :: rest) || hasInfix pattern rest

def replaceFrom (pattern value : Bytes) : Nat → Bytes → Bytes
  | _, [] => []
  | skip + 1, _ :: rest => replaceFrom pattern value skip rest
  | 0, b :: rest =>
    if pattern.isPrefixOf (b :: rest) then value ++ replaceFrom pattern value (pattern.length - 1) rest
    else b :: replaceFrom pattern value 0 rest

-- Replaces the occurrences of a non-empty pattern, found from left to right without overlap.
def replace (pattern value text : Bytes) : Bytes :=
  if pattern.isEmpty then text else replaceFrom pattern value 0 text

def precedes : Bytes → Bytes → Bool
  | [], [] => false
  | [], _ :: _ => true
  | _ :: _, [] => false
  | a :: as, b :: bs => if a = b then precedes as bs else a < b

def notAfter (a b : Bytes) : Bool := !precedes b a

def sort (texts : List Bytes) : List Bytes := texts.mergeSort notAfter

def distinct : List Bytes → List Bytes
  | [] => []
  | t :: rest => t :: (distinct rest).filter (· ≠ t)

def hexDigit (n : Nat) : UInt8 := if n < 10 then UInt8.ofNat (0x30 + n) else UInt8.ofNat (0x57 + n)

def hex : Nat → Nat → Bytes
  | 0, _ => []
  | width + 1, n => hex width (n / 16) ++ [hexDigit (n % 16)]

end Bytes

def decimal (n : Nat) : Bytes := (Nat.toDigits 10 n).map fun c => UInt8.ofNat c.toNat

def decimalInt : Int → Bytes
  | .ofNat n => decimal n
  | .negSucc n => ascii "-" ++ decimal (n + 1)

def numeral? (base : Nat) : Bytes → Option Nat
  | [] => none
  | digits => digits.foldlM (fun n c => (Bytes.digitValue? base c).map (n * base + ·)) 0

end LineShell
