import LineShell.Bytes.Base64
import LineShell.Number.Shortest
import LineShell.Yaml.Cursor

namespace LineShell.Yaml
open Bytes

inductive Scalar where
  | null
  | bool (value : Bool)
  | int (value : Int)
  | float (value : Floating)
  | string (text : Bytes)
  deriving DecidableEq, Repr

inductive ScalarKind where
  | null
  | bool
  | int
  | float
  | string
  | timestamp
  deriving DecidableEq, Repr

namespace ScalarKind

def name : ScalarKind → String
  | null => "null"
  | bool => "bool"
  | int => "int"
  | float => "float"
  | string => "str"
  | timestamp => "timestamp"

def all : List ScalarKind := [null, bool, int, float, string, timestamp]

def standardTag : String := "tag:yaml.org,2002:"

def ofTag? (tag : List Char) : Option ScalarKind := all.find? fun k => (standardTag ++ k.name).toList = tag

end ScalarKind

def words : List (Scalar × List String) :=
  [(.bool true, ["y", "Y", "yes", "Yes", "YES", "true", "True", "TRUE", "on", "On", "ON"]),
    (.bool false, ["n", "N", "no", "No", "NO", "false", "False", "FALSE", "off", "Off", "OFF"]),
    (.null, ["", "~", "null", "Null", "NULL"]),
    (.float .notANumber, [".nan", ".NaN", ".NAN"]),
    (.float (.infinite false), [".inf", ".Inf", ".INF", "+.inf", "+.Inf", "+.INF"]),
    (.float (.infinite true), ["-.inf", "-.Inf", "-.INF"])]

def word? (text : Bytes) : Option Scalar :=
  (words.find? fun w => w.2.any fun s => ascii s = text).map (·.1)

def splitSign (text : Bytes) : Option Bool × Bytes :=
  match text with
  | 0x2B :: rest => (some false, rest)
  | 0x2D :: rest => (some true, rest)
  | _ => (none, text)

def unsigned? (text : Bytes) : Option Nat :=
  match text with
  | 0x30 :: [] => some 0
  | 0x30 :: c :: rest =>
    if lowerByte c = 0x78 then numeral? 16 rest
    else if lowerByte c = 0x6F then numeral? 8 rest
    else if lowerByte c = 0x62 then numeral? 2 rest
    else numeral? 8 (c :: rest)
  | _ => numeral? 10 text

-- Without a sign an integer may be as large as an unsigned one.
def integer? (text : Bytes) : Option Int :=
  let (sign, rest) := splitSign text
  (unsigned? rest).bind fun n =>
    let value : Int := if sign = some true then -n else n
    if isWord value || (sign.isNone && n < wordCount) then some value else none

-- The sign of a binary numeral stands behind the mark of the base.
def innerSigned? (text : Bytes) : Option Int :=
  if (ascii "0b").isPrefixOf text then
    match splitSign (text.drop 2) with
    | (some negative, digits) =>
      (numeral? 2 digits).bind fun n =>
        let value : Int := if negative then -n else n
        if isWord value then some value else none
    | _ => none
  else none

def isFloat (text : Bytes) : Bool :=
  let (whole, rest) := (splitSign text).2.span isDigit
  let (fraction, rest) :=
    match rest with
    | 0x2E :: rest => rest.span isDigit
    | _ => ([], rest)
  let exponent :=
    match rest with
    | [] => true
    | c :: rest =>
      let digits := (splitSign rest).2
      lowerByte c = 0x65 && !digits.isEmpty && digits.all isDigit
  (!whole.isEmpty || !fraction.isEmpty) && exponent

def float? (text : Bytes) : Option Scalar :=
  if isFloat text then (Binary.ofDecimal? .double (Decimal.read text)).map fun b => .float (.finite (b.normalize .double)) else none

def underscoresSeparate : Bytes → Bool
  | [] => true
  | [c] => c ≠ 0x5F
  | a :: b :: rest =>
    (if b = 0x5F then isDigit a && rest.head?.any isDigit else a ≠ 0x5F || isDigit b) && underscoresSeparate (b :: rest)

def twoDigits? (limit : Nat) (text : Bytes) : Option (Nat × Bytes) :=
  let digits := (text.take 2).takeWhile isDigit
  (numeral? 10 digits).bind fun n => if n < limit then some (n, text.drop digits.length) else none

def expect? (c : UInt8) (text : Bytes) : Option Bytes := if text.head? = some c then some (text.drop 1) else none

def monthLength (year month : Nat) : Nat :=
  if month = 2 then (if year % 4 = 0 && (year % 100 ≠ 0 || year % 400 = 0) then 29 else 28)
  else if [4, 6, 9, 11].contains month then 30
  else 31

def skipDate? (text : Bytes) : Option Bytes := do
  let year ← numeral? 10 (text.take 4)
  if (text.take 4).length < 4 then none
  let (month, rest) ← twoDigits? 13 (← expect? 0x2D (text.drop 4))
  let (day, rest) ← twoDigits? 32 (← expect? 0x2D rest)
  if month = 0 || day = 0 || monthLength year month < day then none else return rest

def skipTime? (text : Bytes) : Option Bytes := do
  let (_, rest) ← twoDigits? 24 text
  let (_, rest) ← twoDigits? 60 (← expect? colon rest)
  let (_, rest) ← twoDigits? 60 (← expect? colon rest)
  match rest with
  | p :: d :: _ =>
    if (p = dot || p = 0x2C) && isDigit d then return (rest.drop 1).dropWhile isDigit else return rest
  | _ => return rest

def isZone (text : Bytes) : Bool :=
  match text with
  | [0x5A] => true
  | [s, a, b, 0x3A, c, d] =>
    (s = 0x2B || s = 0x2D) && (twoDigits? 25 [a, b]).any (·.2.isEmpty) && (twoDigits? 61 [c, d]).any (·.2.isEmpty)
  | _ => false

def isTimestamp (text : Bytes) : Bool :=
  match skipDate? text with
  | none => false
  | some [] => true
  | some (c :: rest) =>
    if c = space then (skipTime? (rest.dropWhile (· = space))).any List.isEmpty
    else (c = 0x54 || c = 0x74) && (skipTime? rest).any isZone

def plainValue (text : Bytes) : Scalar :=
  match word? text with
  | some value => value
  | none =>
    match text with
    | [] => .null
    | c :: _ =>
      let bare := text.filter (· ≠ 0x5F)
      if c = dot then
        if underscoresSeparate text then (float? bare).getD (.string text) else .string text
      else if isDigit c || c = 0x2B || c = 0x2D then
        match integer? bare with
        | some n => .int n
        | none =>
          match float? bare with
          | some x => x
          | none =>
            match innerSigned? bare with
            | some n => .int n
            | none => .string text
      else .string text

def Scalar.kind : Scalar → ScalarKind
  | .null => .null
  | .bool _ => .bool
  | .int _ => .int
  | .float _ => .float
  | .string _ => .string

def mismatch (found wanted : ScalarKind) (text : Bytes) : Except Fault α :=
  let shown := (String.fromUTF8? (ByteArray.mk text.toArray)).getD ""
  .error { problem := "cannot decode !!" ++ found.name ++ " `" ++ shown ++ "` as a !!" ++ wanted.name }

def taggedValue (wanted : ScalarKind) (text : Bytes) : Except Fault Scalar :=
  if wanted = .string then .ok (.string text)
  else if wanted = .timestamp then
    if isTimestamp text then .ok (.string text) else mismatch (plainValue text).kind wanted text
  else
    let value := plainValue text
    if value.kind = wanted then .ok value
    else
      match wanted, value with
      | .float, .int n =>
        if isWord n then
          .ok <| .float <|
            ((Binary.nearest? .double (n < 0) n.natAbs 1).map fun b => Floating.finite (b.normalize .double)).getD .notANumber
        else mismatch value.kind wanted text
      | _, _ => mismatch value.kind wanted text

def binaryTag : List Char := (ScalarKind.standardTag ++ "binary").toList

def scalarValue (chars tag : List Char) (plain : Bool) : Except Fault Scalar :=
  let text := chars.flatMap String.utf8EncodeChar
  if tag.isEmpty then .ok (if plain then plainValue text else .string text)
  else if tag = binaryTag then
    match Base64.decode? text with
    | some data => .ok (.string data)
    | none => .error { problem := "!!binary value contains invalid base64 data" }
  else
    match ScalarKind.ofTag? tag with
    | some wanted => taggedValue wanted text
    | none => .ok (.string text)

end LineShell.Yaml
