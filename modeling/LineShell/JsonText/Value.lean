import LineShell.JsonText.Basic
import LineShell.Number.Binary

namespace LineShell.JsonText
open Bytes

inductive Value where
  | null
  | bool (value : Bool)
  | number (value : Binary)
  | string (text : Bytes)
  | list (items : List Value)
  | struct (fields : List (Bytes × Value))
  deriving Repr

-- Of several faults the one that comes first in the text counts.
inductive ValueFault where
  | invalidUtf8
  | loneSurrogate
  | duplicateKey
  | numberRange
  deriving DecidableEq, Repr

def hexValue (digits : Bytes) : Nat := (numeral? 16 digits).getD 0

def simpleEscape (c : UInt8) : UInt8 :=
  if c = 0x62 then 0x08
  else if c = 0x66 then 0x0C
  else if c = 0x6E then 0x0A
  else if c = 0x72 then 0x0D
  else if c = 0x74 then 0x09
  else c

-- The first `skip` bytes belong to a character or an escape that is already dealt with.
def unescapeFrom : Nat → Bytes → Except ValueFault Bytes
  | _, [] => .ok []
  | skip + 1, _ :: rest => unescapeFrom skip rest
  | 0, c :: rest =>
    if c = backslash then
      match rest with
      | 0x75 :: a :: b :: d :: e :: more =>
        let high := hexValue [a, b, d, e]
        if 0xD800 ≤ high && high < 0xDC00 then
          match more with
          | 0x5C :: 0x75 :: f :: g :: h :: i :: _ =>
            let low := hexValue [f, g, h, i]
            if 0xDC00 ≤ low && low < 0xE000 then
              (unescapeFrom 11 rest).map (Utf8.encode (0x10000 + (high - 0xD800) * 0x400 + (low - 0xDC00)) ++ ·)
            else .error .loneSurrogate
          | _ => .error .loneSurrogate
        else if 0xDC00 ≤ high && high < 0xE000 then .error .loneSurrogate
        else (unescapeFrom 5 rest).map (Utf8.encode high ++ ·)
      | e :: _ => (unescapeFrom 1 rest).map (simpleEscape e :: ·)
      | [] => .ok []
    else
      match Utf8.unitAt c rest with
      | .stray _ => .error .invalidUtf8
      | .char _ bytes => (unescapeFrom (bytes.length - 1) rest).map (bytes ++ ·)

def unescape (raw : Bytes) : Except ValueFault Bytes := unescapeFrom 0 raw

mutual

def Value.ofTree : Tree → Except ValueFault Value
  | .null => .ok .null
  | .bool b => .ok (.bool b)
  | .number numeral =>
    match Binary.ofDecimal? .double (Decimal.read numeral) with
    | some b => .ok (.number b)
    | none => .error .numberRange
  | .string raw => (unescape raw).map .string
  | .array items => (Value.ofItems items).map .list
  | .object fields => (Value.ofFields [] fields).map .struct

def Value.ofItems : List Tree → Except ValueFault (List Value)
  | [] => .ok []
  | item :: rest =>
    match Value.ofTree item with
    | .error e => .error e
    | .ok value => (Value.ofItems rest).map (value :: ·)

def Value.ofFields (seen : List Bytes) : List (Bytes × Tree) → Except ValueFault (List (Bytes × Value))
  | [] => .ok []
  | (key, item) :: rest =>
    match unescape key with
    | .error e => .error e
    | .ok name =>
      if seen.contains name then .error .duplicateKey
      else
        match Value.ofTree item with
        | .error e => .error e
        | .ok value => (Value.ofFields (name :: seen) rest).map ((name, value) :: ·)

end

namespace Value

def field (fields : List (Bytes × Value)) (name : Bytes) : Value :=
  ((fields.find? (·.1 = name)).map (·.2)).getD .null

def text : Value → Bytes
  | .string t => t
  | _ => []

def word : Value → Int
  | .number b => clamp64 b.truncate
  | _ => 0

def items : Value → List Value
  | .list values => values
  | _ => []

end Value
end LineShell.JsonText
