import LineShell.Bytes.Printable
import LineShell.Bytes.Utf8

namespace LineShell.Quoted

def named? (n : Nat) : Option UInt8 :=
  match n with
  | 0x07 => some 0x61
  | 0x08 => some 0x62
  | 0x0C => some 0x66
  | 0x0A => some 0x6E
  | 0x0D => some 0x72
  | 0x09 => some 0x74
  | 0x0B => some 0x76
  | 0x22 => some 0x22
  | 0x5C => some 0x5C
  | _ => none

def escapeByte (n : Nat) : Bytes := ascii "\\x" ++ Bytes.hex 2 n

def encodeUnit : Utf8.Unit → Bytes
  | .stray b => escapeByte b.toNat
  | .char n bytes =>
    match named? n with
    | some letter => [Bytes.backslash, letter]
    | none =>
      if Printable.isPrintable n then bytes
      else if n < 0x80 then escapeByte n
      else if n < 0x10000 then ascii "\\u" ++ Bytes.hex 4 n
      else ascii "\\U" ++ Bytes.hex 8 n

def encode (text : Bytes) : Bytes :=
  [Bytes.doubleQuote] ++ (Utf8.units text).flatMap encodeUnit ++ [Bytes.doubleQuote]

def encodeList (texts : List Bytes) : Bytes :=
  ascii "[" ++ Bytes.join [Bytes.space] (texts.map encode) ++ ascii "]"

end LineShell.Quoted
