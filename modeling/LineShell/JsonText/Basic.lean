import LineShell.Bytes.Quoted

namespace LineShell.JsonText
open Bytes

-- Strings are what stands between the quotes, numbers their numerals.
inductive Tree where
  | null
  | bool (value : Bool)
  | number (numeral : Bytes)
  | string (raw : Bytes)
  | array (items : List Tree)
  | object (fields : List (Bytes × Tree))
  deriving Repr

inductive Context where
  | value
  | key
  | afterKey
  | afterField
  | afterItem
  | inString
  | numeral
  | literal (name : String) (expected : Char)
  deriving DecidableEq, Repr

-- A problem with a place comes with the text from there on.
inductive Problem where
  | unexpectedEnd
  | invalidCharacter (first : UInt8) (rest : Bytes) (context : Context)
  | invalidEscape (rest : Bytes)
  | misplacedBrace
  | tooDeep
  deriving DecidableEq, Repr

def Context.message : Context → Bytes
  | value => ascii "looking for beginning of value"
  | key => ascii "looking for beginning of object key string"
  | afterKey => ascii "after object key"
  | afterField => ascii "after object key:value pair"
  | afterItem => ascii "after array element"
  | inString => ascii "in string"
  | numeral => ascii "in numeric literal"
  | literal name expected =>
    ascii "in literal " ++ ascii name ++ ascii " (expecting '" ++ utf8 (String.singleton expected) ++ ascii "')"

def quoteCharacter (unit : Utf8.Unit) : Bytes :=
  let inner : Bytes :=
    match unit with
    | .char 0x27 _ => ascii "\\'"
    | .char 0x22 _ => [doubleQuote]
    | unit => Quoted.encodeUnit unit
  [singleQuote] ++ inner ++ [singleQuote]

def quoteEscape (written : Bytes) : Bytes :=
  let backquote : UInt8 := 0x60
  let shows (unit : Utf8.Unit) : Bool :=
    match unit with
    | .char n _ => n ≠ backquote.toNat && n ≠ 0xFFFD && n ≠ space.toNat && Printable.isPrintable n
    | .stray _ => false
  if (Utf8.units written).all shows then [backquote] ++ written ++ [backquote] else Quoted.encode written

-- The escape a backslash begins: four places belong to `u`, to any other letter none.
def escapeText (rest : Bytes) : Bytes :=
  backslash :: rest.take (if rest.head? = some 0x75 then 5 else 1)

def Problem.message : Problem → Bytes
  | unexpectedEnd => ascii "unexpected EOF"
  | invalidCharacter first rest context =>
    ascii "invalid character " ++ quoteCharacter (Utf8.unitAt first rest) ++ ascii " " ++ context.message
  | invalidEscape rest => ascii "invalid escape sequence " ++ quoteEscape (escapeText rest) ++ ascii " in string"
  | misplacedBrace => ascii "mismatching structural token for object or array"
  | tooDeep => ascii "exceeded max depth"

def refuse (context : Context) (c : UInt8) (rest : Bytes) : Except Problem α :=
  .error (.invalidCharacter c rest context)

def depthLimit : Nat := 10000

def isBlank (c : UInt8) : Bool := c = 0x20 || c = 0x09 || c = 0x0A || c = 0x0D

def skipBlanks (text : Bytes) : Bytes := text.dropWhile isBlank

def isHex (c : UInt8) : Bool := (digitValue? 16 c).isSome

-- `raw` holds the bytes read so far, last first.
def readString (raw : Bytes) : Bytes → Except Problem (Bytes × Bytes)
  | [] => .error .unexpectedEnd
  | c :: rest =>
    if c = doubleQuote then .ok (raw.reverse, rest)
    else if c = backslash then
      match rest with
      | [] => .error .unexpectedEnd
      | 0x75 :: rest =>
        match rest with
        | a :: b :: d :: e :: after =>
          if [a, b, d, e].all isHex then readString (e :: d :: b :: a :: 0x75 :: c :: raw) after
          else .error (.invalidEscape (0x75 :: rest))
        | short => .error (if short.all isHex then .unexpectedEnd else .invalidEscape (0x75 :: short))
      | e :: rest =>
        if (ascii "bfnrt\\/\"").contains e then readString (e :: c :: raw) rest
        else .error (.invalidEscape (e :: rest))
    else if c < 0x20 then refuse .inString c rest
    else readString (c :: raw) rest

def readDigits (text : Bytes) : Except Problem (Bytes × Bytes) :=
  match text.span isDigit with
  | ([], []) => .error .unexpectedEnd
  | ([], c :: rest) => refuse .numeral c rest
  | found => .ok found

def readExponent : Bytes → Except Problem (Bytes × Bytes)
  | c :: rest =>
    if c = 0x65 || c = 0x45 then
      let (sign, digits) : Bytes × Bytes :=
        match rest with
        | s :: more => if s = 0x2B || s = 0x2D then ([s], more) else ([], rest)
        | [] => ([], [])
      (readDigits digits).map fun found => (c :: sign ++ found.1, found.2)
    else .ok ([], c :: rest)
  | [] => .ok ([], [])

def readFraction : Bytes → Except Problem (Bytes × Bytes)
  | 0x2E :: rest => (readDigits rest).map fun found => (0x2E :: found.1, found.2)
  | text => .ok ([], text)

def readWhole : Bytes → Except Problem (Bytes × Bytes)
  | 0x30 :: rest => .ok ([0x30], rest)
  | text => readDigits text

def readNumber (text : Bytes) : Except Problem (Bytes × Bytes) := do
  let (sign, rest) : Bytes × Bytes :=
    match text with
    | 0x2D :: rest => ([0x2D], rest)
    | _ => ([], text)
  let (whole, rest) ← readWhole rest
  let (fraction, rest) ← readFraction rest
  let (exponent, rest) ← readExponent rest
  return (sign ++ whole ++ fraction ++ exponent, rest)

def readLiteral (name : String) (value : Tree) : List Char → Bytes → Except Problem (Tree × Bytes)
  | [], rest => .ok (value, rest)
  | _ :: _, [] => .error .unexpectedEnd
  | c :: more, b :: rest =>
    if b.toNat = c.toNat then readLiteral name value more rest
    else refuse (.literal name c) b rest

mutual

def readValue (depth : Nat) : Nat → Bytes → Except Problem (Tree × Bytes)
  | 0, _ => .error .unexpectedEnd
  | fuel + 1, text =>
    match skipBlanks text with
    | [] => .error .unexpectedEnd
    | c :: rest =>
      if c = doubleQuote then (readString [] rest).map fun found => (.string found.1, found.2)
      else if c = 0x7B then
        if depthLimit ≤ depth then .error .tooDeep
        else
          match skipBlanks rest with
          | 0x7D :: after => .ok (.object [], after)
          | after => (readFields (depth + 1) fuel after).map fun found => (.object found.1, found.2)
      else if c = 0x5B then
        if depthLimit ≤ depth then .error .tooDeep
        else
          match skipBlanks rest with
          | 0x5D :: after => .ok (.array [], after)
          | after => (readItems (depth + 1) fuel after).map fun found => (.array found.1, found.2)
      else if c = 0x74 then readLiteral "true" (.bool true) ['r', 'u', 'e'] rest
      else if c = 0x66 then readLiteral "false" (.bool false) ['a', 'l', 's', 'e'] rest
      else if c = 0x6E then readLiteral "null" .null ['u', 'l', 'l'] rest
      else if c = 0x2D || isDigit c then
        (readNumber (c :: rest)).map fun found => (.number found.1, found.2)
      else if c = 0x7D then .error .misplacedBrace
      else refuse .value c rest

def readItems (depth : Nat) : Nat → Bytes → Except Problem (List Tree × Bytes)
  | 0, _ => .error .unexpectedEnd
  | fuel + 1, text =>
    match readValue depth fuel text with
    | .error e => .error e
    | .ok (item, rest) =>
      match skipBlanks rest with
      | [] => .error .unexpectedEnd
      | c :: after =>
        if c = 0x2C then (readItems depth fuel after).map fun found => (item :: found.1, found.2)
        else if c = 0x5D then .ok ([item], after)
        else refuse .afterItem c after

def readFields (depth : Nat) : Nat → Bytes → Except Problem (List (Bytes × Tree) × Bytes)
  | 0, _ => .error .unexpectedEnd
  | fuel + 1, text =>
    match skipBlanks text with
    | [] => .error .unexpectedEnd
    | q :: rest =>
      if q ≠ doubleQuote then refuse .key q rest
      else
        match readString [] rest with
        | .error e => .error e
        | .ok (key, rest) =>
          match skipBlanks rest with
          | [] => .error .unexpectedEnd
          | c :: after =>
            if c ≠ colon then refuse .afterKey c after
            else
              match readValue depth fuel after with
              | .error e => .error e
              | .ok (value, rest) =>
                match skipBlanks rest with
                | [] => .error .unexpectedEnd
                | d :: after =>
                  if d = 0x2C then
                    (readFields depth fuel after).map fun found => ((key, value) :: found.1, found.2)
                  else if d = 0x7D then .ok ([(key, value)], after)
                  else refuse .afterField d after

end

def read (text : Bytes) : Except Problem (Tree × Bytes) := readValue 0 (2 * text.length + 2) text

def escapeByte (c : UInt8) : Bytes :=
  if c = doubleQuote then ascii "\\\""
  else if c = backslash then ascii "\\\\"
  else if c = 0x08 then ascii "\\b"
  else if c = 0x0C then ascii "\\f"
  else if c = 0x0A then ascii "\\n"
  else if c = 0x0D then ascii "\\r"
  else if c = 0x09 then ascii "\\t"
  else if c < 0x20 then ascii "\\u" ++ hex 4 c.toNat
  else [c]

def escape (text : Bytes) : Bytes := text.flatMap escapeByte

mutual

def write : Tree → Bytes
  | .null => ascii "null"
  | .bool true => ascii "true"
  | .bool false => ascii "false"
  | .number numeral => numeral
  | .string raw => [doubleQuote] ++ raw ++ [doubleQuote]
  | .array items => [0x5B] ++ writeItems items ++ [0x5D]
  | .object fields => [0x7B] ++ writeFields fields ++ [0x7D]

def writeItems : List Tree → Bytes
  | [] => []
  | [item] => write item
  | item :: rest => write item ++ [0x2C] ++ writeItems rest

def writeFields : List (Bytes × Tree) → Bytes
  | [] => []
  | [(key, value)] => [doubleQuote] ++ key ++ [doubleQuote, colon] ++ write value
  | (key, value) :: rest =>
    [doubleQuote] ++ key ++ [doubleQuote, colon] ++ write value ++ [0x2C] ++ writeFields rest

end

end LineShell.JsonText
