import LineShell.Bytes.Utf8

namespace LineShell.Yaml

-- `line` is where the problem shows and `context` where what it spoils began, counted from zero.
structure Fault where
  problem : String
  detail : Bytes := []
  line : Nat := 0
  context : Nat := 0
  lexical : Bool := true
  deriving DecidableEq, Repr

def Fault.shownLine (f : Fault) : Nat :=
  if f.line ≠ 0 then (if f.lexical then f.line + 1 else f.line) else f.context

def Fault.message (f : Fault) : Bytes :=
  (if f.shownLine = 0 then [] else ascii "line " ++ decimal f.shownLine ++ ascii ": ") ++ utf8 f.problem ++ f.detail

def isAllowed (n : Nat) : Bool :=
  n = 0x09 || n = 0x0A || n = 0x0D || (0x20 ≤ n && n ≤ 0x7E) || n = 0x85 || (0xA0 ≤ n && n ≤ 0xD7FF) ||
    (0xE000 ≤ n && n ≤ 0xFFFD) || (0x10000 ≤ n && n ≤ 0x10FFFF)

inductive Encoding where
  | utf8
  | utf16 (lowFirst : Bool)
  deriving DecidableEq, Repr

inductive Reading where
  | character (value : Nat) (rest : Bytes)
  | incomplete (problem : String)
  | invalid (problem : String)

def isSurrogate (n : Nat) : Bool := 0xD800 ≤ n && n ≤ 0xDFFF

def utf8Form? (a : UInt8) : Option (Nat × Nat × Nat) :=
  if a < 0x80 then some (1, a.toNat, 0)
  else if a < 0xC0 then none
  else if a < 0xE0 then some (2, a.toNat % 32, 0x80)
  else if a < 0xF0 then some (3, a.toNat % 16, 0x800)
  else if a < 0xF8 then some (4, a.toNat % 8, 0x10000)
  else none

def readUtf8 (a : UInt8) (rest : Bytes) : Reading :=
  match utf8Form? a with
  | none => .invalid "invalid leading UTF-8 octet"
  | some (width, leading, least) =>
    let tail := rest.take (width - 1)
    let value := tail.foldl (fun n b => n * 64 + Utf8.low6 b) leading
    if tail.length < width - 1 then .incomplete "incomplete UTF-8 octet sequence"
    else if !tail.all Utf8.isTail then .invalid "invalid trailing UTF-8 octet"
    else if value < least then .invalid "invalid length of a UTF-8 sequence"
    else if isSurrogate value || 0x10FFFF < value then .invalid "invalid Unicode character"
    else .character value (rest.drop (width - 1))

def readUtf16 (lowFirst : Bool) (a : UInt8) (rest : Bytes) : Reading :=
  let unit (a b : UInt8) : Nat := if lowFirst then b.toNat * 256 + a.toNat else a.toNat * 256 + b.toNat
  match rest with
  | [] => .incomplete "incomplete UTF-16 character"
  | b :: rest =>
    let high := unit a b
    if !isSurrogate high then .character high rest
    else if 0xDC00 ≤ high then .invalid "unexpected low surrogate area"
    else
      match rest with
      | c :: d :: rest =>
        let low := unit c d
        if isSurrogate low && 0xDC00 ≤ low then .character (0x10000 + (high - 0xD800) * 0x400 + (low - 0xDC00)) rest
        else .invalid "expected low surrogate area"
      | _ => .incomplete "incomplete UTF-16 surrogate pair"

def Encoding.read : Encoding → UInt8 → Bytes → Reading
  | .utf8 => readUtf8
  | .utf16 lowFirst => readUtf16 lowFirst

abbrev Block := Except Fault (List Char)

-- `decoded` holds the characters so far, last first; `final` tells that no more bytes follow.
def Encoding.decode (encoding : Encoding) (final : Bool) : Nat → List Char → Bytes → Except Fault (List Char × Bytes)
  | 0, decoded, bytes => .ok (decoded.reverse, bytes)
  | _ + 1, decoded, [] => .ok (decoded.reverse, [])
  | fuel + 1, decoded, a :: rest =>
    match encoding.read a rest with
    | .character value rest =>
      if isAllowed value then encoding.decode final fuel (Char.ofNat value :: decoded) rest
      else .error { problem := "control characters are not allowed" }
    | .incomplete problem => if final then .error { problem := problem } else .ok (decoded.reverse, a :: rest)
    | .invalid problem => .error { problem := problem }

-- A block is decoded as a whole and only when characters of it are needed, so a fault behind the
-- end of a document counts only in a block the document reaches into.
def blockSize : Nat := 512

-- The beginning of a character at the end of a block belongs to the next one.
def blocksFrom (encoding : Encoding) : Nat → Bytes → Bytes → List Block
  | 0, _, _ => []
  | fuel + 1, bytes, later =>
    match encoding.decode false bytes.length [] bytes with
    | .error e => [.error e]
    | .ok (chars, carried) =>
      let fresh := blockSize - carried.length
      let next : List Block :=
        if !later.isEmpty then blocksFrom encoding fuel (carried ++ later.take fresh) (later.drop fresh)
        else if carried.isEmpty then []
        else [(encoding.decode true carried.length [] carried).map (·.1)]
      .ok chars :: next

def encodingOf (text : Bytes) : Encoding × Nat :=
  match text with
  | 0xFF :: 0xFE :: _ => (.utf16 true, 2)
  | 0xFE :: 0xFF :: _ => (.utf16 false, 2)
  | 0xEF :: 0xBB :: 0xBF :: _ => (.utf8, 3)
  | _ => (.utf8, 0)

def blocks (text : Bytes) : List Block :=
  let (encoding, mark) := encodingOf text
  blocksFrom encoding (text.length + 1) ((text.take blockSize).drop mark) (text.drop blockSize)

end LineShell.Yaml
