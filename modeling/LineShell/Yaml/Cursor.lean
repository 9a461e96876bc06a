import LineShell.Yaml.Source

namespace LineShell.Yaml

-- `rest` is at hand, `blocks` is not yet taken in.
structure Cursor where
  rest : List Char := []
  blocks : List Block := []
  beyond : Nat := 0
  -- Whether the characters at hand began with a byte order mark when they were last added to.
  marked : Bool := false
  index : Nat := 0
  line : Nat := 0
  column : Nat := 0
  -- No more than this many characters were ever left.
  bound : Nat := 0

abbrev Scan := StateT Cursor (Except Fault)

def byteOrderMark : Char := Char.ofNat 0xFEFF

def isBlank (c : Char) : Bool := c = ' ' || c = '\t'

def isBreak (c : Char) : Bool :=
  c = '\n' || c = '\r' || c = Char.ofNat 0x85 || c = Char.ofNat 0x2028 || c = Char.ofNat 0x2029

def isWordChar (c : Char) : Bool := c.isAlphanum || c = '_' || c = '-'

namespace Cursor

def start (text : Bytes) : Cursor := { blocks := Yaml.blocks text, bound := text.length + 1 }

def peek? (c : Cursor) (n : Nat) : Option Char := c.rest[n]?

def atEnd (c : Cursor) : Bool := c.rest.isEmpty

def sees (c : Cursor) (n : Nat) (x : Char) : Bool := c.peek? n = some x

def seesBlank (c : Cursor) (n : Nat) : Bool := (c.peek? n).any isBlank

def seesBreak (c : Cursor) (n : Nat) : Bool := (c.peek? n).any isBreak

def seesGap (c : Cursor) (n : Nat) : Bool := (c.peek? n).all fun x => isBlank x || isBreak x

def seesLineEnd (c : Cursor) (n : Nat) : Bool := (c.peek? n).all isBreak

def seesMark (c : Cursor) (x : Char) : Bool :=
  c.column = 0 && c.sees 0 x && c.sees 1 x && c.sees 2 x && c.seesGap 3

def seesDocumentMark (c : Cursor) : Bool := c.seesMark '-' || c.seesMark '.'

def has (c : Cursor) (n : Nat) : Bool := n ≤ c.beyond + (c.rest.take n).length

-- Takes blocks in until `n` characters are at hand; the end of the text counts as a character.
def load (n : Nat) (c : Cursor) : List Block → Except Fault Cursor
  | [] => .ok { c with blocks := [], beyond := c.beyond + 1 }
  | .error e :: _ => .error e
  | .ok chars :: later =>
    let c := { c with rest := c.rest ++ chars, blocks := later }
    if c.has n then .ok c else c.load n later

def skip (c : Cursor) (n : Nat) : Cursor :=
  { c with rest := c.rest.drop n, beyond := c.beyond - (n - c.rest.length), index := c.index + n
           column := c.column + n }

def takeBreak (c : Cursor) : List Char × Cursor :=
  let next (n : Nat) : Cursor :=
    { c with rest := c.rest.drop n, index := c.index + n, line := c.line + 1, column := 0 }
  match c.rest with
  | '\r' :: '\n' :: _ => (['\n'], next 2)
  | x :: _ =>
    if x = Char.ofNat 0x2028 || x = Char.ofNat 0x2029 then ([x], next 1)
    else if isBreak x then (['\n'], next 1)
    else ([], c)
  | [] => ([], c)

end Cursor

namespace Scan

def need (n : Nat) : Scan Unit := do
  let c ← get
  if !c.has n then
    let c ← c.load n c.blocks
    set { c with marked := c.rest.head? = some byteOrderMark }

def skip (n : Nat) : Scan Unit := modify (·.skip n)

def takeBreak : Scan (List Char) := do
  let (found, c) := (← get).takeBreak
  set c
  return found

def fail (context : Nat) (problem : String) : Scan α := do
  throw { problem := problem, line := (← get).line, context := context }

def takeWhileFrom (p : Char → Bool) : Nat → List Char → Scan (List Char)
  | 0, taken => return taken.reverse
  | fuel + 1, taken => do
    match (← get).rest with
    | [] => return taken.reverse
    | x :: _ =>
      if p x then
        skip 1
        need 1
        takeWhileFrom p fuel (x :: taken)
      else return taken.reverse

def takeWhile (p : Char → Bool) : Scan (List Char) := do
  need 1
  takeWhileFrom p (← get).bound []

def skipWhile (p : Char → Bool) : Scan Unit := do
  let _ ← takeWhile p

def skipToLineEnd : Scan Unit := do
  skipWhile isBlank
  if (← get).sees 0 '#' then skipWhile (!isBreak ·)

def skipBreak : Scan Unit := do
  if (← get).seesBreak 0 then
    need 2
    let _ ← takeBreak

end Scan
end LineShell.Yaml
