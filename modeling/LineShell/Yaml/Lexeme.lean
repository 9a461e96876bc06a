import LineShell.Yaml.Cursor

namespace LineShell.Yaml
open Scan

-- Only plain scalars are looked at for numbers and the like.
inductive Style where
  | plain
  | quoted
  | block
  deriving DecidableEq, Repr

structure Gap where
  blanks : List Char := []
  first : Option (List Char) := none
  others : List Char := []

namespace Gap

-- A single line break becomes a space, and of several line breaks all but the first stay.
def onto (g : Gap) (text : List Char) : List Char :=
  match g.first with
  | none => g.blanks ++ text
  | some first =>
    if first.head? = some '\n' then (if g.others.isEmpty then ' ' :: text else g.others ++ text)
    else g.others ++ first.reverse ++ text

def addBreak (g : Gap) (found : List Char) : Gap :=
  match g.first with
  | none => { g with blanks := [], first := some found }
  | some _ => { g with others := found.reverse ++ g.others }

def addBlank (g : Gap) (x : Char) : Gap := if g.first.isSome then g else { g with blanks := x :: g.blanks }

end Gap

-- A tab that stands for indentation of less than `indent` columns is refused if `strict`.
def readGap (strict : Bool) (indent : Int) (start : Nat) : Nat → Gap → Scan Gap
  | 0, g => return g
  | fuel + 1, g => do
    let c ← get
    match c.rest with
    | [] => return g
    | x :: _ =>
      if isBlank x then
        if strict && g.first.isSome && (c.column : Int) < indent && x = '\t' then
          fail start "found a tab character that violates indentation"
        else
          skip 1
          need 1
          readGap strict indent start fuel (g.addBlank x)
      else if isBreak x then
        need 2
        let found ← takeBreak
        need 1
        readGap strict indent start fuel (g.addBreak found)
      else return g

def endsFlowPlain (x : Char) : Bool := [',', '?', '[', ']', '{', '}'].contains x

def plainStretch (flow : Bool) : Nat → List Char → Scan (List Char)
  | 0, taken => return taken
  | fuel + 1, taken => do
    let c ← get
    match c.rest with
    | [] => return taken
    | x :: _ =>
      if isBlank x || isBreak x || (x = ':' && c.seesGap 1) || (flow && endsFlowPlain x) then return taken
      else
        skip 1
        need 2
        plainStretch flow fuel (x :: taken)

-- The flag tells whether the scalar ended behind a line break.
def readPlainFrom (flow : Bool) (indent : Int) (start : Nat) : Nat → List Char → Gap → Scan (List Char × Bool)
  | 0, taken, g => return (taken.reverse, g.first.isSome)
  | fuel + 1, taken, g => do
    need 4
    let c ← get
    if c.seesDocumentMark || c.sees 0 '#' then return (taken.reverse, g.first.isSome)
    else
      let stretch ← plainStretch flow c.bound []
      let taken := if stretch.isEmpty then taken else stretch ++ g.onto taken
      let g := if stretch.isEmpty then g else {}
      let c ← get
      if !(c.seesBlank 0 || c.seesBreak 0) then return (taken.reverse, g.first.isSome)
      else
        let g ← readGap true indent start c.bound g
        if !flow && ((← get).column : Int) < indent then return (taken.reverse, g.first.isSome)
        else readPlainFrom flow indent start fuel taken g

def readPlain (flow : Bool) (indent : Int) : Scan (List Char × Bool) := do
  let c ← get
  readPlainFrom flow indent c.line c.bound [] {}

def escape? (x : Char) : Option Nat :=
  match x with
  | '0' => some 0x00
  | 'a' => some 0x07
  | 'b' => some 0x08
  | 't' => some 0x09
  | '\t' => some 0x09
  | 'n' => some 0x0A
  | 'v' => some 0x0B
  | 'f' => some 0x0C
  | 'r' => some 0x0D
  | 'e' => some 0x1B
  | ' ' => some 0x20
  | '"' => some 0x22
  | '\'' => some 0x27
  | '\\' => some 0x5C
  | 'N' => some 0x85
  | '_' => some 0xA0
  | 'L' => some 0x2028
  | 'P' => some 0x2029
  | _ => none

def escapeWidth (x : Char) : Nat :=
  match x with
  | 'x' => 2
  | 'u' => 4
  | 'U' => 8
  | _ => 0

def hexOf? (digits : List Char) : Option Nat := numeral? 16 (digits.map fun x => UInt8.ofNat (min x.toNat 255))

def readEscape (start : Nat) : Scan Char := do
  match (← get).peek? 1 with
  | none => fail start "found unknown escape character"
  | some letter =>
    match escape? letter with
    | some n =>
      skip 2
      return Char.ofNat n
    | none =>
      let width := escapeWidth letter
      if width = 0 then fail start "found unknown escape character"
      else
        skip 2
        need width
        let digits := (← get).rest.take width
        match hexOf? digits with
        | none => fail start "did not find expected hexdecimal number"
        | some n =>
          if digits.length < width then fail start "did not find expected hexdecimal number"
          else if isSurrogate n || 0x10FFFF < n then fail start "found invalid Unicode character escape code"
          else
            skip width
            return Char.ofNat n

-- The flag tells whether the stretch ended at an escaped line break.
def quotedStretch (single : Bool) (start : Nat) : Nat → List Char → Scan (List Char × Bool)
  | 0, taken => return (taken, false)
  | fuel + 1, taken => do
    let c ← get
    match c.rest with
    | [] => return (taken, false)
    | x :: _ =>
      if isBlank x || isBreak x then return (taken, false)
      else if single && x = '\'' && c.sees 1 '\'' then
        skip 2
        need 2
        quotedStretch single start fuel ('\'' :: taken)
      else if x = (if single then '\'' else '"') then return (taken, false)
      else if !single && x = '\\' && c.seesBreak 1 then
        need 3
        skip 1
        let _ ← takeBreak
        return (taken, true)
      else if !single && x = '\\' then
        let found ← readEscape start
        need 2
        quotedStretch single start fuel (found :: taken)
      else
        skip 1
        need 2
        quotedStretch single start fuel (x :: taken)

def readQuotedFrom (single : Bool) (start : Nat) : Nat → List Char → Scan (List Char)
  | 0, _ => fail start "found unexpected end of stream"
  | fuel + 1, taken => do
    need 4
    let c ← get
    if c.seesDocumentMark then fail start "found unexpected document indicator"
    else if c.atEnd then fail start "found unexpected end of stream"
    else
      let (taken, escaped) ← quotedStretch single start c.bound taken
      need 1
      if (← get).sees 0 (if single then '\'' else '"') then
        skip 1
        return taken.reverse
      else
        -- An escaped line break leaves nothing of itself behind.
        let g ← readGap false 0 start c.bound (if escaped then { first := some [] } else {})
        readQuotedFrom single start fuel (g.onto taken)

def readQuoted (single : Bool) : Scan (List Char) := do
  let c ← get
  skip 1
  readQuotedFrom single c.line c.bound []

inductive Chomping where
  | strip
  | clip
  | keep
  deriving DecidableEq, Repr

def readChomping : Scan (Option Chomping) := do
  need 1
  match (← get).peek? 0 with
  | some '+' =>
    skip 1
    return some .keep
  | some '-' =>
    skip 1
    return some .strip
  | _ => return none

def readIncrement (start : Nat) : Scan Nat := do
  need 1
  match (← get).peek? 0 with
  | some x =>
    if x = '0' then fail start "found an indentation indicator equal to 0"
    else if x.isDigit then
      skip 1
      return x.toNat - '0'.toNat
    else return 0
  | none => return 0

def readHeader (start : Nat) : Scan (Chomping × Nat) := do
  match ← readChomping with
  | some chomping => return (chomping, ← readIncrement start)
  | none =>
    let increment ← readIncrement start
    if increment = 0 then return (.clip, 0)
    else return ((← readChomping).getD .clip, increment)

def skipIndent (indent : Nat) : Nat → Scan Unit
  | 0 => return
  | fuel + 1 => do
    need 1
    let c ← get
    if (indent = 0 || c.column < indent) && c.sees 0 ' ' then
      skip 1
      skipIndent indent fuel

-- An indentation of zero is not known yet. Returns the deepest column seen and the line breaks,
-- last one first.
def readBlockBreaks (start indent : Nat) : Nat → Nat → List Char → Scan (Nat × List Char)
  | 0, deepest, breaks => return (deepest, breaks)
  | fuel + 1, deepest, breaks => do
    skipIndent indent (← get).bound
    let c ← get
    let deepest := max deepest c.column
    if (indent = 0 || c.column < indent) && c.sees 0 '\t' then
      fail start "found a tab character where an indentation space is expected"
    else if !c.seesBreak 0 then return (deepest, breaks)
    else
      need 2
      let found ← takeBreak
      readBlockBreaks start indent fuel deepest (found.reverse ++ breaks)

-- The line break of the line before, and those of the empty lines after it, last one first.
def readBlockLines (literal : Bool) (start indent : Nat) :
    Nat → List Char → List Char → List Char → Bool → Scan (List Char × List Char × List Char)
  | 0, taken, first, breaks, _ => return (taken, first, breaks)
  | fuel + 1, taken, first, breaks, leadingBlank => do
    let c ← get
    if c.column ≠ indent || c.atEnd then return (taken, first, breaks)
    else
      let blank := c.seesBlank 0
      let folded := !literal && !leadingBlank && !blank && first.head? = some '\n'
      let taken := if folded then (if breaks.isEmpty then ' ' :: taken else taken) else first.reverse ++ taken
      let line ← takeWhile (!isBreak ·)
      need 2
      let ending ← takeBreak
      let (_, more) ← readBlockBreaks start indent c.bound 0 []
      readBlockLines literal start indent fuel (line.reverse ++ breaks ++ taken) ending more blank

def readBlock (literal : Bool) (parent : Int) : Scan (List Char) := do
  let c ← get
  let start := c.line
  skip 1
  let (chomping, increment) ← readHeader start
  skipToLineEnd
  if !(← get).seesLineEnd 0 then fail start "did not find expected comment or line break"
  else
    skipBreak
    let given : Nat := if increment = 0 then 0 else (max parent 0).toNat + increment
    let (deepest, breaks) ← readBlockBreaks start given c.bound 0 []
    let indent : Nat := if given = 0 then max (max deepest (parent + 1).toNat) 1 else given
    need 1
    let (text, ending, breaks) ← readBlockLines literal start indent c.bound [] [] breaks false
    match chomping with
    | .strip => return text.reverse
    | .clip => return text.reverse ++ ending
    | .keep => return text.reverse ++ ending ++ breaks.reverse

def readAnchor : Scan (List Char) := do
  let start := (← get).line
  skip 1
  let name ← takeWhile isWordChar
  let c ← get
  let ended := c.seesGap 0 || (c.peek? 0).any ['?', ':', ',', ']', '}', '%', '@', Char.ofNat 0x60].contains
  if name.isEmpty || !ended then fail start "did not find expected alphabetic or numeric character"
  else return name

def isUriChar (x : Char) : Bool :=
  isWordChar x ||
    [';', '/', '?', ':', '@', '&', '=', '+', '$', ',', '.', '!', '~', '*', '\'', '(', ')', '[', ']'].contains x

def escapedByte? (c : Cursor) : Option Nat :=
  match c.rest with
  | '%' :: a :: b :: _ => hexOf? [a, b]
  | _ => none

def readTrailing (start : Nat) : Nat → Nat → Scan Nat
  | 0, value => return value
  | count + 1, value => do
    need 3
    match escapedByte? (← get) with
    | none => fail start "did not find URI escaped octet"
    | some n =>
      if n / 64 = 2 then
        skip 3
        readTrailing start count (value * 64 + n % 64)
      else fail start "found an incorrect trailing UTF-8 octet"

def readEscaped (start : Nat) : Scan Char := do
  need 3
  match escapedByte? (← get) with
  | none => fail start "did not find URI escaped octet"
  | some n =>
    match utf8Form? (UInt8.ofNat n) with
    | none => fail start "found an incorrect leading UTF-8 octet"
    | some (width, leading, _) =>
      skip 3
      return Char.ofNat (← readTrailing start (width - 1) leading)

def readUriFrom (start : Nat) : Nat → List Char → Scan (List Char)
  | 0, taken => return taken.reverse
  | fuel + 1, taken => do
    need 1
    match (← get).peek? 0 with
    | some '%' =>
      let found ← readEscaped start
      readUriFrom start fuel (found :: taken)
    | some x =>
      if isUriChar x then
        skip 1
        readUriFrom start fuel (x :: taken)
      else return taken.reverse
    | none => return taken.reverse

def readUri (start : Nat) (front : List Char) : Scan (List Char) := do
  readUriFrom start (← get).bound front.reverse

def readFullUri (start : Nat) : Scan (List Char) := do
  let found ← readUri start []
  if found.isEmpty then fail start "did not find expected tag URI" else return found

def readHandle : Scan (List Char) := do
  skip 1
  let name ← takeWhile isWordChar
  if (← get).sees 0 '!' then
    skip 1
    return '!' :: name ++ ['!']
  else return '!' :: name

-- A tag in angle brackets has no handle, and neither has a lone `!`.
def readTag : Scan (List Char × List Char) := do
  let start := (← get).line
  need 2
  let tag ←
    if (← get).sees 1 '<' then do
      skip 2
      let suffix ← readFullUri start
      if (← get).sees 0 '>' then
        skip 1
        pure ([], suffix)
      else fail start "did not find the expected '>'"
    else do
      let handle ← readHandle
      if 1 < handle.length && handle.getLast? = some '!' then pure (handle, ← readFullUri start)
      else
        let suffix ← readUri start (handle.drop 1)
        pure (if suffix.isEmpty then ([], ['!']) else (['!'], suffix))
  need 1
  if (← get).seesGap 0 then return tag else fail start "did not find expected whitespace or line break"

inductive Directive where
  | version (major minor : Nat)
  | tag (handle leading : List Char)
  deriving DecidableEq, Repr

def versionDigits : Nat := 2

def readVersionNumber (start : Nat) : Nat → Nat → Nat → Scan Nat
  | 0, _, _ => fail start "found extremely long version number"
  | fuel + 1, length, value => do
    need 1
    match (← get).peek? 0 with
    | some x =>
      if !x.isDigit then
        if length = 0 then fail start "did not find expected version number" else return value
      else if length = versionDigits then fail start "found extremely long version number"
      else
        skip 1
        readVersionNumber start fuel (length + 1) (value * 10 + (x.toNat - '0'.toNat))
    | none => if length = 0 then fail start "did not find expected version number" else return value

def readVersion (start : Nat) : Scan Directive := do
  skipWhile isBlank
  let major ← readVersionNumber start (versionDigits + 1) 0 0
  if !(← get).sees 0 '.' then fail start "did not find expected digit or '.' character"
  else
    skip 1
    let minor ← readVersionNumber start (versionDigits + 1) 0 0
    return .version major minor

def readTagDirective (start : Nat) : Scan Directive := do
  skipWhile isBlank
  if !(← get).sees 0 '!' then fail start "did not find expected '!'"
  else
    let handle ← readHandle
    need 1
    if 1 < handle.length && handle.getLast? ≠ some '!' then fail start "did not find expected '!'"
    else if !(← get).seesBlank 0 then fail start "did not find expected whitespace"
    else
      skipWhile isBlank
      let leading ← readFullUri start
      if (← get).seesGap 0 then return .tag handle leading
      else fail start "did not find expected whitespace or line break"

def readDirective : Scan Directive := do
  let start := (← get).line
  skip 1
  let name ← takeWhile isWordChar
  if name.isEmpty then fail start "could not find expected directive name"
  else if !(← get).seesGap 0 then fail start "found unexpected non-alphabetical character"
  else
    let directive ←
      if name = ['Y', 'A', 'M', 'L'] then readVersion start
      else if name = ['T', 'A', 'G'] then readTagDirective start
      else fail start "found unknown directive name"
    skipToLineEnd
    if (← get).seesLineEnd 0 then
      skipBreak
      return directive
    else fail start "did not find expected comment or line break"

end LineShell.Yaml
