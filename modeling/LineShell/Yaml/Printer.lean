import LineShell.Yaml.KeyOrder
import LineShell.Yaml.Value

namespace LineShell.Yaml
open Bytes

def charsOf (text : Bytes) : List Char :=
  (Utf8.units text).map fun u =>
    match u with
    | .char n _ => Char.ofNat n
    | .stray _ => Char.ofNat 0xFFFD

inductive ScalarStyle where
  | plain
  | single
  | double
  | literal
  deriving DecidableEq, Repr

def isSexagesimal (text : Bytes) : Bool :=
  let digits := (splitSign text).2
  let (head, rest) := digits.span fun c => isDigit c || c = 0x5F
  let (places, tail) := rest.span (· ≠ dot)
  let isPlace (p : Bytes) : Bool :=
    match p with
    | [a] => isDigit a
    | [a, b] => 0x30 ≤ a && a ≤ 0x35 && isDigit b
    | _ => false
  let pieces := splitOn colon places
  head.head?.any isDigit && 1 < pieces.length && pieces.head?.any List.isEmpty && (pieces.drop 1).all isPlace &&
    (tail.drop 1).all fun c => isDigit c || c = 0x5F

def isBareString (text : Bytes) : Bool :=
  plainValue text = .string text && !isTimestamp text && !isSexagesimal text

def isPrintable (c : Char) : Bool :=
  let n := c.toNat
  n = 0x0A || (0x20 ≤ n && n ≤ 0x7E) || (0xA0 ≤ n && n ≤ 0xD7FF) || (0xE000 ≤ n && n ≤ 0xFFFD && n ≠ 0xFEFF)

def anyPair (p : Char → Char → Bool) : List Char → Bool
  | a :: b :: rest => p a b || anyPair p (b :: rest)
  | _ => false

def startsWithIndicator (text : List Char) : Bool :=
  match text with
  | [] => false
  | c :: rest =>
    let gap := rest.head?.all isBlank
    [['-', '-', '-'], ['.', '.', '.']].contains (text.take 3) ||
      ['#', ',', '[', ']', '{', '}', '&', '*', '!', '|', '>', '\'', '"', '%', '@', Char.ofNat 0x60].contains c ||
      ((c = '?' || c = ':' || c = '-') && gap)

def hasInnerIndicator (text : List Char) : Bool :=
  let rest := text.drop 1
  anyPair (fun a b => a = ':' && isBlank b) rest || (!rest.isEmpty && text.getLast? = some ':') ||
    anyPair (fun a b => (isBlank a || isBreak a || a.toNat = 0) && b = '#') text

structure Analysis where
  multiline : Bool
  plain : Bool
  single : Bool
  literal : Bool

def analyze (text : List Char) : Analysis :=
  if text.isEmpty then { multiline := false, plain := true, single := true, literal := false }
  else
    let isSpace (c : Char) : Bool := c = ' '
    let breaks := text.any isBreak
    let spaceAtEnd := text.getLast?.any isSpace
    let spaceAfterBreak := anyPair (fun a b => isBreak a && isSpace b) text
    let special := !text.all isPrintable || anyPair (fun a b => isSpace a && isBreak b) text
    let indicator := startsWithIndicator text || hasInnerIndicator text
    { multiline := breaks
      plain := !breaks && !spaceAtEnd && !text.head?.any isSpace && !special && !indicator
      single := !spaceAfterBreak && !special
      literal := !spaceAtEnd && !special }

def styleOf (text : Bytes) (chars : List Char) (simpleKey : Bool) : ScalarStyle :=
  let a := analyze chars
  let wished : ScalarStyle :=
    if chars.contains '\n' then .literal else if isBareString text then .plain else .double
  let fallback : ScalarStyle := if a.single then .single else .double
  match wished with
  | .literal => if a.literal && !simpleKey then .literal else .double
  | .plain => if a.plain then .plain else fallback
  | other => other

structure Page where
  written : List Char := []
  column : Nat := 0
  spaced : Bool := true
  fresh : Bool := true

namespace Page

def width : Nat := 80

def put (p : Page) (c : Char) : Page := { p with written := c :: p.written, column := p.column + 1 }

def putAll (p : Page) (text : List Char) : Page := text.foldl put p

def newLine (p : Page) : Page := { p with written := '\n' :: p.written, column := 0 }

def putBreak (p : Page) (c : Char) : Page :=
  if c = '\n' then p.newLine else { p with written := c :: p.written, column := 0 }

def toIndent (p : Page) (indent : Nat) : Page :=
  let p := if !p.fresh || indent < p.column || (p.column = indent && !p.spaced) then p.newLine else p
  { p.putAll (List.replicate (indent - p.column) ' ') with spaced := true, fresh := true }

def indicator (p : Page) (mark : String) (apart keepsFresh : Bool) : Page :=
  let p := if apart && !p.spaced then p.put ' ' else p
  { p.putAll mark.toList with spaced := false, fresh := p.fresh && keepsFresh }

structure Fold where
  spaces : Bool := false
  breaks : Bool := false

-- A line may be folded when it is full, at the first space of a row.
def foldsHere (p : Page) (fold : Bool) (state : Fold) : Bool := fold && !state.spaces && width < p.column

def plainFrom (fold : Bool) (indent : Nat) : Fold → List Char → Page → Page
  | _, [], p => p
  | s, c :: rest, p =>
    if c = ' ' then
      let p := if p.foldsHere fold s && rest.head? ≠ some ' ' then p.toIndent indent else p.put c
      plainFrom fold indent { s with spaces := true } rest p
    else plainFrom fold indent {} rest { p.put c with fresh := false }

def plain (p : Page) (text : List Char) (fold : Bool) (indent : Nat) : Page :=
  let p := if p.spaced then p else p.put ' '
  { plainFrom fold indent {} text p with spaced := false, fresh := false }

def singleFrom (fold : Bool) (indent : Nat) (first : Bool) : Fold → List Char → Page → Page
  | _, [], p => p
  | s, c :: rest, p =>
    if c = ' ' then
      let folds := p.foldsHere fold s && !first && !rest.isEmpty && rest.head? ≠ some ' '
      singleFrom fold indent false { s with spaces := true } rest (if folds then p.toIndent indent else p.put c)
    else if isBreak c then
      let p := if !s.breaks && c = '\n' then p.newLine else p
      singleFrom fold indent false { s with breaks := true } rest { p.putBreak c with fresh := true }
    else
      let p := if s.breaks then p.toIndent indent else p
      let p := if c = '\'' then p.put c else p
      singleFrom fold indent false {} rest { p.put c with fresh := false }

def single (p : Page) (text : List Char) (fold : Bool) (indent : Nat) : Page :=
  let p := singleFrom fold indent true {} text (p.indicator "'" true false)
  { p.indicator "'" false false with spaced := false, fresh := false }

def hexChars (width n : Nat) : List Char :=
  (hex width n).map fun d => (Char.ofNat d.toNat).toUpper

def shortEscape? (n : Nat) : Option Char :=
  [(0x00, '0'), (0x07, 'a'), (0x08, 'b'), (0x09, 't'), (0x0A, 'n'), (0x0B, 'v'), (0x0C, 'f'), (0x0D, 'r'),
    (0x1B, 'e'), (0x22, '"'), (0x5C, '\\'), (0x85, 'N'), (0xA0, '_'), (0x2028, 'L'), (0x2029, 'P')].lookup n

def escaped (c : Char) : List Char :=
  match shortEscape? c.toNat with
  | some letter => ['\\', letter]
  | none =>
    if c.toNat ≤ 0xFF then '\\' :: 'x' :: hexChars 2 c.toNat
    else if c.toNat ≤ 0xFFFF then '\\' :: 'u' :: hexChars 4 c.toNat
    else '\\' :: 'U' :: hexChars 8 c.toNat

-- If the text begins with a byte order mark, `all` of its characters are escaped.
def doubleFrom (all fold : Bool) (indent : Nat) (first spaces : Bool) : List Char → Page → Page
  | [], p => p
  | c :: rest, p =>
    if all || !isPrintable c || isBreak c || c = '"' || c = '\\' then
      doubleFrom all fold indent false false rest (p.putAll (escaped c))
    else if c = ' ' then
      let p :=
        if p.foldsHere fold ⟨spaces, false⟩ && !first && !rest.isEmpty then
          let p := p.toIndent indent
          if rest.head? = some ' ' then p.put '\\' else p
        else p.put c
      doubleFrom all fold indent false true rest p
    else doubleFrom all fold indent false false rest (p.put c)

def double (p : Page) (text : List Char) (fold : Bool) (indent : Nat) : Page :=
  let marked := text.head? = some byteOrderMark
  let p := doubleFrom marked fold indent true false text (p.indicator "\"" true false)
  { p.indicator "\"" false false with spaced := false, fresh := false }

def literalHints (text : List Char) : String :=
  let gap := text.head?.any fun c => c = ' ' || isBreak c
  let ending :=
    match text.reverse with
    | [] => "-"
    | [last] => if isBreak last then "+" else "-"
    | last :: previous :: _ => if !isBreak last then "-" else if isBreak previous then "+" else ""
  (if gap then "2" else "") ++ ending

def literalFrom (indent : Nat) (breaks : Bool) : List Char → Page → Page
  | [], p => p
  | c :: rest, p =>
    if isBreak c then literalFrom indent true rest { p.putBreak c with fresh := true }
    else
      let p := if breaks then p.toIndent indent else p
      literalFrom indent false rest { p.put c with fresh := false }

def literal (p : Page) (text : List Char) (indent : Nat) : Page :=
  let p := ((p.indicator "|" true false).indicator (literalHints text) false false).newLine
  literalFrom indent true text { p with spaced := true, fresh := true }

def string (p : Page) (text : Bytes) (simpleKey : Bool) (indent : Nat) : Page :=
  let chars := charsOf text
  match styleOf text chars simpleKey with
  | .plain => p.plain chars (!simpleKey) indent
  | .single => p.single chars (!simpleKey) indent
  | .double => p.double chars (!simpleKey) indent
  | .literal => p.literal chars indent

def floatText (x : Floating) : Bytes :=
  match x with
  | .notANumber => ascii ".nan"
  | .infinite negative => ascii (if negative then "-.inf" else ".inf")
  | .finite b => b.text .double ⟨-4, 6, true⟩

def scalar (p : Page) (s : Scalar) (simpleKey : Bool) (indent : Nat) : Page :=
  let bare (text : Bytes) : Page := p.plain (charsOf text) (!simpleKey) indent
  match s with
  | .null => bare (ascii "null")
  | .bool b => bare (ascii (if b then "true" else "false"))
  | .int n => bare (decimalInt n)
  | .float x => bare (floatText x)
  | .string text => p.string text simpleKey indent

def simpleKeyLimit : Nat := 128

def isSimpleKey : Scalar → Bool
  | .string text => !(charsOf text).any isBreak && text.length ≤ simpleKeyLimit
  | _ => true

def text (p : Page) : Bytes := p.written.reverse.flatMap String.utf8EncodeChar

end Page

def indentStep : Nat := 2

def Scalar.precedes (a b : Scalar) : Bool :=
  match a, b with
  | .string s, .string t => KeyOrder.precedes (charsOf s) (charsOf t)
  | .int m, .int n => m < n
  | _, _ => false

mutual

def Value.sorted : Value → Value
  | .scalar s => .scalar s
  | .list items => .list (sortedItems items)
  | .map fields => .map ((sortedFields fields).mergeSort fun a b => !b.1.precedes a.1)

def sortedItems : List Value → List Value
  | [] => []
  | item :: rest => item.sorted :: sortedItems rest

def sortedFields : List (Scalar × Value) → List (Scalar × Value)
  | [] => []
  | (key, value) :: rest => (key, value.sorted) :: sortedFields rest

end

mutual

-- Inside a mapping a sequence is not indented further.
def Value.write (indent : Nat) (inMapping : Bool) : Value → Page → Page
  | .scalar s, p => p.scalar s false (indent + indentStep)
  | .list [], p => (p.indicator "[" true false).indicator "]" false false
  | .list items, p => writeItems (if inMapping then indent else indent + indentStep) items p
  | .map [], p => (p.indicator "\x7b" true false).indicator "\x7d" false false
  | .map fields, p => writeFields (indent + indentStep) fields p

def writeItems (indent : Nat) : List Value → Page → Page
  | [], p => p
  | item :: rest, p =>
    let p := (p.toIndent indent).indicator "-" true true
    writeItems indent rest (item.write indent false p)

def writeFields (indent : Nat) : List (Scalar × Value) → Page → Page
  | [], p => p
  | (key, value) :: rest, p =>
    let p := p.toIndent indent
    let p :=
      if Page.isSimpleKey key then (p.scalar key true (indent + indentStep)).indicator ":" false false
      else
        let p := (p.indicator "?" true true).scalar key false (indent + indentStep)
        (p.toIndent indent).indicator ":" true true
    writeFields indent rest (value.write indent true p)

end

def print (v : Value) : Bytes :=
  match v.sorted with
  | .map (f :: fs) => ((writeFields 0 (f :: fs) {}).toIndent 0).text
  | .list (x :: xs) => ((writeItems 0 (x :: xs) {}).toIndent 0).text
  | v => ((v.write 0 false {}).toIndent 0).text

end LineShell.Yaml
