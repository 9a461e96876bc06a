import LineShell.Yaml.Lexeme

namespace LineShell.Yaml

inductive TokenKind where
  | streamEnd
  | directive (d : Directive)
  | documentStart
  | documentEnd
  | sequenceStart
  | mappingStart
  | blockEnd
  | flowSequenceStart
  | flowSequenceEnd
  | flowMappingStart
  | flowMappingEnd
  | blockEntry
  | flowEntry
  | key
  | value
  | reference (name : List Char)
  | anchor (name : List Char)
  | tag (handle suffix : List Char)
  | scalar (text : List Char) (style : Style)
  deriving DecidableEq, Repr

structure Token where
  kind : TokenKind
  line : Nat
  deriving DecidableEq, Repr

-- A key is recognised only by the `:` behind it, so the places where one may have begun are
-- remembered, and its token is put in there afterwards.
structure KeyCandidate where
  possible : Bool := false
  required : Bool := false
  token : Nat := 0
  index : Nat := 0
  line : Nat := 0
  column : Nat := 0
  deriving DecidableEq, Repr

def keyReach : Nat := 1024

def nestingLimit : Nat := 10000

structure Lexing where
  cursor : Cursor
  queue : List Token := []
  -- How many tokens are handed out; the first of the queue has this number.
  taken : Nat := 0
  indent : Int := -1
  outer : List Int := []
  depth : Nat := 0
  flow : Nat := 0
  keyAllowed : Bool := true
  candidates : List KeyCandidate := [{}]
  -- Numbers of tokens that have to wait for a candidate, with the number of brackets around it.
  waiting : List (Nat × Nat) := []

abbrev Lex := StateT Lexing (Except Fault)

namespace Lexing

def nextNumber (l : Lexing) : Nat := l.taken + l.queue.length

def insert (l : Lexing) (number line : Nat) (kind : TokenKind) : Lexing :=
  let place := if number < l.taken then l.queue.length else number - l.taken
  { l with queue := l.queue.take place ++ ⟨kind, line⟩ :: l.queue.drop place }

def forget (l : Lexing) (number : Nat) : Lexing := { l with waiting := l.waiting.filter (·.1 ≠ number) }

def candidate (l : Lexing) : KeyCandidate := l.candidates.headD {}

def setCandidate (l : Lexing) (k : KeyCandidate) : Lexing := { l with candidates := k :: l.candidates.drop 1 }

def placeOf (l : Lexing) (brackets : Nat) : Nat := l.candidates.length - 1 - brackets

def advance (l : Lexing) : Lexing :=
  let taken := l.taken + 1
  { l with queue := l.queue.drop 1, taken := taken, waiting := l.waiting.filter (taken ≤ ·.1) }

end Lexing

namespace Lex

def scan (reading : Scan α) : Lex α := do
  let l ← get
  let (found, cursor) ← reading.run l.cursor
  set { l with cursor := cursor }
  return found

def here : Lex Cursor := return (← get).cursor

def fail (context : Nat) (problem : String) : Lex α := scan (Scan.fail context problem)

def emitAt (line : Nat) (kind : TokenKind) : Lex Unit := modify fun l => { l with queue := l.queue ++ [⟨kind, line⟩] }

def emit (kind : TokenKind) : Lex Unit := do emitAt (← here).line kind

def allowKey (allowed : Bool) : Lex Unit := modify fun l => { l with keyAllowed := allowed }

def missingColon (k : KeyCandidate) : Lex α := fail k.line "could not find expected ':'"

def dropCandidate : Lex Unit := do
  let l ← get
  let k := l.candidate
  if k.possible then
    if k.required then missingColon k else set ((l.setCandidate { k with possible := false }).forget k.token)

def saveCandidate : Lex Unit := do
  let l ← get
  if l.keyAllowed then
    dropCandidate
    let l ← get
    let c := l.cursor
    let k : KeyCandidate :=
      { possible := true, required := l.flow = 0 && l.indent = c.column, token := l.nextNumber
        index := c.index, line := c.line, column := c.column }
    let l := (l.setCandidate k).forget k.token
    set { l with waiting := (k.token, l.flow) :: l.waiting }

def isLive (k : KeyCandidate) : Lex Bool := do
  let c ← here
  if !k.possible then return false
  else if k.line < c.line || k.index + keyReach < c.index then
    if k.required then missingColon k else return false
  else return true

def unroll (column : Int) : Nat → Lex Unit
  | 0 => return
  | fuel + 1 => do
    let l ← get
    if l.flow = 0 && column < l.indent then
      emit .blockEnd
      modify fun l => { l with indent := l.outer.headD (-1), outer := l.outer.drop 1, depth := l.depth - 1 }
      unroll column fuel

def unrollTo (column : Int) : Lex Unit := do unroll column ((← get).depth + 1)

def tooDeep (context : Nat) : Lex α := fail context "exceeded max depth of 10000"

def roll (column number line : Nat) (kind : TokenKind) : Lex Unit := do
  let l ← get
  if l.flow = 0 && l.indent < column then
    if nestingLimit ≤ l.depth then tooDeep l.candidate.line
    else set { l.insert number line kind with indent := column, outer := l.indent :: l.outer, depth := l.depth + 1 }

def rollHere (kind : TokenKind) : Lex Unit := do
  let l ← get
  roll l.cursor.column l.nextNumber l.cursor.line kind

-- A tab may not stand where a key may begin. While the characters at hand began with a byte order
-- mark, the first character of a line is passed over.
def skipGaps : Nat → Lex Unit
  | 0 => return
  | fuel + 1 => do
    scan (Scan.need 1)
    let c ← here
    if c.column = 0 && c.marked then scan (Scan.skip 1)
    let l ← get
    scan (Scan.skipWhile fun x => x = ' ' || ((0 < l.flow || !l.keyAllowed) && x = '\t'))
    if (← here).sees 0 '#' then scan (Scan.skipWhile (!isBreak ·))
    if (← here).seesBreak 0 then
      scan Scan.skipBreak
      if l.flow = 0 then allowKey true
      skipGaps fuel

def leaveAll : Lex Unit := do
  unrollTo (-1)
  dropCandidate
  allowKey false

def mark (kind : TokenKind) (width : Nat) (keyAllowed : Bool) : Lex Unit := do
  emit kind
  scan (Scan.skip width)
  allowKey keyAllowed

def documentMark (kind : TokenKind) : Lex Unit := do
  leaveAll
  mark kind 3 false

def openBracket (kind : TokenKind) : Lex Unit := do
  saveCandidate
  let l ← get
  let c := l.cursor
  -- The place behind the bracket has the bracket's number until a key may begin there.
  let k : KeyCandidate := { token := l.nextNumber, index := c.index, line := c.line, column := c.column }
  if nestingLimit ≤ l.flow then tooDeep c.line
  else
    set { l with flow := l.flow + 1, candidates := k :: l.candidates }
    mark kind 1 true

def closeBracket (kind : TokenKind) : Lex Unit := do
  dropCandidate
  let l ← get
  if 0 < l.flow then
    set { l.forget l.candidate.token with flow := l.flow - 1, candidates := l.candidates.drop 1 }
  mark kind 1 false

def comma : Lex Unit := do
  dropCandidate
  mark .flowEntry 1 true

def checkAllowed (problem : String) : Lex Unit := do
  let l ← get
  if l.flow = 0 && !l.keyAllowed then fail l.cursor.line problem

def dash : Lex Unit := do
  checkAllowed "block sequence entries are not allowed in this context"
  rollHere .sequenceStart
  dropCandidate
  mark .blockEntry 1 true

def question : Lex Unit := do
  checkAllowed "mapping keys are not allowed in this context"
  rollHere .mappingStart
  dropCandidate
  mark .key 1 ((← get).flow = 0)

def colon : Lex Unit := do
  let k := (← get).candidate
  if ← isLive k then
    modify (·.insert k.token k.line .key)
    roll k.column k.token k.line .mappingStart
    modify fun l => (l.setCandidate { k with possible := false }).forget k.token
    mark .value 1 false
  else
    modify (·.setCandidate { k with possible := false })
    checkAllowed "mapping values are not allowed in this context"
    rollHere .mappingStart
    mark .value 1 ((← get).flow = 0)

def lexeme (reading : Scan TokenKind) : Lex Unit := do
  saveCandidate
  allowKey false
  let line := (← here).line
  emitAt line (← scan reading)

def plain : Lex Unit := do
  saveCandidate
  allowKey false
  let l ← get
  let (text, newLine) ← scan (readPlain (0 < l.flow) (l.indent + 1))
  emitAt l.cursor.line (.scalar text .plain)
  if newLine then allowKey true

def startsPlain (x : Char) : Lex Bool := do
  let l ← get
  let c := l.cursor
  let indicators :=
    ['-', '?', ':', ',', '[', ']', '{', '}', '#', '&', '*', '!', '|', '>', '\'', '"', '%', '@', Char.ofNat 0x60]
  return !(isBlank x || isBreak x || indicators.contains x) || (x = '-' && !c.seesBlank 1) ||
    (l.flow = 0 && (x = '?' || x = ':') && !c.seesGap 1)

def tokenAt (x : Char) : Lex Unit := do
  let l ← get
  let c := l.cursor
  if c.column = 0 && x = '%' then
    leaveAll
    emitAt c.line (.directive (← scan readDirective))
  else if c.seesMark '-' then documentMark .documentStart
  else if c.seesMark '.' then documentMark .documentEnd
  else if x = '[' then openBracket .flowSequenceStart
  else if x = '{' then openBracket .flowMappingStart
  else if x = ']' then closeBracket .flowSequenceEnd
  else if x = '}' then closeBracket .flowMappingEnd
  else if x = ',' then comma
  else if x = '-' && c.seesGap 1 then dash
  else if x = '?' && (0 < l.flow || c.seesGap 1) then question
  else if x = ':' && (0 < l.flow || c.seesGap 1) then colon
  else if x = '*' then lexeme (return .reference (← readAnchor))
  else if x = '&' then lexeme (return .anchor (← readAnchor))
  else if x = '!' then
    lexeme do
      let (handle, suffix) ← readTag
      return .tag handle suffix
  else if (x = '|' || x = '>') && l.flow = 0 then
    dropCandidate
    allowKey true
    emitAt c.line (.scalar (← scan (readBlock (x = '|') l.indent)) .block)
  else if x = '\'' || x = '"' then lexeme (return .scalar (← readQuoted (x = '\'')) .quoted)
  else if ← startsPlain x then plain
  else fail c.line "found character that cannot start any token"

def finish : Lex Unit := do
  let l ← get
  let c := l.cursor
  if c.column ≠ 0 then set { l with cursor := { c with line := c.line + 1, column := 0 } }
  leaveAll
  emit .streamEnd

def fetch : Lex Unit := do
  scan (Scan.need 1)
  skipGaps ((← here).bound + 1)
  unrollTo (← here).column
  scan (Scan.need 4)
  match (← here).rest with
  | [] => finish
  | x :: _ => tokenAt x

def mustWait : Lex Bool := do
  let l ← get
  match l.waiting.lookup l.taken with
  | none => return false
  | some brackets =>
    let place := l.placeOf brackets
    let k := l.candidates.getD place {}
    if ← isLive k then return true
    else
      set { l with candidates := l.candidates.set place { k with possible := false } }
      return false

def fill : Nat → Lex Unit
  | 0 => return
  | fuel + 1 => do
    let ready ← if (← get).queue.isEmpty then pure false else (!·) <$> mustWait
    if !ready then
      fetch
      fill fuel

end Lex
end LineShell.Yaml
