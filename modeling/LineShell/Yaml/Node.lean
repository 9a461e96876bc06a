import LineShell.Yaml.Token

namespace LineShell.Yaml

inductive Node where
  | scalar (text : List Char) (tag : List Char) (plain : Bool) (line : Nat)
  | sequence (items : List Node) (line : Nat)
  | mapping (pairs : List (Node × Node)) (line : Nat)
  | reference (target : Node) (line : Nat)
  -- A reference to a mapping or sequence it stands in itself.
  | cycle (name : List Char) (toMapping : Bool) (line : Nat)
  deriving Repr

def Node.line : Node → Nat
  | .scalar _ _ _ line => line
  | .sequence _ line => line
  | .mapping _ line => line
  | .reference _ line => line
  | .cycle _ _ line => line

def Node.absent (line : Nat) : Node := .scalar [] [] true line

structure Anchor where
  name : List Char
  number : Nat
  target : Option Node
  isMapping : Bool

structure Parsing where
  lexing : Lexing
  handles : List (List Char × List Char) := []
  anchors : List Anchor := []

abbrev Parse := StateT Parsing (Except Fault)

namespace Parse

def peek : Parse Token := do
  let p ← get
  let (_, lexing) ← (Lex.fill (p.lexing.cursor.bound + 2)).run p.lexing
  set { p with lexing := lexing }
  return lexing.queue.headD ⟨.streamEnd, lexing.cursor.line⟩

def kind : Parse TokenKind := return (← peek).kind

def advance : Parse Unit := modify fun p => { p with lexing := p.lexing.advance }

def failAt (line context : Nat) (problem : String) : Parse α :=
  throw { problem := problem, line := line, context := context, lexical := false }

def fail (context : Nat) (problem : String) : Parse α := do failAt (← peek).line context problem

def resolveTag (line context : Nat) (handle suffix : List Char) : Parse (List Char) := do
  if handle.isEmpty then return suffix
  else
    match (← get).handles.find? (·.1 = handle) with
    | some found => return found.2 ++ suffix
    | none => failAt line context "found undefined tag handle"

def anchor? : Parse (Option (List Char)) := do
  match ← kind with
  | .anchor name =>
    advance
    return some name
  | _ => return none

def tag? : Parse (Option (List Char × List Char × Nat)) := do
  let token ← peek
  match token.kind with
  | .tag handle suffix =>
    advance
    return some (handle, suffix, token.line)
  | _ => return none

-- What a handle stands for is only asked when the token behind both is known.
def properties : Parse (Option (List Char) × List Char) := do
  let start := (← peek).line
  let first ← anchor?
  let tag ← tag?
  let anchor ← if first.isNone && tag.isSome then anchor? else pure first
  let _ ← peek
  match tag with
  | some (handle, suffix, line) => return (anchor, ← resolveTag line start handle suffix)
  | none => return (anchor, [])

def define (name : Option (List Char)) (node : Node) : Parse Unit := do
  if let some name := name then
    modify fun p => { p with anchors := ⟨name, p.anchors.length, some node, false⟩ :: p.anchors }

-- The name is there before what the node holds is read, and gets its node afterwards.
def defineAround (name : Option (List Char)) (isMapping : Bool) (reading : Parse Node) : Parse Node := do
  match name with
  | none => reading
  | some name =>
    let number := (← get).anchors.length
    modify fun p => { p with anchors := ⟨name, number, none, isMapping⟩ :: p.anchors }
    let node ← reading
    modify fun p =>
      { p with anchors := p.anchors.map fun a => if a.number = number then { a with target := some node } else a }
    return node

def resolve (name : List Char) (line : Nat) : Parse Node := do
  match (← get).anchors.find? (·.name = name) with
  | some anchor =>
    match anchor.target with
    | some node => return .reference node line
    | none => return .cycle name anchor.isMapping line
  | none => throw { problem := "unknown anchor '" ++ String.ofList name ++ "' referenced", lexical := false }

def missing : Parse Node := return .absent (← peek).line

def isValueEnd (k : TokenKind) : Bool := k = .key || k = .value || k = .blockEnd

mutual

-- `block` tells whether indented constructs may stand here, `indentless` whether a sequence may be
-- written without indentation.
def node (block indentless : Bool) : Nat → Parse Node
  | 0 => fail 0 "did not find expected node content"
  | fuel + 1 => do
    let token ← peek
    let line := token.line
    match token.kind with
    | .reference name =>
      let found ← resolve name line
      advance
      return found
    | _ =>
      let (anchor, tag) ← properties
      let here ← kind
      match here with
      | .scalar text style =>
        advance
        let found := Node.scalar text tag ((tag.isEmpty && style = .plain) || tag = ['!']) line
        define anchor found
        return found
      | .flowSequenceStart =>
        defineAround anchor false do
          let start := (← peek).line
          advance
          return .sequence (← flowItems start true [] fuel) line
      | .flowMappingStart =>
        defineAround anchor true do
          let start := (← peek).line
          advance
          return .mapping (← flowPairs start true [] fuel) line
      | _ =>
        if indentless && here = .blockEntry then
          defineAround anchor false do return .sequence (← indentlessItems [] fuel) line
        else if block && here = .sequenceStart then
          defineAround anchor false do
            let start := (← peek).line
            advance
            return .sequence (← blockItems start [] fuel) line
        else if block && here = .mappingStart then
          defineAround anchor true do
            let start := (← peek).line
            advance
            return .mapping (← blockPairs start [] fuel) line
        else if anchor.isSome || !tag.isEmpty then
          let found := Node.scalar [] tag tag.isEmpty line
          define anchor found
          return found
        else fail line "did not find expected node content"
termination_by structural fuel => fuel

def blockItems (start : Nat) (items : List Node) : Nat → Parse (List Node)
  | 0 => fail start "did not find expected '-' indicator"
  | fuel + 1 => do
    let token ← peek
    match token.kind with
    | .blockEntry =>
      advance
      let next ← kind
      let item ←
        if next = .blockEntry || next = .blockEnd then pure (.absent token.line) else node true false fuel
      blockItems start (item :: items) fuel
    | .blockEnd =>
      advance
      return items.reverse
    | _ => fail start "did not find expected '-' indicator"
termination_by structural fuel => fuel

def indentlessItems (items : List Node) : Nat → Parse (List Node)
  | 0 => return items.reverse
  | fuel + 1 => do
    let token ← peek
    match token.kind with
    | .blockEntry =>
      advance
      let next ← kind
      let item ←
        if next = .blockEntry || isValueEnd next then pure (.absent token.line) else node true false fuel
      indentlessItems (item :: items) fuel
    | _ => return items.reverse
termination_by structural fuel => fuel

def blockPairs (start : Nat) (pairs : List (Node × Node)) : Nat → Parse (List (Node × Node))
  | 0 => fail start "did not find expected key"
  | fuel + 1 => do
    let token ← peek
    match token.kind with
    | .key =>
      advance
      let key ← if isValueEnd (← kind) then pure (.absent token.line) else node true true fuel
      let mark ← peek
      let value ←
        if mark.kind = .value then do
          advance
          if isValueEnd (← kind) then pure (.absent mark.line) else node true true fuel
        else pure (.absent mark.line)
      blockPairs start ((key, value) :: pairs) fuel
    | .blockEnd =>
      advance
      return pairs.reverse
    | _ => fail start "did not find expected key"
termination_by structural fuel => fuel

-- A pair among the entries is a mapping of its own. Where the key of such a pair is left out, the
-- token in its place is lost.
def flowItems (start : Nat) (first : Bool) (items : List Node) : Nat → Parse (List Node)
  | 0 => fail start "did not find expected ',' or ']'"
  | fuel + 1 => do
    let here ← kind
    if here ≠ .flowSequenceEnd && !first then
      if here = .flowEntry then advance else fail start "did not find expected ',' or ']'"
    let token ← peek
    match token.kind with
    | .flowSequenceEnd =>
      advance
      return items.reverse
    | .key =>
      advance
      let isEnd (k : TokenKind) : Bool := k = .flowEntry || k = .flowSequenceEnd
      let next ← peek
      let key ←
        if next.kind = .value || isEnd next.kind then do
          advance
          pure (.absent next.line)
        else node false false fuel
      let mark ← peek
      let value ←
        if mark.kind = .value then do
          advance
          if isEnd (← kind) then pure (.absent mark.line) else node false false fuel
        else pure (.absent mark.line)
      let _ ← peek
      flowItems start false (.mapping [(key, value)] token.line :: items) fuel
    | _ =>
      let item ← node false false fuel
      flowItems start false (item :: items) fuel
termination_by structural fuel => fuel

def flowPairs (start : Nat) (first : Bool) (pairs : List (Node × Node)) : Nat → Parse (List (Node × Node))
  | 0 => fail start "did not find expected ',' or '\x7d'"
  | fuel + 1 => do
    let here ← kind
    if here ≠ .flowMappingEnd && !first then
      if here = .flowEntry then advance else fail start "did not find expected ',' or '\x7d'"
    let isEnd (k : TokenKind) : Bool := k = .flowEntry || k = .flowMappingEnd
    match ← kind with
    | .flowMappingEnd =>
      advance
      return pairs.reverse
    | .key =>
      advance
      let next ← kind
      let key ← if next = .value || isEnd next then missing else node false false fuel
      let value ←
        if (← kind) = .value then do
          advance
          if isEnd (← kind) then missing else node false false fuel
        else missing
      flowPairs start false ((key, value) :: pairs) fuel
    | _ =>
      let key ← node false false fuel
      let value ← missing
      flowPairs start false ((key, value) :: pairs) fuel
termination_by structural fuel => fuel

end

def standardHandles : List (List Char × List Char) :=
  [(['!'], ['!']), (['!', '!'], "tag:yaml.org,2002:".toList)]

def directives (version : Bool) : Nat → Parse Unit
  | 0 => return
  | fuel + 1 => do
    match ← kind with
    | .directive (.version major minor) =>
      if version then fail 0 "found duplicate %YAML directive"
      else if major ≠ 1 || minor ≠ 1 then fail 0 "found incompatible YAML document"
      else
        advance
        directives true fuel
    | .directive (.tag handle leading) =>
      if (← get).handles.any (·.1 = handle) then fail 0 "found duplicate %TAG directive"
      else
        modify fun p => { p with handles := p.handles ++ [(handle, leading)] }
        advance
        directives version fuel
    | _ =>
      modify fun p =>
        { p with handles := p.handles ++ standardHandles.filter fun h => !p.handles.any (·.1 = h.1) }

def root (fuel : Nat) : Parse Node := do
  let found ← node true false fuel
  let _ ← peek
  return found

def content (fuel : Nat) : Parse Node := do
  match ← kind with
  | .directive _ | .documentStart | .documentEnd | .streamEnd => missing
  | _ => root fuel

-- What follows the first document is not looked at.
def document (fuel : Nat) : Parse (Option Node) := do
  match ← kind with
  | .streamEnd => return none
  | .directive _ | .documentStart =>
    directives false fuel
    if (← kind) = .documentStart then
      advance
      return some (← content fuel)
    else fail 0 "did not find expected <document start>"
  | _ =>
    directives false fuel
    return some (← root fuel)

end Parse

-- An empty text counts as an empty line.
def parse (text : Bytes) : Except Fault (Option Node) :=
  let cursor := Cursor.start (if text.isEmpty then [Bytes.newline] else text)
  -- No character makes more than four tokens.
  (Parse.document (4 * cursor.bound + 8)).run' { lexing := { cursor := cursor } }

end LineShell.Yaml
