import LineShell.World.Executable
import LineShell.World.Utility

namespace LineShell.Script
open Bytes

inductive Piece where
  | text (bytes : Bytes)
  | variable (name : Bytes) (quoted : Bool)
  -- Marks that the word was quoted, so that it stays even if it is empty.
  | mark
  deriving DecidableEq, Repr

abbrev Word := List Piece

inductive Target where
  | path (word : Word) (mode : World.Mode)
  | copy (slot : Slot)
  deriving Repr

inductive Token where
  | word (w : Word)
  | redirect (slot : Slot) (mode : World.Mode)
  | duplicate (slot source : Slot)
  | semicolon
  | newline
  | andThen
  | orElse
  | pipe
  deriving Repr

def isVariableByte (c : UInt8) : Bool := Variables.isNamePart c

def isSpecial (c : UInt8) : Bool := (ascii "@*#?$!0123456789").contains c

def variableName? : Bytes → Option (Bytes × Bytes)
  | [] => none
  | c :: rest =>
    if c = 0x7B then
      match rest.span (· ≠ 0x7D) with
      | (name, _ :: after) => some (name, after)
      | (name, []) => some (name, [])
    else if isSpecial c then some ([c], rest)
    else if Variables.isNameStart c then some ((c :: rest).span isVariableByte)
    else none

def readDouble : Nat → Bytes → Bytes → Word × Bytes
  | 0, acc, rest => ([.text acc.reverse], rest)
  | _ + 1, acc, [] => ([.text acc.reverse], [])
  | fuel + 1, acc, c :: rest =>
    if c = doubleQuote then ([.text acc.reverse], rest)
    else if c = backslash then
      match rest with
      | d :: after =>
        if d = doubleQuote || d = backslash || d = dollar || d = 0x60 then readDouble fuel (d :: acc) after
        else readDouble fuel (d :: c :: acc) after
      | [] => ([.text (c :: acc).reverse], [])
    else if c = dollar then
      match variableName? rest with
      | some (name, after) =>
        let (pieces, left) := readDouble fuel [] after
        (.text acc.reverse :: .variable name true :: pieces, left)
      | none => readDouble fuel (c :: acc) rest
    else readDouble fuel (c :: acc) rest

def endsWord (c : UInt8) : Bool := (ascii " \t\n;|&<>()").contains c

def readWord : Nat → Bytes → Word × Bytes
  | 0, rest => ([], rest)
  | _ + 1, [] => ([], [])
  | fuel + 1, c :: rest =>
    if endsWord c then ([], c :: rest)
    else if c = singleQuote then
      let (body, after) := rest.span (· ≠ singleQuote)
      let (pieces, left) := readWord fuel (after.drop 1)
      (.mark :: .text body :: pieces, left)
    else if c = doubleQuote then
      let (inner, after) := readDouble (rest.length + 1) [] rest
      let (pieces, left) := readWord fuel after
      (.mark :: inner ++ pieces, left)
    else if c = backslash then
      let (pieces, left) := readWord fuel (rest.drop 1)
      (.mark :: .text (rest.take 1) :: pieces, left)
    else if c = dollar then
      match variableName? rest with
      | some (name, after) =>
        let (pieces, left) := readWord fuel after
        (.variable name false :: pieces, left)
      | none => let (pieces, left) := readWord fuel rest; (.text [c] :: pieces, left)
    else let (pieces, left) := readWord fuel rest; (.text [c] :: pieces, left)

def slotOf (c : UInt8) : Slot :=
  if c = 0x30 then .input else if c = 0x32 then .error else .output

def readOutput (slot : Slot) : Bytes → Token × Bytes
  | 0x3E :: rest => (.redirect slot .append, rest)
  | 0x26 :: d :: rest => (.duplicate slot (slotOf d), rest)
  | rest => (.redirect slot .overwrite, rest)

def tokens : Nat → Bytes → List Token
  | 0, _ => []
  | _ + 1, [] => []
  | fuel + 1, c :: rest =>
    if c = space || c = 0x09 then tokens fuel rest
    else if c = hash then tokens fuel (rest.dropWhile (· ≠ Bytes.newline))
    else if c = Bytes.newline then .newline :: tokens fuel rest
    else if c = 0x3B then .semicolon :: tokens fuel rest
    else if c = ampersand then
      match rest with
      | 0x26 :: after => .andThen :: tokens fuel after
      | _ => .semicolon :: tokens fuel rest
    else if c = 0x7C then
      match rest with
      | 0x7C :: after => .orElse :: tokens fuel after
      | _ => .pipe :: tokens fuel rest
    else if c = 0x3E then
      let (token, after) := readOutput .output rest
      token :: tokens fuel after
    else if c = 0x3C then .redirect .input .read :: tokens fuel rest
    else
      match isDigit c, rest with
      | true, 0x3E :: after =>
        let (token, after) := readOutput (slotOf c) after
        token :: tokens fuel after
      | _, _ =>
        match readWord (rest.length + 2) (c :: rest) with
        | ([], _) => tokens fuel rest
        | (word, after) => .word word :: tokens fuel after

structure Command where
  line : Nat := 1
  words : List Word := []
  redirections : List (Slot × Target) := []
  deriving Repr

inductive Join where
  | always
  | afterSuccess
  | afterFailure
  deriving DecidableEq, Repr

structure Step where
  join : Join
  stages : List Command
  deriving Repr

structure Reading where
  join : Join := .always
  stages : List Command := []
  command : Command := {}

def Reading.isEmpty (r : Reading) : Bool :=
  r.stages.isEmpty && r.command.words.isEmpty && r.command.redirections.isEmpty

def Reading.step (r : Reading) : List Step :=
  if r.isEmpty then [] else [⟨r.join, (r.command :: r.stages).reverse⟩]

def parse : Nat → Reading → List Token → List Step
  | _, r, [] => r.step
  | line, r, .redirect slot mode :: .word w :: rest =>
    parse line { r with command := { r.command with
      redirections := r.command.redirections ++ [(slot, .path w mode)] } } rest
  | line, r, token :: rest =>
    match token with
    | .word w => parse line { r with command := { r.command with words := r.command.words ++ [w] } } rest
    | .redirect .. => parse line r rest
    | .duplicate slot source =>
      parse line { r with command := { r.command with
        redirections := r.command.redirections ++ [(slot, .copy source)] } } rest
    | .semicolon => r.step ++ parse line { command := { line := line } } rest
    | .newline => r.step ++ parse (line + 1) { command := { line := line + 1 } } rest
    | .andThen => r.step ++ parse line { join := .afterSuccess, command := { line := line } } rest
    | .orElse => r.step ++ parse line { join := .afterFailure, command := { line := line } } rest
    | .pipe => parse line { r with stages := r.command :: r.stages, command := { line := line } } rest

def steps (script : Bytes) : List Step := parse 1 {} (tokens (script.length + 1) script)

structure State where
  name : Bytes
  arguments : List Bytes
  bindings : Variables
  cwd : NodeId
  files : Triple (Option FileId)
  status : Nat := 0
  ended : Option Outcome := none

def processNumber : Bytes := ascii "4242"

-- The number they see as that of the shell.
def shellNumber : Bytes := ascii "4241"

def State.value (s : State) (name : Bytes) : Bytes :=
  if name = ascii "0" then s.name
  else if name = ascii "?" then decimal s.status
  else if name = ascii "$" then processNumber
  else if name = ascii "PPID" then shellNumber
  else if name = ascii "#" then decimal s.arguments.length
  else if name = ascii "@" || name = ascii "*" then Bytes.join [space] s.arguments
  else
    match numeral? 10 name with
    | some n => (s.arguments[n - 1]?).getD []
    | none => s.bindings.get name

def isBlankByte (c : UInt8) : Bool := c = space || c = 0x09 || c = Bytes.newline

def fields (text : Bytes) : List Bytes :=
  ((text.map fun c => if isBlankByte c then space else c) |> splitOn space).filter (!·.isEmpty)

def addText (text : Bytes) : List Bytes → List Bytes
  | [] => [text]
  | last :: rest => (last ++ text) :: rest

-- The first of the fields is joined to the last one there is.
def addFields (open? : Bool) (acc : List Bytes) : List Bytes → List Bytes
  | [] => acc
  | first :: more => more.reverse ++ (if open? then addText first acc else first :: acc)

-- The fields are collected last first, and `started` tells whether the last of them may still grow.
def expandWord (s : State) : Bool → List Bytes → Word → List Bytes
  | _, acc, [] => acc.reverse
  | started, acc, piece :: rest =>
    match piece with
    | .mark => if started then expandWord s true acc rest else expandWord s true ([] :: acc) rest
    | .text b => expandWord s true (if started then addText b acc else b :: acc) rest
    | .variable name true =>
      if name = ascii "@" then
        -- Arguments stay apart; without any the empty word the quotes began disappears.
        match s.arguments with
        | [] => if acc.head? = some [] then expandWord s false (acc.drop 1) rest else expandWord s started acc rest
        | args => expandWord s true (addFields started acc args) rest
      else expandWord s true (if started then addText (s.value name) acc else s.value name :: acc) rest
    | .variable name false =>
      match fields (s.value name) with
      | [] => expandWord s started acc rest
      | parts => expandWord s true (addFields started acc parts) rest

def tidy (w : Word) : Word := w.filter (· ≠ .text [])

def expandWords (s : State) (words : List Word) : List Bytes :=
  words.flatMap fun w => expandWord s false [] (tidy w)

def State.job (s : State) (arguments : List Bytes) : Job :=
  { arguments := arguments, environ := s.bindings.environ, cwd := s.cwd, files := s.files }

def redirect (s : State) (line : Nat) : List (Slot × Target) → World → Bool × State × World
  | [], w => (true, s, w)
  | (slot, .copy source) :: rest, w =>
    redirect { s with files := s.files.set slot (s.files.get source) } line rest w
  | (slot, .path word mode) :: rest, w =>
    let path := (expandWords s [word]).headD []
    match World.openNode w.tree s.cwd path mode with
    | .error e =>
      let verb := if mode = World.Mode.read then ascii "open" else ascii "create"
      (false, s, (s.job []).report (s.name ++ ascii ": " ++ decimal line ++ ascii ": cannot " ++ verb ++
        ascii " " ++ path ++ ascii ": " ++ Job.explain e) w)
    | .ok (id, tree) =>
      let (f, w) := { w with tree := tree }.attach
        { name := path, channel := .node id, writable := mode.writes, appending := mode.appends
          closed := true }
      redirect { s with files := s.files.set slot (some f) } line rest w

def Outcome.status : Outcome → Nat
  | .exited code => code
  | .signaled signal => 128 + signal

def runProgram (exec : Job → Utility → World → Outcome × World) (s : State) (line : Nat)
    (arguments : List Bytes) (w : World) : State × World :=
  let name := arguments.headD []
  let refuse (text : Bytes) (code : Nat) : State × World :=
    ({ s with status := code },
      (s.job []).report (s.name ++ ascii ": " ++ decimal line ++ ascii ": " ++ name ++ ascii ": " ++ text) w)
  match w.tree.findExecutable? s.cwd (Path.splitList (s.bindings.get (ascii "PATH"))) name with
  | none =>
    if name.contains slash && (w.tree.find s.cwd name).isOk then refuse (ascii "Permission denied") 126
    else refuse (ascii "not found") 127
  | some path =>
    match w.tree.loadProgram s.cwd Tree.interpreterLimit path arguments with
    | .error _ => refuse (ascii "not found") 127
    | .ok (utility, arguments) =>
      let (outcome, w) := exec (s.job arguments) utility w
      ({ s with status := Outcome.status outcome }, w)

def writeOut (s : State) (data : Bytes) (w : World) : State × World :=
  match (s.job [s.name]).finish data 0 w with
  | (.exited code, w) => ({ s with status := code }, w)
  | (.signaled signal, w) => ({ s with ended := some (.signaled signal) }, w)

def runWords (exec : Job → Utility → World → Outcome × World) (s : State) (line : Nat)
    (words : List Bytes) (w : World) : State × World :=
  match words with
  | [] => (s, w)
  | name :: args =>
    if name = ascii "exit" then
      let code := ((args.head?.bind (numeral? 10)).getD s.status) % 256
      ({ s with status := code, ended := some (.exited code) }, w)
    else if name = ascii "echo" then
      match args with
      | first :: more =>
        if first = ascii "-n" then writeOut s (Job.unescape (Bytes.join [space] more)) w
        else writeOut s (Job.unescape (Bytes.join [space] args) ++ [Bytes.newline]) w
      | [] => writeOut s [Bytes.newline] w
    else if name = ascii "printf" then writeOut s (Job.formatted args) w
    else if name = ascii "pwd" then
      writeOut s ((w.tree.pathOf s.cwd).getD [] ++ [Bytes.newline]) w
    else if name = ascii "cd" then
      match w.tree.find s.cwd (args.headD []) with
      | .ok id => if w.tree.isDirectory id then ({ s with cwd := id, status := 0 }, w) else ({ s with status := 2 }, w)
      | .error _ => ({ s with status := 2 }, w)
    else if name = ascii "kill" then
      match args with
      | [flag, target] =>
        let signal := (numeral? 10 (flag.drop 1)).getD 15
        if target = processNumber then ({ s with ended := some (.signaled signal) }, w)
        else if target = shellNumber then ({ s with status := 0 }, w.kill signal)
        else ({ s with status := 1 }, w)
      | _ => ({ s with status := 2 }, w)
    else if name = ascii ":" || name = ascii "true" then ({ s with status := 0 }, w)
    else if name = ascii "false" then ({ s with status := 1 }, w)
    else runProgram exec s line words w

def runCommand (exec : Job → Utility → World → Outcome × World) (s : State) (c : Command)
    (w : World) : State × World :=
  match redirect s c.line c.redirections w with
  | (false, _, w) => ({ s with status := 2 }, w)
  | (true, inner, w) =>
    match expandWords inner c.words with
    | [single] =>
      match Variables.parseAssignment single with
      | some (name, value) => ({ s with bindings := s.bindings.set name value, status := 0 }, w)
      | none =>
        let (after, w) := runWords exec inner c.line [single] w
        ({ after with files := s.files }, w)
    | words =>
      let (after, w) := runWords exec inner c.line words w
      ({ after with files := s.files }, w)

-- The stages run one after the other, each reading what the one before wrote.
def runStages (exec : Job → Utility → World → Outcome × World) (s : State) :
    List Command → World → State × World
  | [], w => (s, w)
  | [last], w => runCommand exec s last w
  | c :: rest, w =>
    let pipe := w.pipes.size
    let w := { w with pipes := w.pipes.push [] }
    let (reader, w) := w.attach { name := ascii "|0", channel := .reader pipe, attended := true }
    let (writer, w) := w.attach { name := ascii "|1", channel := .writer pipe, writable := true, closed := true }
    let (_, w) := runCommand exec { s with files := s.files.set .output (some writer) } c w
    let (after, w) := runStages exec { s with files := s.files.set .input (some reader) } rest w
    let w := { w with files := w.files.modify reader ({ · with closed := true }) }
    ({ s with status := after.status }, w)

def runSteps (exec : Job → Utility → World → Outcome × World) (s : State) :
    List Step → World → Outcome × World
  | [], w => (.exited s.status, w)
  | step :: rest, w =>
    let skip :=
      match step.join with
      | .always => false
      | .afterSuccess => s.status ≠ 0
      | .afterFailure => s.status = 0
    if skip then runSteps exec s rest w
    else
      let (s, w) := runStages exec s step.stages w
      match s.ended with
      | some outcome => (outcome, w)
      | none => runSteps exec s rest w

def runText (exec : Job → Utility → World → Outcome × World) (job : Job) (name : Bytes)
    (arguments : List Bytes) (script : Bytes) (w : World) : Outcome × World :=
  let s : State :=
    { name := name, arguments := arguments, bindings := Variables.ofEnviron job.environ
      cwd := job.cwd, files := job.files }
  runSteps exec s (steps script) w

def run (exec : Job → Utility → World → Outcome × World) (job : Job) (w : World) : Outcome × World :=
  match job.operands with
  | [] =>
    match job.input w with
    | (.ok script, w) => runText exec job job.name [] script w
    | (.error _, w) => (.exited 2, w)
  | first :: rest =>
    if first = ascii "-c" then
      match rest with
      | [] => (.exited 2, job.report (job.name ++ ascii ": 0: -c requires an argument") w)
      | [script] => runText exec job job.name [] script w
      | script :: name :: arguments => runText exec job name arguments script w
    else
      match w.tree.find job.cwd first with
      | .error e =>
        (.exited 2, job.report (job.name ++ ascii ": 0: cannot open " ++ first ++ ascii ": " ++ Job.explain e) w)
      | .ok id =>
        match w.tree.data id with
        | .ok script => runText exec job first rest script w
        | .error _ => (.exited 2, w)

def execute : Nat → Job → Utility → World → Outcome × World
  | 0, _, _, w => (.exited 1, w)
  | depth + 1, job, utility, w =>
    match utility with
    | .sh => run (execute depth) job w
    | other => job.runUtility w other

end LineShell.Script
