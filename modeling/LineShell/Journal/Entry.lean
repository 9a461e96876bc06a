import LineShell.JsonText.Value
import LineShell.JsonText.Window
import LineShell.Journal.Event
import LineShell.Number.Shortest

namespace LineShell

structure Entry extends Event where
  session : Bytes := []
  micros : Int := 0
  deriving DecidableEq, Repr

namespace Entry
open JsonText

def ofEvent (session : Bytes) (nanos : Int) (event : Event) : Entry :=
  { toEvent := event, session := session, micros := nanos.tdiv 1000 }

def texts (e : Entry) : List Bytes := [e.session, e.kind, e.line, e.error] ++ e.command

def writable (e : Entry) : Bool := e.texts.all Utf8.valid

def string (text : Bytes) : JsonText.Tree := .string (escape text)

-- Numbers of a log are double precision; the whole numbers below this one are all among them.
def exactLimit : Nat := 9007199254740992

def layout : NumberLayout := ⟨-6, 21, false⟩

def numeral (n : Int) : Bytes :=
  if n.natAbs ≤ exactLimit then decimalInt n
  else ((Binary.nearest? .double (n < 0) n.natAbs 1).map fun b => b.text .double layout).getD []

def toTree (e : Entry) : JsonText.Tree :=
  .object <|
    [(ascii "command", .array (e.command.map string))] ++
    (if e.error.isEmpty then [] else [(ascii "error", string e.error)]) ++
    [(ascii "line", string e.line), (ascii "session_id", string e.session),
      (ascii "status", .number (numeral e.status)),
      (ascii "timestamp_micros", .number (numeral e.micros)), (ascii "type", string e.kind)]

def encode? (e : Entry) : Option Bytes :=
  if e.writable then some (write e.toTree ++ [Bytes.newline]) else none

-- Fields of another type than expected count as empty.
def ofFields? (fields : List (Bytes × Value)) : Option Entry :=
  let field (name : String) : Value := Value.field fields (ascii name)
  let kind := (field "type").text
  if kind.isEmpty then none
  else some
    { kind := kind, line := (field "line").text
      command := (field "command").items.map Value.text
      status := (field "status").word, error := (field "error").text
      session := (field "session_id").text
      -- Times are kept in nanoseconds of 64 bits.
      micros := (wrap64 ((field "timestamp_micros").word * 1000)).tdiv 1000 }

end Entry

inductive LogFault where
  | json (problem : JsonText.Problem)
  | invalidUtf8
  | unsuitable
  | missingKind
  deriving DecidableEq, Repr

namespace LogFault

def message : LogFault → Bytes
  | json problem => problem.message
  | invalidUtf8 => ascii "proto: syntax error: invalid UTF-8 in string"
  | unsuitable => ascii "proto: syntax error"
  | missingKind => ascii "log entry missing \"type\""

def ofValueFault : JsonText.ValueFault → LogFault
  | .invalidUtf8 => invalidUtf8
  | _ => unsuitable

end LogFault

namespace Entry
open JsonText

-- A list is refused at its bracket, whatever it holds.
def ofTree (tree : JsonText.Tree) : Except LogFault Entry :=
  match tree with
  | .array _ => .error .unsuitable
  | tree =>
    match Value.ofTree tree with
    | .error e => .error (.ofValueFault e)
    | .ok (.struct fields) =>
      match ofFields? fields with
      | some entry => .ok entry
      | none => .error .missingKind
    | .ok _ => .error .unsuitable

-- Reading ends, without a fault, in front of a closing bracket or brace.
def valuesFrom : Nat → Bytes → List (JsonText.Tree × Bytes) × Except JsonText.Problem Bytes
  | 0, text => ([], .ok text)
  | fuel + 1, text =>
    match skipBlanks text with
    | [] => ([], .ok [])
    | c :: rest =>
      if c = 0x5D || c = 0x7D then ([], .ok (c :: rest))
      else
        match read (c :: rest) with
        | .error problem => ([], .error problem)
        | .ok (tree, rest) =>
          let (found, ending) := valuesFrom fuel rest
          ((tree, rest) :: found, ending)

def values (log : Bytes) : List JsonText.Tree × Except JsonText.Problem Bytes :=
  let (found, ending) := valuesFrom (log.length + 1) log
  let notice (problem : JsonText.Problem) :=
    Window.notice log.length (found.map fun value => log.length - value.2.length) problem
  (found.map (·.1), ending.mapError notice)

def ofTrees : List JsonText.Tree → List Entry × Option LogFault
  | [] => ([], none)
  | tree :: rest =>
    match ofTree tree with
    | .error fault => ([], some fault)
    | .ok entry =>
      let (entries, fault) := ofTrees rest
      (entry :: entries, fault)

def readAll (log : Bytes) : List Entry × Option LogFault :=
  let (trees, ending) := values log
  let (entries, fault) := ofTrees trees
  match fault, ending with
  | none, .error problem => (entries, some (.json problem))
  | fault, _ => (entries, fault)

def fieldNames : List Bytes :=
  ["command", "line", "session_id", "status", "timestamp_micros", "type"].map ascii

def isComplete : JsonText.Tree → Bool
  | .object fields => fieldNames.all fun name => fields.any (·.1 = name)
  | _ => false

def readWritten? (log : Bytes) : Option (List Entry) :=
  match values log, readAll log with
  | (trees, .ok []), (entries, none) => if trees.all isComplete then some entries else none
  | _, _ => none

end Entry
end LineShell
