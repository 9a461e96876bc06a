import LineShell.Journal.Counter
import LineShell.Journal.Entry
import LineShell.Yaml.Printer

namespace LineShell

structure Report where
  entries : Nat := 0
  sessions : List Bytes := []
  invalid : Counter := {}
  commands : Counter := {}
  statuses : Counter := {}
  unknownCommands : Counter := {}
  errorKinds : Counter := {}
  errorMessages : Counter := {}
  deriving DecidableEq, Repr

namespace Report

def insertSorted (text : Bytes) : List Bytes → List Bytes
  | [] => [text]
  | t :: rest =>
    if text = t then t :: rest
    else if Bytes.precedes text t then text :: t :: rest
    else t :: insertSorted text rest

def update (r : Report) (e : Entry) : Report :=
  let r := { r with entries := r.entries + 1, sessions := insertSorted e.session r.sessions }
  if e.kind = Event.runCommand then
    { r with
      commands := r.commands.increment e.name
      statuses := r.statuses.increment (decimalInt e.status) }
  else if e.kind = Event.unknownCommand then
    { r with unknownCommands := r.unknownCommands.increment e.name }
  else if [Event.syntaxError, Event.resourceError, Event.spawnError].contains e.kind then
    { r with
      errorKinds := r.errorKinds.increment e.kind
      errorMessages := r.errorMessages.increment e.error }
  else { r with invalid := r.invalid.increment e.kind }

def ofEntries (entries : List Entry) : Report := entries.foldl update {}

open JsonText

-- A string in which, besides what has to be, the characters that mean something in a web page and
-- the two Unicode separators are escaped.
def string (text : Bytes) : Bytes :=
  let pieces : List (Bytes × Bytes) :=
    [(ascii "<", ascii "\\u003c"), (ascii ">", ascii "\\u003e"), (ascii "&", ascii "\\u0026"),
      (Utf8.encode 0x2028, ascii "\\u2028"), (Utf8.encode 0x2029, ascii "\\u2029")]
  pieces.foldl (fun t piece => Bytes.replace piece.1 piece.2 t) (escape text)

def number (n : Nat) : JsonText.Tree := .number (decimal n)

def counterTree (c : Counter) : JsonText.Tree :=
  if c.counts.isEmpty then .null else .object (c.counts.map fun e => (string e.1, number e.2))

def toTree (r : Report) : JsonText.Tree :=
  .object
    [(ascii "log_entries", number r.entries), (ascii "sessions", number r.sessions.length),
      (ascii "unknown_log_entries", counterTree r.invalid),
      (ascii "run_command_report", .object
        [(ascii "command_names", counterTree r.commands), (ascii "statuses", counterTree r.statuses)]),
      (ascii "unknown_command_report", .object [(ascii "command_names", counterTree r.unknownCommands)]),
      (ascii "error_report", .object
        [(ascii "types", counterTree r.errorKinds), (ascii "messages", counterTree r.errorMessages)])]

def toYaml (r : Report) : Except Yaml.ReadFault Bytes := (Yaml.read false (write r.toTree)).map Yaml.print

def yamlFault (fault : Yaml.ReadFault) : Bytes := ascii "error converting JSON to YAML: " ++ fault.message

end Report
end LineShell
