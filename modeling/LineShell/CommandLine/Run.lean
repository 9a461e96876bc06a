import LineShell.CommandLine.Command
import LineShell.Journal.Report
import LineShell.Session.Interactive
import LineShell.Settings.Load

namespace LineShell.CommandLine
open Bytes

structure Invocation where
  arguments : List Bytes
  std : Triple (Option FileId)
  number : Nat := 0

inductive Ending where
  | status (code : Int)
  | misused (command : Command) (reason : Bytes)
  | failed (reason : Bytes)
  deriving DecidableEq, Repr

-- What whoever started the program sees of its end.
inductive Exit where
  | status (code : Nat)
  | signal (number : Nat)
  | never
  deriving DecidableEq, Repr

def versionText : Bytes := ascii "Myshell, bash but worse, version 2.0.0\n"

def defaultConfig (w : World) : Bytes :=
  let value (name : String) : Bytes := (w.environValue? (ascii name)).getD []
  let own := Path.join [value "XDG_CONFIG_HOME", ascii "myshell"]
  if !(value "XDG_CONFIG_HOME").isEmpty then
    if Path.isAbsolute (value "XDG_CONFIG_HOME") then own else Path.current
  else if (value "HOME").isEmpty then Path.current
  else Path.join [value "HOME" ++ ascii "/.config", ascii "myshell"]

namespace Invocation

def tell (i : Invocation) (label line : Bytes) (w : World) : World :=
  w.emit i.std.error (label ++ line ++ [newline])

def print (i : Invocation) (text : Bytes) (w : World) : World := w.emit i.std.output text

def openSession (i : Invocation) (settings : Settings) (w : World) :
    Except Bytes (Session × Option FileId) × World :=
  let session := Session.create settings i.std w.environ w
  let debug := if settings.debug then i.std.error.map fun f => ⟨ascii "[debug] ", f⟩ else none
  let session := { session with debug := debug, storage := settings.storage }
  if settings.eventLog.isEmpty then (.ok (session, none), w)
  else
    match settings.storage.openAppend settings.eventLogPath w with
    | (.error cause, w) => (.error (ascii "couldn't open event log: " ++ cause.message), w)
    | (.ok f, w) =>
      (.ok ({ session with recorder := some { session := decimal i.number, file := f } }, some f), w)

def closeLog (log : Option FileId) (w : World) : World :=
  match log with
  | some f => (w.close f).2
  | none => w

-- A program that would not start has been reported already.
def endingOf (status : Int) : Option ScriptFault → Ending
  | none => .status status
  | some (.fatal (.spawn ..)) => .status 1
  | some fault => .failed fault.message

def runSession (c : Choices) (s : Session) (w : World) : Ending × World :=
  let script (path : Bytes) : Ending × World :=
    let ((status, fault), _, w) := s.runScript path w
    (endingOf status fault, w)
  if !c.command.isEmpty then
    let ((status, fault), _, w) := s.interpret c.command w
    (endingOf status (fault.map .fatal), w)
  else if !c.script.isEmpty then script c.script
  else
    match c.operands with
    | [path] => script path
    | _ =>
      let ((status, fault), _, w) := s.runInteractive w
      (endingOf status (fault.map .fatal), w)

def runShell (i : Invocation) (directory : Bytes) (c : Choices) (w : World) : Ending × World :=
  match Settings.loadOrDefault directory w with
  | .error fault => (.failed fault.message, w)
  | .ok settings =>
    match i.openSession settings w with
    | (.error reason, w) => (.failed reason, w)
    | (.ok (s, log), w) =>
      let (ending, w) := runSession c s w
      (ending, closeLog log w)

def runBuiltins (i : Invocation) (w : World) : Ending × World :=
  (.status 0, i.print (Builtin.all.flatMap fun b => b.name ++ [newline]) w)

def runInit (i : Invocation) (directory : Bytes) (w : World) : Ending × World :=
  match Settings.setUp .disk directory (i.tell []) w with
  | (.ok _, w) => (.status 0, w)
  | (.error fault, w) => (.failed fault.message, w)

-- A log that can be opened and not read holds nothing.
def logText (s : Settings) (w : World) : Except Cause Bytes :=
  match s.storage.contents s.eventLogPath w with
  | .ok text => .ok text
  | .error (.onPath call path cause) =>
    if call = ascii "read" then .ok [] else .error (.onPath call path cause)
  | .error cause => .error cause

def runReport (i : Invocation) (directory : Bytes) (w : World) : Ending × World :=
  match Settings.loadOrDefault directory w with
  | .error fault => (.failed fault.message, w)
  | .ok settings =>
    match logText settings w with
    | .error cause => (.failed cause.message, w)
    | .ok text =>
      match Entry.readAll text with
      | (_, some fault) => (.failed fault.message, w)
      | (entries, none) =>
        match (Report.ofEntries entries).toYaml with
        | .error fault => (.failed (Report.yamlFault fault), w)
        | .ok yaml => (.status 0, i.print (yaml ++ [newline]) w)

def makePlayground (i : Invocation) (w : World) : Except Cause Bytes × World :=
  let place := (w.environValue? (ascii "TMPDIR")).filter (!·.isEmpty) |>.getD (ascii "/tmp")
  let separator : Bytes := if place.getLast? = some slash then [] else [slash]
  let path := place ++ separator ++ ascii "playground" ++ decimal i.number
  match w.makeDirectory path with
  | (none, w) => (.ok path, w)
  | (some cause, w) =>
    match w.tree.find w.cwd place with
    | .error e =>
      if cause.isMissing && e = Errno.noEntry then (.error (.onPath (ascii "stat") place (.errno e)), w)
      else (.error cause, w)
    | .ok _ => (.error cause, w)

def playgroundLabel : Bytes := ascii "[playground] "

def playgroundSettings (s : Settings) : Settings :=
  { s with eventLog := Settings.defaultEventLog, historyFile := [], debug := true
           prompt := ascii "playground \\w $ " }

def runPlayground (i : Invocation) (w : World) : Ending × World :=
  match i.makePlayground w with
  | (.error cause, w) => (.failed cause.message, w)
  | (.ok directory, w) =>
    match Settings.setUp .disk directory (i.tell playgroundLabel) w with
    | (.error fault, w) => (.failed fault.message, w)
    | (.ok settings, w) =>
      match i.openSession (playgroundSettings settings) w with
      | (.error reason, w) => (.failed reason, w)
      | (.ok (s, log), w) =>
        let w := i.tell playgroundLabel (ascii "Logging to: file://" ++ directory) w
        let w := i.tell playgroundLabel
          (ascii "See a report with: myshell --config " ++ directory ++ ascii " events report") w
        let w := i.tell playgroundLabel (List.replicate 80 equals) w
        let ((status, fault), _, w) := s.runInteractive w
        let w := i.print (ascii "Exit code: " ++ decimalInt status ++ [newline]) w
        let ending : Ending :=
          match fault with
          | some fault => .failed fault.message
          | none => .status 0
        (ending, closeLog log w)

-- Flags that are made only when a command runs are not shown.
def runHelp (i : Invocation) (operands : List Bytes) (w : World) : Ending × World :=
  let command := (Command.find operands).1
  let flags := command.ownFlags.filter (· ≠ .version)
  (.status 0, i.print (command.helpText (defaultConfig w) flags) w)

def runCommand (i : Invocation) (command : Command) (c : Choices) (w : World) : Ending × World :=
  let directory := c.config.getD (defaultConfig w)
  match command with
  | .shell => i.runShell directory c w
  | .builtins => i.runBuiltins w
  | .report => i.runReport directory w
  | .help => i.runHelp c.operands w
  | .init => i.runInit directory w
  | .playground => i.runPlayground w
  | .events => (.status 0, w)
  | .completion => (.status 0, w)

def choose (i : Invocation) (w : World) : Ending × World :=
  let (command, arguments) := Command.find i.arguments
  match Choices.read command.flags arguments with
  | .error fault => (.misused command fault.message, w)
  | .ok c =>
    if c.help then (.status 0, i.print (command.helpText (defaultConfig w) command.ownFlags) w)
    else if c.version then (.status 0, i.print versionText w)
    else if !command.isRunnable then
      (.status 0, i.print (command.helpText (defaultConfig w) command.ownFlags) w)
    else
      match command.operandFault c.operands.length with
      | some reason => (.misused command reason, w)
      | none => i.runCommand command c w

def run (i : Invocation) (w : World) : Nat × World :=
  let (ending, w) := i.choose w
  let label := ascii "Error: "
  match ending with
  | .status code => ((code % 256).toNat, w)
  | .failed reason => (1, i.tell label reason w)
  | .misused command reason =>
    let w := i.tell label reason w
    (1, i.tell [] (command.usage (defaultConfig w) command.ownFlags) w)

-- A halted shell stays where it is, with the files as they were then, until it is killed.
def exit (i : Invocation) (w : World) : Exit × World :=
  let (code, w) := i.run w
  match w.halted with
  | none => (.status code, w)
  | some halt => (halt.signal.elim .never .signal, { w with tree := halt.tree })

end Invocation
end LineShell.CommandLine
