import LineShell.Session.Basic
import LineShell.Session.Options

namespace LineShell

inductive Builtin where
  | source
  | defineAlias
  | help
  | changeDirectory
  | echo
  | showStatus
  | exit
  | exportVariables
  | workingDirectory
  deriving DecidableEq, Repr

namespace Builtin
open Bytes

def all : List Builtin :=
  [source, defineAlias, help, changeDirectory, echo, showStatus, exit, exportVariables, workingDirectory]

def name : Builtin → Bytes
  | source => ascii "."
  | defineAlias => ascii "alias"
  | help => ascii "help"
  | changeDirectory => ascii "mcd"
  | echo => ascii "mecho"
  | showStatus => ascii "merrno"
  | exit => ascii "mexit"
  | exportVariables => ascii "mexport"
  | workingDirectory => ascii "mpwd"

def description : Builtin → Bytes
  | source => ascii "run a script in the current shell"
  | defineAlias => ascii "define aliases (unsupported)"
  | help => ascii "list builtins"
  | changeDirectory => ascii "change directory"
  | echo => ascii "print arguments"
  | showStatus => ascii "print the previous exit status"
  | exit => ascii "exit the shell"
  | exportVariables => ascii "export variables"
  | workingDirectory => ascii "print working directory"

def find? (name : Bytes) : Option Builtin := all.find? (·.name = name)

def isBuiltin (name : Bytes) : Bool := (find? name).isSome

-- The letters of the commands' own options.
def letterN : UInt8 := 0x6E
def letterE : UInt8 := 0x65
def letterV : UInt8 := 0x76
def letterH : UInt8 := 0x68

def usage : Builtin → Usage
  | source => { synopsis := ascii ". SCRIPT", summary := ascii "Execute commands from a file in the current shell." }
  | defineAlias => { synopsis := ascii "alias [NAME[=VALUE]] ...", summary := ascii "Define or display aliases." }
  | help => { synopsis := ascii "help", summary := ascii "Display information about builtin commands." }
  | changeDirectory =>
    { synopsis := ascii "mcd [DIR]", summary := ascii "Change the shell working directory, HOME by default." }
  | echo =>
    { synopsis := ascii "mecho [-ne] [ARG] ...", summary := ascii "Display a line of text."
      switches := [{ letter := letterN, help := ascii "do not output the trailing newline" },
        { letter := letterE, help := ascii "interpret backslash escapes" }] }
  | showStatus =>
    { synopsis := ascii "merrno [-v]", summary := ascii "Print the exit status of the previous command."
      switches := [{ letter := letterV, help := ascii "also print the symbolic error name" }] }
  | exit =>
    { synopsis := ascii "mexit [CODE]"
      summary := ascii "Exit the shell with status CODE, or the last status if omitted." }
  | exportVariables =>
    { synopsis := ascii "mexport [-n] [NAME[=VALUE]] ..."
      summary := ascii "Set the export attribute for shell variables, with no names print the environment."
      switches := [{ letter := letterN, help := ascii "remove the export attribute from each NAME" }] }
  | workingDirectory =>
    { synopsis := ascii "mpwd", summary := ascii "Print the name of the current working directory." }

def digitsValue (base : Nat) : Nat → Nat → Bytes → Nat × Nat
  | 0, value, _ => (value, 0)
  | _ + 1, value, [] => (value, 0)
  | limit + 1, value, c :: rest =>
    match digitValue? base c with
    | none => (value, 0)
    | some d =>
      let (value, width) := digitsValue base limit (value * base + d) rest
      (value, width + 1)

def letterEscape? (c : UInt8) : Option UInt8 :=
  if c = 0x6E then some 0x0A
  else if c = 0x74 then some 0x09
  else if c = 0x72 then some 0x0D
  else if c = 0x61 then some 0x07
  else if c = 0x62 then some 0x08
  else if c = 0x66 then some 0x0C
  else if c = 0x76 then some 0x0B
  else if c = backslash then some backslash
  else none

-- The first `skip` bytes belong to an escape that is already dealt with.
def unescapeFrom : Nat → Bytes → Bytes
  | _, [] => []
  | skip + 1, _ :: rest => unescapeFrom skip rest
  | 0, c :: rest =>
    if c ≠ backslash then c :: unescapeFrom 0 rest
    else
      match rest with
      | [] => [c]
      | d :: more =>
        match letterEscape? d with
        | some b => b :: unescapeFrom 1 rest
        | none =>
          if d = 0x30 then
            let (value, width) := digitsValue 8 3 0 more
            UInt8.ofNat value :: unescapeFrom (width + 1) rest
          else if d = 0x78 then
            let (value, width) := digitsValue 16 2 0 more
            if width = 0 then c :: d :: unescapeFrom 1 rest
            else UInt8.ofNat value :: unescapeFrom (width + 1) rest
          else c :: d :: unescapeFrom 1 rest

-- One-letter escapes, `\0` with up to three octal digits and `\x` with up to two hexadecimal ones.
def unescape (text : Bytes) : Bytes := unescapeFrom 0 text

def echoText (parsed : Usage.Parsed) : Bytes :=
  let words := if parsed.isOn letterE then parsed.operands.map unescape else parsed.operands
  join [space] words ++ (if parsed.isOn letterN then [] else [newline])

def integer? (text : Bytes) : Option Int := do
  let (negative, digits) : Bool × Bytes :=
    match text with
    | 0x2D :: rest => (true, rest)
    | 0x2B :: rest => (false, rest)
    | _ => (false, text)
  let n ← numeral? 10 digits
  let value : Int := if negative then -(n : Int) else n
  if isWord value then some value else none

-- The shell itself keeps seeing the value.
def unexport (s : Session) (name : Bytes) : Session :=
  let locals :=
    match s.env.lookup name with
    | some value => if s.locals.contains name then s.locals else s.locals.set name value
    | none => s.locals
  { s with locals := locals, env := s.env.unset name }

def exportName (s : Session) (name : Bytes) : Session :=
  match s.locals.lookup name with
  | some value => { s with env := s.env.set name value }
  | none => if s.env.contains name then s else { s with env := s.env.set name [] }

-- An operand that is neither an assignment nor a name is reported and passed over.
def exportAll (errors : Option FileId) (command : Bytes) : Int → List Bytes → Session → World →
    Int × Session × World
  | status, [], s, w => (status, s, w)
  | status, operand :: rest, s, w =>
    match Variables.parseAssignment operand with
    | some (name, value) =>
      exportAll errors command status rest
        { s with locals := s.locals.set name value, env := s.env.set name value } w
    | none =>
      if Variables.validName operand then exportAll errors command status rest (exportName s operand) w
      else
        exportAll errors command 1 rest s
          (w.emit errors (command ++ ascii ": " ++ Quoted.encode operand ++ ascii ": not a valid identifier\n"))

def helpTable (shellName : Bytes) : Bytes :=
  shellName ++ ascii " builtins. Type `NAME --help' to find out more about NAME.\n\n" ++
    all.flatMap fun b => ascii "  " ++ Usage.pad 9 b.name ++ b.description ++ [newline]

def enterDirectory (directory command : Bytes) (errors : Option FileId) (s : Session) (w : World) :
    Int × Session × World :=
  match w.changeDirectory directory with
  | .error e =>
    (1, s, w.emit errors (command ++ ascii ": " ++
      (Cause.onPath (ascii "chdir") directory (.errno e)).message ++ [newline]))
  | .ok w =>
    match w.workingDirectory with
    | .ok pwd => (0, { s with env := s.env.set Session.pwdVar pwd }, w)
    | .error _ => (0, s, w)

def perform (runScript : Bytes → Streams → Session → World → (Int × Option Bytes) × Session × World)
    (b : Builtin) (parsed : Usage.Parsed) (streams : Streams) (s : Session) (w : World) :
    Int × Session × World :=
  let out := streams.channels.output
  let errors := streams.channels.error
  let complain (text : Bytes) : World := w.emit errors (b.name ++ ascii ": " ++ text ++ [newline])
  match b with
  | source =>
    match parsed.operands with
    | [script] =>
      match runScript script streams s w with
      | ((status, none), s, w) => (status, s, w)
      | ((status, some message), s, w) =>
        (status, s, w.emit errors (b.name ++ ascii ": " ++ message ++ [newline]))
    | _ => (2, s, complain (ascii "filename argument required"))
  | defineAlias => (1, s, complain (ascii "aliases are not supported"))
  | help => (0, s, w.emit out (helpTable s.settings.shellName))
  | changeDirectory =>
    match parsed.operands with
    | [] =>
      match s.env.get Session.homeVar with
      | [] => (1, s, complain (ascii "HOME not set"))
      | home => enterDirectory home b.name errors s w
    | [directory] => enterDirectory directory b.name errors s w
    | _ => (1, s, complain (ascii "too many arguments"))
  | echo => (0, s, w.emit out (echoText parsed))
  | showStatus =>
    let number := decimalInt s.lastStatus
    let name := statusName s.lastStatus
    let text := if parsed.isOn letterV && !name.isEmpty then number ++ [space] ++ name else number
    (0, s, w.emit out (text ++ [newline]))
  | exit =>
    match parsed.operands with
    | [] => (s.lastStatus, { s with exited := true }, w)
    | [code] =>
      match integer? code with
      | some n => (n % 256, { s with exited := true }, w)
      | none => (2, { s with exited := true }, complain (code ++ ascii ": numeric argument required"))
    | _ => (1, { s with exited := false }, complain (ascii "too many arguments"))
  | exportVariables =>
    if parsed.isOn letterN then (0, parsed.operands.foldl unexport s, w)
    else if parsed.operands.isEmpty then
      (0, s, w.emit out (s.env.environ.flatMap (· ++ [newline])))
    else exportAll errors b.name 0 parsed.operands s w
  | workingDirectory =>
    match w.workingDirectory with
    | .ok pwd => (0, s, w.emit out (pwd ++ [newline]))
    | .error e => (1, s, complain (ascii "getwd: " ++ Errno.message e))

def run (runScript : Bytes → Streams → Session → World → (Int × Option Bytes) × Session × World)
    (args : List Bytes) (streams : Streams) (s : Session) (w : World) : Int × Session × World :=
  match args with
  | [] => (1, s, w)
  | name :: rest =>
    match find? name with
    | none =>
      (1, s, w.emit streams.channels.error
        (s.settings.shellName ++ ascii ": " ++ name ++ ascii ": not a builtin\n"))
    | some b =>
      match b.usage.parse [] rest with
      | .error message =>
        (2, s, w.emit streams.channels.error
          (ascii "error: " ++ message ++ [newline, newline] ++ b.usage.helpText))
      | .ok parsed =>
        if parsed.isOn letterH then (0, s, w.emit streams.channels.output b.usage.helpText)
        else b.perform runScript parsed streams s w

end Builtin
end LineShell
