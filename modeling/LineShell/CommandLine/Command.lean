import LineShell.CommandLine.Flag

namespace LineShell.CommandLine
open Bytes

inductive Command where
  | shell
  | builtins
  | completion
  | events
  | report
  | help
  | init
  | playground
  deriving DecidableEq, Repr

namespace Command

def name : Command → Bytes
  | shell => ascii "myshell"
  | builtins => ascii "builtins"
  | completion => ascii "completion"
  | events => ascii "events"
  | report => ascii "report"
  | help => ascii "help"
  | init => ascii "init"
  | playground => ascii "playground"

def parent? : Command → Option Command
  | shell => none
  | report => some events
  | _ => some shell

def children : Command → List Command
  | shell => [builtins, completion, events, help, init, playground]
  | events => [report]
  | _ => []

def path (c : Command) : Bytes :=
  match c.parent? with
  | none => c.name
  | some shell => shell.name ++ [space] ++ c.name
  | some p => shell.name ++ [space] ++ p.name ++ [space] ++ c.name

def operandNames : Command → Bytes
  | shell => ascii " [SCRIPT]"
  | help => ascii " [command]"
  | _ => []

def isRunnable : Command → Bool
  | events => false
  | completion => false
  | _ => true

def summary : Command → Bytes
  | shell => ascii "A small command shell."
  | builtins => ascii "Show the commands built into the shell."
  | completion => ascii "generate the autocompletion script for the specified shell"
  | events => ascii "Explore the shell event log."
  | report => ascii "Show a report of events."
  | help => ascii "Help about any command"
  | init => ascii "Write the default configuration to the config directory."
  | playground => ascii "Run the shell with a temporary configuration, event log and debug output."

def description : Command → Bytes
  | shell => ascii <|
    "myshell reads command lines, splits them into pipelines and runs them.\n\n" ++
    "It supports quoting, pipes, file redirection, local and exported variables,\n" ++
    "background commands and a handful of builtins. Run \"myshell builtins\" to list\nthem."
  | help => ascii <|
    "Help provides help for any command in the application.\n" ++
    "Simply type myshell help [path to command] for full details."
  | c => c.summary

def ownFlags : Command → List Flag
  | shell => [.command, .config, .help, .script, .version]
  | _ => [.help]

def inheritedFlags : Command → List Flag
  | shell => []
  | _ => [.config]

def flags (c : Command) : List Flag := c.ownFlags ++ c.inheritedFlags

-- A flag without `=` is taken to have a value here, whatever it is.
def operandsOf : List Bytes → List Bytes
  | [] => []
  | argument :: rest =>
    let dashed := argument.head? = some 0x2D
    let long := (ascii "--").isPrefixOf argument
    if argument = ascii "--" then []
    else if (long || (dashed && argument.length = 2)) && !argument.contains equals then
      match rest with
      | _ :: next :: more => operandsOf (next :: more)
      | _ => []
    else if argument.isEmpty || dashed then operandsOf rest
    else argument :: operandsOf rest

-- The name is taken out of the arguments where it first occurs.
def findFrom (c : Command) : Nat → List Bytes → Command × List Bytes
  | 0, arguments => (c, arguments)
  | depth + 1, arguments =>
    match (operandsOf arguments).head? with
    | none => (c, arguments)
    | some word =>
      match c.children.find? (·.name = word) with
      | none => (c, arguments)
      | some child => findFrom child depth (arguments.erase word)

def depth : Nat := 2

def find (arguments : List Bytes) : Command × List Bytes := findFrom .shell depth arguments

def operandFault (c : Command) (count : Nat) : Option Bytes :=
  let received : Bytes := ascii ", received " ++ decimal count
  match c with
  | shell => if count ≤ 1 then none else some (ascii "accepts at most 1 arg(s)" ++ received)
  | help => none
  | _ => if count = 0 then none else some (ascii "accepts 0 arg(s)" ++ received)

def flagHelp (c : Command) (defaultConfig : Bytes) : Flag → Bytes
  | .command => ascii "run a single command line and exit"
  | .config => ascii "config directory (default " ++ Quoted.encode defaultConfig ++ ascii ")"
  | .help => ascii "help for " ++ c.name
  | .script => ascii "run the script at PATH instead of reading commands interactively"
  | .version => ascii "version for " ++ c.name

def pad (width : Nat) (text : Bytes) : Bytes := text ++ List.replicate (width - text.length) space

def flagLabel (f : Flag) : Bytes :=
  (match f.letter? with
    | some c => ascii "  -" ++ [c] ++ ascii ", --"
    | none => ascii "      --") ++
  f.name ++ (match f.valueName? with | some v => [space] ++ v | none => [])

def flagLines (c : Command) (defaultConfig : Bytes) (flags : List Flag) : Bytes :=
  let width := (flags.map fun f => (flagLabel f).length).foldl max 0
  flags.flatMap fun f => pad width (flagLabel f) ++ ascii "   " ++ c.flagHelp defaultConfig f ++ [newline]

def nameWidth : Nat := 11

def usage (c : Command) (defaultConfig : Bytes) (flags : List Flag) : Bytes :=
  let children := c.children
  ascii "Usage:\n" ++
  (if c.isRunnable then ascii "  " ++ c.path ++ c.operandNames ++ ascii " [flags]\n" else []) ++
  (if children.isEmpty then [] else
    ascii "  " ++ c.path ++ ascii " [command]\n\nAvailable Commands:\n" ++
      children.flatMap fun k => ascii "  " ++ pad nameWidth k.name ++ [space] ++ k.summary ++ [newline]) ++
  ascii "\nFlags:\n" ++ c.flagLines defaultConfig flags ++
  (if c.inheritedFlags.isEmpty then []
    else ascii "\nGlobal Flags:\n" ++ c.flagLines defaultConfig c.inheritedFlags) ++
  (if children.isEmpty then []
    else ascii "\nUse \"" ++ c.path ++ ascii " [command] --help\" for more information about a command.\n")

def helpText (c : Command) (defaultConfig : Bytes) (flags : List Flag) : Bytes :=
  c.description ++ [newline, newline] ++
    (if c.isRunnable || !c.children.isEmpty then c.usage defaultConfig flags else [])

end Command
end LineShell.CommandLine
