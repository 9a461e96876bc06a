import LineShell.Bytes.Quoted

namespace LineShell.CommandLine
open Bytes

inductive Flag where
  | command
  | config
  | help
  | script
  | version
  deriving DecidableEq, Repr

namespace Flag

def name : Flag → Bytes
  | command => ascii "command"
  | config => ascii "config"
  | help => ascii "help"
  | script => ascii "script"
  | version => ascii "version"

def letter? : Flag → Option UInt8
  | command => some 0x63
  | help => some 0x68
  | version => some 0x76
  | _ => none

def valueName? : Flag → Option Bytes
  | command => some (ascii "string")
  | config => some (ascii "string")
  | script => some (ascii "PATH")
  | _ => none

def isSwitch (f : Flag) : Bool := f.valueName?.isNone

def label (f : Flag) : Bytes :=
  match f.letter? with
  | some c => [0x2D, c] ++ ascii ", --" ++ f.name
  | none => ascii "--" ++ f.name

end Flag

inductive FlagFault where
  | badSyntax (argument : Bytes)
  | unknown (name : Bytes)
  | unknownLetter (letter : UInt8) (cluster : Bytes)
  | needsValue (argument : Bytes)
  | letterNeedsValue (letter : UInt8) (cluster : Bytes)
  | invalidSwitch (flag : Flag) (value : Bytes)
  deriving DecidableEq, Repr

def quoteLetter (c : UInt8) : Bytes :=
  if c = singleQuote then ascii "'\\''"
  else if c = doubleQuote then ascii "'\"'"
  else [singleQuote] ++ ((Quoted.encode (Utf8.encode c.toNat)).drop 1).dropLast ++ [singleQuote]

def FlagFault.message : FlagFault → Bytes
  | badSyntax argument => ascii "bad flag syntax: " ++ argument
  | unknown name => ascii "unknown flag: --" ++ name
  | unknownLetter c cluster => ascii "unknown shorthand flag: " ++ quoteLetter c ++ ascii " in -" ++ cluster
  | needsValue argument => ascii "flag needs an argument: " ++ argument
  | letterNeedsValue c cluster => ascii "flag needs an argument: " ++ quoteLetter c ++ ascii " in -" ++ cluster
  | invalidSwitch flag value =>
    ascii "invalid argument " ++ Quoted.encode value ++ ascii " for " ++ Quoted.encode flag.label ++
      ascii " flag: strconv.ParseBool: parsing " ++ Quoted.encode value ++ ascii ": invalid syntax"

structure Choices where
  command : Bytes := []
  config : Option Bytes := none
  help : Bool := false
  script : Bytes := []
  version : Bool := false
  operands : List Bytes := []
  deriving DecidableEq, Repr

def switchValue? (value : Bytes) : Option Bool :=
  if (["1", "t", "T", "TRUE", "true", "True"].map ascii).contains value then some true
  else if (["0", "f", "F", "FALSE", "false", "False"].map ascii).contains value then some false
  else none

namespace Choices

def set (c : Choices) (flag : Flag) (value : Bytes) : Except FlagFault Choices :=
  let switch (f : Bool → Choices) : Except FlagFault Choices :=
    match switchValue? value with
    | some on => .ok (f on)
    | none => .error (.invalidSwitch flag value)
  match flag with
  | .command => .ok { c with command := value }
  | .config => .ok { c with config := some value }
  | .script => .ok { c with script := value }
  | .help => switch ({ c with help := · })
  | .version => switch ({ c with version := · })

def turnOn (c : Choices) (flag : Flag) : Choices := (c.set flag (ascii "true")).toOption.getD c

-- Letters that start like this are left alone.
def ignoredCluster : Bytes := ascii "test."

-- The flag at the end of a cluster may still want the next argument as value; it is then returned
-- together with the letters it was met in.
def readLetters (known : List Flag) : Bytes → Choices → Except FlagFault (Choices × Option (Flag × Bytes))
  | [], c => .ok (c, none)
  | letter :: rest, c =>
    if ignoredCluster.isPrefixOf (letter :: rest) then .ok (c, none)
    else
      match known.find? (·.letter? = some letter) with
      | none => .error (.unknownLetter letter (letter :: rest))
      | some flag =>
        match rest with
        | 0x3D :: v :: value => (c.set flag (v :: value)).map (·, none)
        | _ =>
          if flag.isSwitch then readLetters known rest (c.turnOn flag)
          else if rest.isEmpty then .ok (c, some (flag, [letter]))
          else (c.set flag rest).map (·, none)

-- As in a cluster, a flag may want the next argument; it comes with the fault its absence is.
def readFlag (known : List Flag) (argument : Bytes) (c : Choices) :
    Except FlagFault (Choices × Option (Flag × FlagFault)) :=
  match argument with
  | 0x2D :: name =>
    if name.isEmpty || name.head? = some 0x2D || name.head? = some equals then
      .error (.badSyntax (ascii "--" ++ name))
    else
      let (key, value) :=
        match cut? equals name with
        | some (key, value) => (key, some value)
        | none => (name, none)
      match known.find? (·.name = key), value with
      | none, _ => .error (.unknown key)
      | some flag, some value => (c.set flag value).map (·, none)
      | some flag, none =>
        if flag.isSwitch then .ok (c.turnOn flag, none)
        else .ok (c, some (flag, .needsValue (ascii "--" ++ name)))
  | cluster =>
    match readLetters known cluster c with
    | .error e => .error e
    | .ok (c, none) => .ok (c, none)
    | .ok (c, some (flag, letters)) => .ok (c, some (flag, .letterNeedsValue (letters.headD 0) letters))

-- Reads arguments. `wanted` is a flag whose value is the next one.
def readFrom (known : List Flag) (wanted : Option (Flag × FlagFault)) :
    List Bytes → Choices → Except FlagFault Choices
  | [], c =>
    match wanted with
    | some (_, fault) => .error fault
    | none => .ok c
  | argument :: rest, c =>
    match wanted with
    | some (flag, _) =>
      match c.set flag argument with
      | .error e => .error e
      | .ok c => readFrom known none rest c
    | none =>
      if argument = ascii "--" then .ok { c with operands := c.operands ++ rest }
      else
        match argument with
        | 0x2D :: d :: text =>
          match readFlag known (d :: text) c with
          | .error e => .error e
          | .ok (c, wanted) => readFrom known wanted rest c
        | _ => readFrom known none rest { c with operands := c.operands ++ [argument] }

def read (known : List Flag) (arguments : List Bytes) : Except FlagFault Choices :=
  readFrom known none arguments {}

end Choices
end LineShell.CommandLine
