import LineShell.Bytes.Quoted

namespace LineShell

structure Switch where
  letter : UInt8
  long : Bytes := []
  help : Bytes
  deriving DecidableEq, Repr

structure Usage where
  synopsis : Bytes
  summary : Bytes
  switches : List Switch := []
  deriving DecidableEq, Repr

namespace Usage
open Bytes

def helpSwitch : Switch :=
  { letter := 0x68, long := ascii "help", help := ascii "show this help and exit" }

def allSwitches (u : Usage) : List Switch :=
  (u.switches ++ [helpSwitch]).mergeSort fun a b => a.letter ≤ b.letter

def label (s : Switch) : Bytes :=
  [0x2D, s.letter] ++ (if s.long.isEmpty then [] else ascii ", --" ++ s.long)

def pad (width : Nat) (text : Bytes) : Bytes := text ++ List.replicate (width - text.length) space

def helpText (u : Usage) : Bytes :=
  let width := (u.allSwitches.map fun s => (label s).length).foldl max 0
  ascii "usage: " ++ u.synopsis ++ [newline] ++ u.summary ++ [newline, newline] ++ ascii "Flags:\n" ++
    u.allSwitches.flatMap fun s => [space] ++ pad width (label s) ++ ascii "  " ++ s.help ++ [newline]

structure Parsed where
  values : List (UInt8 × Bool) := []
  operands : List Bytes := []
  deriving DecidableEq, Repr

def Parsed.isOn (p : Parsed) (letter : UInt8) : Bool :=
  ((p.values.find? (·.1 = letter)).map (·.2)).getD false

def switchValue? (value : Bytes) : Option Bool :=
  let v := lower value
  if [[], ascii "1", ascii "true", ascii "on", ascii "t"].contains v then some true
  else if [ascii "0", ascii "false", ascii "off", ascii "f"].contains v then some false
  else none

def byLetter? (u : Usage) (n : Nat) : Option Switch := u.allSwitches.find? (·.letter.toNat = n)

def unknown (name : Bytes) : Bytes := ascii "unknown option: " ++ name

-- A single byte that is no long name is a letter.
def readLong (u : Usage) (text : Bytes) : Except Bytes (UInt8 × Bool) :=
  let (name, value) := (cut? equals text).getD (text, [])
  let long := u.allSwitches.find? fun s => !s.long.isEmpty && s.long = name
  let found := long.or (match name with | [c] => u.byLetter? c.toNat | _ => none)
  match found with
  | none => .error (unknown (ascii "--" ++ name))
  | some s =>
    match switchValue? value with
    | some b => .ok (s.letter, b)
    | none => .error (ascii "invalid value for bool --" ++ s.long ++ ascii ": " ++ Quoted.encode value)

def unknownLetter (bytes : Bytes) : Bytes := unknown (if bytes = [0x2D] then bytes else ascii "-" ++ bytes)

def readCluster (u : Usage) (values : List (UInt8 × Bool)) :
    List Utf8.Unit → Except Bytes (List (UInt8 × Bool))
  | [] => .ok values
  | .stray _ :: _ => .error (unknownLetter (Utf8.encode 0xFFFD))
  | .char n bytes :: rest =>
    match u.byLetter? n with
    | none => .error (unknownLetter bytes)
    | some s => u.readCluster ((s.letter, true) :: values) rest

-- `--` ends the options and disappears; a lone `-` ends them and is an operand.
def parse (u : Usage) (values : List (UInt8 × Bool)) : List Bytes → Except Bytes Parsed
  | [] => .ok ⟨values, []⟩
  | arg :: rest =>
    match arg with
    | 0x2D :: 0x2D :: [] => .ok ⟨values, rest⟩
    | 0x2D :: [] => .ok ⟨values, arg :: rest⟩
    | 0x2D :: 0x2D :: long =>
      match u.readLong long with
      | .error e => .error e
      | .ok value => u.parse (value :: values) rest
    | 0x2D :: letters =>
      match u.readCluster values (Utf8.units letters) with
      | .error e => .error e
      | .ok values => u.parse values rest
    | _ => .ok ⟨values, arg :: rest⟩

end Usage
end LineShell
