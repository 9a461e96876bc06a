import LineShell.Bytes

namespace LineShell.Line
open Bytes

abbrev Lookup := Bytes → Option Bytes

def resolve (lookups : List Lookup) (name : Bytes) : Bytes :=
  (lookups.findSome? (· name)).getD []

def isNameEnd (c : UInt8) : Bool :=
  c = dollar || c = space || c = singleQuote || c = doubleQuote

-- The bytes of a name come last first. The empty name has no value.
def finishName (value : Bytes → Bytes) : Option Bytes → Bytes
  | none => []
  | some [] => []
  | some name => value name.reverse

-- What is read of a variable name, if any; `enabled` tells whether variables are replaced here.
def expandFrom (value : Bytes → Bytes) : Option Bytes → Bool → Bytes → Bytes
  | name, _, [] => finishName value name
  | name, enabled, c :: rest =>
    if name.isSome && !isNameEnd c then expandFrom value (name.map (c :: ·)) enabled rest
    else
      finishName value name ++
        (if c = backslash then
          match rest with
          | [] => []
          | d :: rest => d :: expandFrom value none enabled rest
        else if c = singleQuote then expandFrom value none (!enabled) rest
        else if c = doubleQuote then expandFrom value none enabled rest
        else if c = dollar && enabled && rest.head? ≠ some openParen then
          expandFrom value (some []) enabled rest
        else c :: expandFrom value none enabled rest)

-- A backslash makes the next byte literal, single quotes switch replacement off and on again,
-- double quotes are dropped, and `$(` is left alone.
def expand (lookups : List Lookup) (word : Bytes) : Bytes :=
  expandFrom (resolve lookups) none true word

end LineShell.Line
