import LineShell.Bytes.Utf8

namespace LineShell

structure Variables where
  entries : List (Bytes × Bytes) := []
  deriving DecidableEq, Repr

namespace Variables

def empty : Variables := {}

def setIn (key value : Bytes) : List (Bytes × Bytes) → List (Bytes × Bytes)
  | [] => [(key, value)]
  | entry :: rest =>
    if entry.1 = key then (key, value) :: rest
    else if Bytes.precedes key entry.1 then (key, value) :: entry :: rest
    else entry :: setIn key value rest

def set (t : Variables) (key value : Bytes) : Variables := ⟨setIn key value t.entries⟩

def unset (t : Variables) (key : Bytes) : Variables := ⟨t.entries.filter (·.1 ≠ key)⟩

def lookup (t : Variables) (key : Bytes) : Option Bytes :=
  (t.entries.find? (·.1 = key)).map (·.2)

def get (t : Variables) (key : Bytes) : Bytes := (t.lookup key).getD []

def contains (t : Variables) (key : Bytes) : Bool := (t.lookup key).isSome

def names (t : Variables) : List Bytes := t.entries.map (·.1)

def entryText (entry : Bytes × Bytes) : Bytes := entry.1 ++ [Bytes.equals] ++ entry.2

def environ (t : Variables) : List Bytes := t.entries.map entryText

def parseEntry (entry : Bytes) : Bytes × Bytes := (Bytes.cut? Bytes.equals entry).getD (entry, [])

def copy (t : Variables) (entries : List Bytes) : Variables :=
  entries.foldl (fun t entry => t.set (parseEntry entry).1 (parseEntry entry).2) t

def ofEnviron (entries : List Bytes) : Variables := empty.copy entries

def isNameStart (c : UInt8) : Bool := c = 0x5F || Bytes.isLetter c

def isNamePart (c : UInt8) : Bool := isNameStart c || Bytes.isDigit c

def validName : Bytes → Bool
  | [] => false
  | c :: rest => isNameStart c && rest.all isNamePart

def parseAssignment (text : Bytes) : Option (Bytes × Bytes) :=
  (Bytes.cut? Bytes.equals text).filter fun p => validName p.1

end Variables
end LineShell
