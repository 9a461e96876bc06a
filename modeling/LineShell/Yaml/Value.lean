import LineShell.Bytes.Quoted
import LineShell.Yaml.Node
import LineShell.Yaml.Scalar

namespace LineShell.Yaml
open Bytes

inductive Value where
  | scalar (value : Scalar)
  | list (items : List Value)
  | map (fields : List (Scalar × Value))
  deriving Repr

namespace Scalar

def layout : NumberLayout := ⟨-4, 6, true⟩

def shown : Scalar → Bytes
  | .null => ascii "interface \x7b\x7d(nil)"
  | .bool b => ascii (if b then "true" else "false")
  | .int n => if isWord n then decimalInt n else ascii "0x" ++ ascii (String.ofList (Nat.toDigits 16 n.toNat))
  | .float x => x.text .double layout
  | .string t => Quoted.encode t

def shownAlone (s : Scalar) : Bytes := if s = .null then ascii "<nil>" else s.shown

-- Zero has one key, whatever its sign, and what is no number is never the same.
def sameKey (a b : Scalar) : Bool :=
  match a, b with
  | .float (.finite x), .float (.finite y) => x = y || (x.mantissa = 0 && y.mantissa = 0)
  | .float .notANumber, _ => false
  | a, b => a = b

def rank : Scalar → Nat
  | .null => 0
  | .bool _ => 1
  | .float _ => 2
  | .int n => if isWord n then 3 else 5
  | .string _ => 4

def shownBefore (a b : Scalar) : Bool :=
  match a, b with
  | .bool x, .bool y => !x && y
  | .int m, .int n => m < n
  | .string s, .string t => Bytes.precedes s t
  | .float x, .float y => x.precedes y
  | a, b => a.rank < b.rank

end Scalar

namespace Value

mutual

def shown : Value → Bytes
  | .scalar s => s.shown
  | .list items => ascii "[]interface \x7b\x7d\x7b" ++ Bytes.join (ascii ", ") (shownItems items) ++ ascii "\x7d"
  | .map fields =>
    let sorted := (shownFields fields).mergeSort fun a b => !b.1.shownBefore a.1
    ascii "map[interface \x7b\x7d]interface \x7b\x7d\x7b" ++
      Bytes.join (ascii ", ") (sorted.map fun f => f.1.shown ++ ascii ":" ++ f.2) ++ ascii "\x7d"

def shownItems : List Value → List Bytes
  | [] => []
  | item :: rest => shown item :: shownItems rest

def shownFields : List (Scalar × Value) → List (Scalar × Bytes)
  | [] => []
  | (key, value) :: rest => (key, shown value) :: shownFields rest

end

def shownAlone : Value → Bytes
  | .scalar s => s.shownAlone
  | value => value.shown

end Value

abbrev Fields := List (Scalar × Value)

structure Decoding where
  -- Nodes behind references count each time they are reached.
  nodes : Nat := 0
  repeats : Nat := 0
  repeated : List (Nat × Scalar) := []

abbrev Decode := StateT Decoding (Except Fault)

namespace Decoding

-- In documents of up to 400000 nodes more than 99 percent of them may not come from references, in
-- those of 4000000 and more 10 percent, and in between a share that falls evenly.
def isExcessive (d : Decoding) : Bool :=
  let low : Int := 400000
  let high : Int := 4000000
  let nodes : Int := min (max d.nodes low) high
  -- The share allowed is this over a hundred times the length of the range.
  let share : Int := 99 * (high - low) - 89 * (nodes - low)
  100 < d.repeats && 1000 < d.nodes && d.nodes * share < d.repeats * (100 * (high - low))

end Decoding

namespace Decode

def count (referred : Bool) : Decode Unit := do
  let d ← get
  let d := { d with nodes := d.nodes + 1, repeats := if referred then d.repeats + 1 else d.repeats }
  if d.isExcessive then throw { problem := "document contains excessive aliasing" } else set d

def countReference (referred : Bool) : Decode Unit := do
  count referred
  count true

-- A key that is there already is reported if `strict`, and else gets the new value.
def put (strict : Bool) (fields : Fields) (line : Nat) (key : Scalar) (value : Value) : Decode Fields := do
  if fields.any (·.1.sameKey key) then
    if strict then
      modify fun d => { d with repeated := (line + 1, key) :: d.repeated }
      return fields
    else return fields.map fun f => if f.1.sameKey key then (f.1, value) else f
  else return (key, value) :: fields

end Decode

def isMerge : Node → Bool
  | .scalar text tag plain _ => text = ['<', '<'] && (plain || tag = (ScalarKind.standardTag ++ "merge").toList)
  | _ => false

def mergeFault : Fault := { problem := "map merge requires map or sequence of maps as the value" }

def cycleFault (name : List Char) : Fault :=
  { problem := "anchor '" ++ String.ofList name ++ "' value contains itself" }

mutual

-- `referred` tells whether a reference led to the node.
def decode (strict referred : Bool) : Node → Decode Value
  | .scalar text tag plain _ => do
    Decode.count referred
    return .scalar (← scalarValue text tag plain)
  | .sequence items _ => do
    Decode.count referred
    return .list (← decodeItems strict referred [] items)
  | .mapping pairs _ => do
    Decode.count referred
    return .map (← decodePairs strict referred [] pairs).reverse
  | .reference target _ => do
    Decode.count referred
    decode strict true target
  | .cycle name _ _ => do
    Decode.count referred
    throw (cycleFault name)

def decodeItems (strict referred : Bool) (values : List Value) : List Node → Decode (List Value)
  | [] => return values.reverse
  | item :: rest => do
    let value ← decode strict referred item
    decodeItems strict referred (value :: values) rest

def decodePairs (strict referred : Bool) (fields : Fields) : List (Node × Node) → Decode Fields
  | [] => return fields
  | (key, value) :: rest => do
    if isMerge key then
      let fields ← merge strict referred fields value
      decodePairs strict referred fields rest
    else
      match ← decode strict referred key with
      | .scalar k =>
        let v ← decode strict referred value
        let fields ← Decode.put strict fields value.line k v
        decodePairs strict referred fields rest
      | k => throw { problem := "invalid map key: ", detail := k.shown }

def merge (strict referred : Bool) (fields : Fields) : Node → Decode Fields
  | .mapping pairs _ => do
    Decode.count referred
    decodePairs strict referred fields pairs
  | .reference (.mapping pairs _) _ => do
    Decode.countReference referred
    decodePairs strict true fields pairs
  | .cycle name true _ => throw (cycleFault name)
  | .sequence items _ => mergeItems strict referred fields items
  | _ => throw mergeFault

def mergeItems (strict referred : Bool) (fields : Fields) : List Node → Decode Fields
  | [] => return fields
  | .mapping pairs _ :: rest => do
    let fields ← mergeItems strict referred fields rest
    Decode.count referred
    decodePairs strict referred fields pairs
  | .reference (.mapping pairs _) _ :: rest => do
    let fields ← mergeItems strict referred fields rest
    Decode.countReference referred
    decodePairs strict true fields pairs
  | .cycle name true _ :: rest => do
    let _ ← mergeItems strict referred fields rest
    throw (cycleFault name)
  | _ :: rest => do
    let _ ← mergeItems strict referred fields rest
    throw mergeFault

end

inductive ReadFault where
  | invalid (fault : Fault)
  | repeated (keys : List (Nat × Scalar))
  deriving DecidableEq, Repr

namespace ReadFault

def keyMessage (key : Nat × Scalar) : Bytes :=
  ascii "line " ++ decimal key.1 ++ ascii ": key " ++ key.2.shownAlone ++ ascii " already set in map"

def message : ReadFault → Bytes
  | invalid fault => ascii "yaml: " ++ fault.message
  | repeated keys => ascii "yaml: unmarshal errors:\n  " ++ Bytes.join (ascii "\n  ") (keys.map keyMessage)

end ReadFault

def read (strict : Bool) (text : Bytes) : Except ReadFault Value :=
  match parse text with
  | .error e => .error (.invalid e)
  | .ok none => .ok (.scalar .null)
  | .ok (some node) =>
    -- The document counts as a node.
    match (decode strict false node).run { nodes := 1 } with
    | .error e => .error (.invalid e)
    | .ok (value, d) => if d.repeated.isEmpty then .ok value else .error (.repeated d.repeated.reverse)

end LineShell.Yaml
