import LineShell.Journal.Entry
import LineShell.Settings.Basic
import LineShell.Yaml.Value

namespace LineShell

namespace Settings

def blank : Settings :=
  { shellName := [], prompt := [], color := [], historyFile := [], historyLimit := 0, extraPath := []
    eventLog := [], debug := false }

inductive Field where
  | shellName
  | prompt
  | color
  | historyFile
  | historyLimit
  | extraPath
  | eventLog
  | debug
  deriving DecidableEq, Repr

namespace Field

def all : List Field := [shellName, prompt, color, historyFile, historyLimit, extraPath, eventLog, debug]

def name : Field → Bytes
  | shellName => ascii "shell_name"
  | prompt => ascii "prompt"
  | color => ascii "color"
  | historyFile => ascii "history_file"
  | historyLimit => ascii "history_limit"
  | extraPath => ascii "extra_path"
  | eventLog => ascii "event_log"
  | debug => ascii "debug"

def typeName : Field → String
  | historyLimit => "int"
  | extraPath => "[]string"
  | debug => "bool"
  | _ => "string"

-- Two characters beyond A to Z have one of these letters as their lower case.
def fold (name : Bytes) : Bytes :=
  Bytes.lower (Bytes.replace (Utf8.encode 0x17F) (ascii "s") (Bytes.replace (Utf8.encode 0x212A) (ascii "k") name))

def ofName? (name : Bytes) : Option Field := all.find? fun f => fold f.name = fold name

end Field

inductive Rule where
  | required
  | oneOf
  | atLeast
  deriving DecidableEq, Repr

def Rule.name : Rule → Bytes
  | .required => ascii "required"
  | .oneOf => ascii "oneof"
  | .atLeast => ascii "gte"

structure Violation where
  field : Bytes
  rule : Rule
  deriving DecidableEq, Repr

def Violation.message (v : Violation) : Bytes :=
  ascii "Key: 'Configuration." ++ v.field ++ ascii "' Error:Field validation for '" ++ v.field ++
    ascii "' failed on the '" ++ v.rule.name ++ ascii "' tag"

def violations (s : Settings) : List Violation :=
  (if s.shellName.isEmpty then [⟨Field.shellName.name, .required⟩] else []) ++
  (if [colorAlways, colorAuto, colorNever].contains s.color then [] else [⟨Field.color.name, .oneOf⟩]) ++
  (if s.historyLimit < -1 then [⟨Field.historyLimit.name, .atLeast⟩] else []) ++
  (s.extraPath.zipIdx.filter (·.1.isEmpty)).map fun e =>
    ⟨Field.extraPath.name ++ ascii "[" ++ decimal e.2 ++ ascii "]", .required⟩

end Settings

inductive Settings.Place where
  | document
  | field (name : Bytes)
  | item (name : Bytes) (index : Nat)
  deriving DecidableEq, Repr

def Settings.Place.text : Settings.Place → Bytes
  | .document => ascii "Go value"
  | .field name => ascii "Go struct field ." ++ name
  | .item name index => ascii "." ++ name ++ ascii "." ++ decimal index

inductive SettingsFault where
  | unreadable (cause : Cause)
  | malformed (reason : Bytes)
  | unknownField (name : Bytes)
  | mismatch (found : Bytes) (place : Settings.Place) (wanted : String)
  | invalid (violations : List Settings.Violation)
  deriving DecidableEq, Repr

namespace SettingsFault

def decoding : Bytes := ascii "error unmarshaling JSON: while decoding JSON: json: "

def message : SettingsFault → Bytes
  | unreadable cause => cause.message
  | malformed reason => ascii "error converting YAML to JSON: " ++ reason
  | unknownField name => decoding ++ ascii "unknown field " ++ Quoted.encode name
  | mismatch found place wanted =>
    decoding ++ ascii "cannot unmarshal " ++ found ++ ascii " into " ++ place.text ++ ascii " of type " ++ ascii wanted
  | invalid violations => Bytes.join [Bytes.newline] (violations.map Settings.Violation.message)

end SettingsFault

namespace Settings
open Yaml (Scalar Value)

-- A number in a text field is rounded to single precision first.
def textLayout : NumberLayout := ⟨-4, 6, true⟩

def floatText (x : Floating) : Bytes := (x.convert .single).text .single textLayout

def keyName? : Scalar → Option Bytes
  | .string t => some t
  | .int n => if isWord n then some (decimalInt n) else none
  | .bool b => some (ascii (if b then "true" else "false"))
  | .float (.finite b) => some (floatText (.finite b))
  | .float (.infinite negative) => some (ascii (if negative then "-.inf" else ".inf"))
  | .float .notANumber => some (ascii ".nan")
  | .null => none

def keyFault (key : Scalar) (value : Value) : Bytes :=
  let type := if key = .null then ascii "%!s(<nil>)" else ascii "uint64"
  ascii "Unsupported map key of type: " ++ type ++ ascii ", key: " ++ key.shownAlone ++
    ascii ", value: " ++ value.shownAlone

mutual

def badKey? : Value → Option Bytes
  | .scalar _ => none
  | .list items => badKeyInItems? items
  | .map fields => badKeyInFields? fields

def badKeyInItems? : List Value → Option Bytes
  | [] => none
  | item :: rest => (badKey? item).or (badKeyInItems? rest)

def badKeyInFields? : List (Scalar × Value) → Option Bytes
  | [] => none
  | (key, value) :: rest =>
    if (keyName? key).isNone then some (keyFault key value) else (badKey? value).or (badKeyInFields? rest)

end

def holdsText : Field → Bool
  | .historyLimit => false
  | .extraPath => false
  | .debug => false
  | _ => true

def firstByName (found : List (Bytes × Option Bytes)) : Option Bytes :=
  (found.mergeSort fun a b => Bytes.notAfter a.1 b.1).findSome? (·.2)

def depthLimit : Nat := 10000

mutual

-- A number that is none is only a name in a text, and cannot be kept elsewhere.
def unwritable? (asText : Bool) (depth : Nat) : Value → Option Bytes
  | .scalar (.float (.finite _)) => none
  | .scalar (.float x) => if asText then none else some (ascii "json: unsupported value: " ++ x.text .double textLayout)
  | .scalar _ => none
  | .list items => if depthLimit ≤ depth then some (ascii "exceeded max depth") else unwritableItem? false (depth + 1) items
  | .map fields =>
    if depthLimit ≤ depth then some (ascii "exceeded max depth") else firstByName (unwritableFields (depth + 1) fields)

def unwritableItem? (asText : Bool) (depth : Nat) : List Value → Option Bytes
  | [] => none
  | item :: rest => (unwritable? asText depth item).or (unwritableItem? asText depth rest)

def unwritableFields (depth : Nat) : List (Scalar × Value) → List (Bytes × Option Bytes)
  | [] => []
  | (key, value) :: rest => ((keyName? key).getD [], unwritable? false depth value) :: unwritableFields depth rest

end

def namedValues (fields : List (Scalar × Value)) : List (Bytes × Value) :=
  (fields.filterMap fun f => (keyName? f.1).map (·, f.2)).mergeSort fun a b => Bytes.notAfter a.1 b.1

def unwritableEntry? (entry : Bytes × Value) : Option Bytes :=
  match Field.ofName? entry.1, entry.2 with
  | some .extraPath, .list items => unwritableItem? true 2 items
  | some f, value => unwritable? (holdsText f) 1 value
  | none, value => unwritable? false 1 value

def repair (text : Bytes) : Bytes :=
  (Utf8.units text).flatMap fun u =>
    match u with
    | .char _ bytes => bytes
    | .stray _ => Utf8.encode 0xFFFD

def scalarText : Scalar → Option Bytes
  | .null => none
  | .bool b => some (ascii (if b then "true" else "false"))
  | .int n => some (decimalInt n)
  | .float x => some (floatText x)
  | .string t => some (repair t)

def typeOf : Value → Bytes
  | .scalar .null => ascii "null"
  | .scalar (.bool _) => ascii "bool"
  | .scalar (.int _) => ascii "number"
  | .scalar (.float _) => ascii "number"
  | .scalar (.string _) => ascii "string"
  | .list _ => ascii "array"
  | .map _ => ascii "object"

def numeral? : Scalar → Option Bytes
  | .int n => some (decimalInt n)
  | .float (.finite b) => some (b.text .double Entry.layout)
  | _ => none

def word? (numeral : Bytes) : Option Int :=
  let (sign, digits) := Yaml.splitSign numeral
  (LineShell.numeral? 10 digits).bind fun n =>
    let value : Int := if sign = some true then -n else n
    if isWord value then some value else none

structure Draft where
  settings : Settings
  -- What earlier lists of directories left at each place.
  slots : List Bytes := []

-- Null leaves what an earlier list had at its place.
def itemTexts (name : Bytes) : Nat → List Bytes → List Value → Except SettingsFault (List Bytes)
  | _, _, [] => .ok []
  | index, slots, .scalar s :: rest =>
    (itemTexts name (index + 1) (slots.drop 1) rest).map ((scalarText s).getD (slots.headD []) :: ·)
  | index, _, item :: _ => .error (.mismatch (typeOf item) (.item name index) "string")

def textOf (name : Bytes) (old : Bytes) : Value → Except SettingsFault Bytes
  | .scalar s => .ok ((scalarText s).getD old)
  | value => .error (.mismatch (typeOf value) (.field name) "string")

namespace Draft

def setPath (d : Draft) (items : List Bytes) : Draft :=
  let slots := if items.isEmpty then [] else items ++ d.slots.drop items.length
  { settings := { d.settings with extraPath := items }, slots := slots }

def setField (d : Draft) (f : Field) (name : Bytes) (value : Value) : Except SettingsFault Draft :=
  let s := d.settings
  let wrong (found : Bytes) : Except SettingsFault Draft := .error (.mismatch found (.field name) f.typeName)
  let put (s : Settings) : Draft := { d with settings := s }
  match f with
  | .shellName => (textOf name s.shellName value).map fun t => put { s with shellName := t }
  | .prompt => (textOf name s.prompt value).map fun t => put { s with prompt := t }
  | .color => (textOf name s.color value).map fun t => put { s with color := t }
  | .historyFile => (textOf name s.historyFile value).map fun t => put { s with historyFile := t }
  | .eventLog => (textOf name s.eventLog value).map fun t => put { s with eventLog := t }
  | .historyLimit =>
    match value with
    | .scalar .null => .ok d
    | .scalar x =>
      match numeral? x with
      | some text =>
        match word? text with
        | some n => .ok (put { s with historyLimit := n })
        | none => wrong (ascii "number " ++ text)
      | none => wrong (typeOf value)
    | _ => wrong (typeOf value)
  | .extraPath =>
    match value with
    | .scalar .null => .ok (d.setPath [])
    | .list items => (itemTexts name 0 d.slots items).map d.setPath
    | _ => wrong (typeOf value)
  | .debug =>
    match value with
    | .scalar .null => .ok d
    | .scalar (.bool b) => .ok (put { s with debug := b })
    | _ => wrong (typeOf value)

def setFields (d : Draft) : List (Bytes × Value) → Except SettingsFault Draft
  | [] => .ok d
  | (name, value) :: rest =>
    match Field.ofName? name with
    | none => .error (.unknownField (repair name))
    | some f =>
      match d.setField f name value with
      | .error e => .error e
      | .ok d => d.setFields rest

end Draft

def ofValue (value : Value) : Except SettingsFault Settings :=
  match badKey? value with
  | some reason => .error (.malformed reason)
  | none =>
    match value with
    | .map fields =>
      let named := namedValues fields
      match named.findSome? unwritableEntry? with
      | some reason => .error (.malformed reason)
      | none => (Draft.setFields { settings := blank } named).map (·.settings)
    | .scalar .null => .ok blank
    | other =>
      match unwritable? false 0 other with
      | some reason => .error (.malformed reason)
      | none => .error (.mismatch (typeOf other) .document "config.Configuration")

def validate (s : Settings) : Except SettingsFault Settings :=
  match s.violations with
  | [] => .ok s
  | violations => .error (.invalid violations)

def parse (text : Bytes) : Except SettingsFault Settings :=
  match Yaml.read true text with
  | .error e => .error (.malformed e.message)
  | .ok value => (ofValue value).bind validate

end Settings
end LineShell
