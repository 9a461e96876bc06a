import Mathlib.Data.List.Forall2
import LineShell.Proofs.Escaping
import LineShell.Proofs.Numerals
import LineShell.Proofs.Replaying

namespace LineShell
open Bytes JsonText Utf8

namespace JsonText

-- A tree that is spelled by what it is written as, with nothing but visible bytes.
structure Written (room : Nat) (tree : Tree) : Prop where
  spelled : Spells room tree (write tree)
  visible : Visible (write tree)

theorem blank_nil : Blank [] := fun _ member => nomatch member

theorem Spells.loosely (spelled : Spells room tree text) : SpellsLoosely room tree text := by
  have bare := SpellsLoosely.intro blank_nil spelled blank_nil
  rwa [List.nil_append, List.append_nil] at bare

theorem visible_byte (shown : ¬c < 0x20) : Visible [c] := fun _ member => List.mem_singleton.mp member ▸ shown

theorem Written.string (raw : Raw text) : Written room (.string text) := by
  refine ⟨.string raw, ?_⟩
  exact ((visible_byte (by decide)).append raw.visible).append (visible_byte (by decide))

theorem figures_visible (figures : Figures text) : Visible text := fun c member =>
  visible_of (by decide) (figures.2 c member)

theorem Written.whole (n : Int) : Written room (.number (decimalInt n)) := by
  refine ⟨.number (decimalInt_numeral n), ?_⟩
  rw [write, decimalInt_cases]
  refine Visible.append ?_ (figures_visible (decimal_figures _))
  split
  · exact visible_byte (by decide)
  · simp [Visible]

theorem writeItems_written (written : ∀ item ∈ items, Written room item) (some_ : items ≠ []) :
    SpellsItems room items (writeItems items) ∧ Visible (writeItems items) := by
  induction items with
  | nil => exact absurd rfl some_
  | cons item rest ih =>
    obtain ⟨first, others⟩ := List.forall_mem_cons.mp written
    cases rest with
    | nil => exact ⟨.last first.spelled.loosely, first.visible⟩
    | cons next later =>
      obtain ⟨spelled, visible⟩ := ih others (by simp)
      rw [writeItems, List.append_assoc]
      exact ⟨.more first.spelled.loosely spelled, first.visible.append ((visible_byte (by decide)).append visible)⟩
      simp

theorem Written.list (written : ∀ item ∈ items, Written room item) : Written (room + 1) (.array items) := by
  cases items with
  | nil => exact ⟨.emptyList blank_nil, by simp [write, writeItems, Visible]⟩
  | cons item rest =>
    obtain ⟨spelled, visible⟩ := writeItems_written written (by simp)
    exact ⟨.list spelled, ((visible_byte (by decide)).append visible).append (visible_byte (by decide))⟩

-- A field that is written with its key between quotes.
def fieldText (pair : Bytes × Tree) : Bytes := [doubleQuote] ++ pair.1 ++ [doubleQuote, colon] ++ write pair.2

theorem fieldText_written (key : Raw pair.1) (value : Written room pair.2) :
    SpellsField room pair (fieldText pair) ∧ Visible (fieldText pair) := by
  have mark : Visible [doubleQuote, colon] := by simp [Visible]; decide
  refine ⟨?_, (((visible_byte (by decide)).append key.visible).append mark).append value.visible⟩
  simpa [fieldText] using SpellsField.intro blank_nil key blank_nil value.spelled.loosely

theorem writeFields_cons (pair next : Bytes × Tree) (rest : List (Bytes × Tree)) :
    writeFields (pair :: next :: rest) = fieldText pair ++ 0x2C :: writeFields (next :: rest) := by
  rw [writeFields, List.append_assoc]
  · rfl
  · simp

theorem writeFields_written (written : ∀ pair ∈ fields, Raw pair.1 ∧ Written room pair.2) (some_ : fields ≠ []) :
    SpellsFields room fields (writeFields fields) ∧ Visible (writeFields fields) := by
  induction fields with
  | nil => exact absurd rfl some_
  | cons pair rest ih =>
    obtain ⟨⟨key, value⟩, others⟩ := List.forall_mem_cons.mp written
    obtain ⟨field, shown⟩ := fieldText_written key value
    cases rest with
    | nil => exact ⟨.last field, shown⟩
    | cons next later =>
      obtain ⟨spelled, visible⟩ := ih others (by simp)
      rw [writeFields_cons]
      exact ⟨.more field spelled, shown.append ((visible_byte (by decide)).append visible)⟩

theorem Written.object (written : ∀ pair ∈ fields, Raw pair.1 ∧ Written room pair.2) (some_ : fields ≠ []) :
    Written (room + 1) (.object fields) := by
  obtain ⟨spelled, visible⟩ := writeFields_written written some_
  exact ⟨.object spelled, ((visible_byte (by decide)).append visible).append (visible_byte (by decide))⟩

-- Trees that stand for values

-- A field as written and the field it stands for.
def Stands (written : Bytes × Tree) (field : Bytes × Value) : Prop :=
  unescape written.1 = .ok field.1 ∧ Value.ofTree written.2 = .ok field.2

theorem ofFields_stands (all : List.Forall₂ Stands written fields) (fresh : ∀ field ∈ fields, field.1 ∉ seen)
    (distinct : (fields.map (·.1)).Nodup) : Value.ofFields seen written = .ok fields := by
  induction all generalizing seen with
  | nil => rfl
  | @cons pair field more rest stands _ ih =>
    obtain ⟨name, value⟩ := stands
    obtain ⟨new, others⟩ := List.forall_mem_cons.mp fresh
    obtain ⟨other, distinct⟩ := List.nodup_cons.mp distinct
    have later : Value.ofFields (field.1 :: seen) more = .ok rest := by
      refine ih (fun next member => ?_) distinct
      rw [List.mem_cons, not_or]
      exact ⟨fun same => other (List.mem_map.mpr ⟨next, member, same⟩), others next member⟩
    simp only [Value.ofFields, name, value, later]
    simp [new, Except.map]

theorem ofTree_string (text : WellFormed t) : Value.ofTree (Entry.string t) = .ok (.string t) := by
  simp only [Entry.string, Value.ofTree, unescape_escape text]
  rfl

theorem ofItems_strings {command : List Bytes} (texts : ∀ t ∈ command, WellFormed t) :
    Value.ofItems (command.map Entry.string) = .ok (command.map .string) := by
  induction command with
  | nil => rfl
  | cons t rest ih =>
    obtain ⟨first, others⟩ := List.forall_mem_cons.mp texts
    simp only [List.map_cons, Value.ofItems, ofTree_string first, ih others]
    rfl

end JsonText

namespace Entry

-- What makes an entry one that a log gives back: its texts are characters, its numbers are not too large, and
-- it has a kind.
structure Kept (e : Entry) : Prop where
  texts : ∀ t ∈ e.texts, WellFormed t
  status : e.status.natAbs < exactLimit
  micros : e.micros.natAbs < exactLimit
  kind : e.kind ≠ []

theorem numeral_small (small : n.natAbs < exactLimit) : numeral n = decimalInt n := if_pos (Nat.le_of_lt small)

theorem ofTree_numeral (small : n.natAbs < exactLimit) :
    ∃ b, Value.ofTree (.number (numeral n)) = .ok (.number b) ∧ (Value.number b).word = n := by
  obtain ⟨b, found, value⟩ := decimalInt_exact small
  refine ⟨b, ?_, value⟩
  rw [numeral_small small, Value.ofTree, found]

theorem toTree_written (kept : Kept e) : Written depthLimit e.toTree := by
  have strings : ∀ room t, Written room (string t) := fun _ t => .string (escape_raw t)
  have numbers : ∀ {n : Int}, n.natAbs < exactLimit → Written 9999 (.number (numeral n)) := fun small =>
    (numeral_small small).symm ▸ .whole _
  have list : Written (9998 + 1) (.array (e.command.map string)) := .list fun item member => by
    obtain ⟨t, _, rfl⟩ := List.mem_map.mp member
    exact strings _ t
  have keys := escape_raw
  have last : ∀ pair ∈ [(ascii "line", string e.line), (ascii "session_id", string e.session),
      (ascii "status", .number (numeral e.status)), (ascii "timestamp_micros", .number (numeral e.micros)),
      (ascii "type", string e.kind)], Raw pair.1 ∧ Written 9999 pair.2 := by
    simp only [List.forall_mem_cons]
    exact ⟨⟨keys (ascii "line"), strings _ _⟩, ⟨keys (ascii "session_id"), strings _ _⟩,
      ⟨keys (ascii "status"), numbers kept.status⟩, ⟨keys (ascii "timestamp_micros"), numbers kept.micros⟩,
      ⟨keys (ascii "type"), strings _ _⟩, fun _ member => nomatch member⟩
  have room : depthLimit = 9999 + 1 := rfl
  rw [room]
  refine .object (fun pair member => ?_) (by simp)
  rcases List.mem_append.mp member with front | member
  · rcases List.mem_append.mp front with command | error
    · rw [List.mem_singleton.mp command]
      exact ⟨keys (ascii "command"), list⟩
    · split at error
      · cases error
      · rw [List.mem_singleton.mp error]
        exact ⟨keys (ascii "error"), strings _ _⟩
  · exact last pair member

-- The fields a written entry has.
def fieldsOf (e : Entry) (status micros : Binary) : List (Bytes × Value) :=
  [(ascii "command", .list (e.command.map .string))] ++
    (if e.error.isEmpty then [] else [(ascii "error", .string e.error)]) ++
    [(ascii "line", .string e.line), (ascii "session_id", .string e.session), (ascii "status", .number status),
      (ascii "timestamp_micros", .number micros), (ascii "type", .string e.kind)]

theorem fieldsOf_distinct : ((fieldsOf e s m).map (·.1)).Nodup := by
  unfold fieldsOf
  split
  · exact (by decide +kernel : [ascii "command", ascii "line", ascii "session_id", ascii "status", ascii "timestamp_micros",
      ascii "type"].Nodup)
  · exact (by decide +kernel : [ascii "command", ascii "error", ascii "line", ascii "session_id", ascii "status",
      ascii "timestamp_micros", ascii "type"].Nodup)

theorem fieldsOf_error : (Value.field (fieldsOf e s m) (ascii "error")).text = e.error := by
  unfold fieldsOf
  split
  · rename_i empty
    rw [List.isEmpty_iff.mp empty]
    rfl
  · rfl

theorem fieldsOf_others : ofFields? (fieldsOf e s m) = if e.kind.isEmpty then none else some
    { kind := e.kind, line := e.line, command := (e.command.map Value.string).map Value.text
      status := (Value.number s).word, error := (Value.field (fieldsOf e s m) (ascii "error")).text
      session := e.session, micros := (wrap64 ((Value.number m).word * 1000)).tdiv 1000 } := by
  unfold fieldsOf
  split <;> rfl

theorem ofFields_fieldsOf (kept : Kept e) (status : (Value.number s).word = e.status)
    (micros : (Value.number m).word = e.micros) : ofFields? (fieldsOf e s m) = some e := by
  have command : (e.command.map Value.string).map Value.text = e.command := by
    rw [List.map_map]
    exact List.map_id _
  have kind : e.kind.isEmpty = false := by simpa using kept.kind
  rw [fieldsOf_others, kind, command, status, micros, wrap64_micros kept.micros, fieldsOf_error]
  rfl

theorem ofTree_struct (value : Value.ofTree (.object written) = .ok (.struct fields)) (entry : ofFields? fields = some e) :
    ofTree (.object written) = .ok e := by
  simp only [ofTree, value, entry]

-- An entry that can be kept is what its tree stands for.
theorem ofTree_toTree (kept : Kept e) : ofTree e.toTree = .ok e := by
  obtain ⟨s, status, statusValue⟩ := ofTree_numeral kept.status
  obtain ⟨m, micros, microsValue⟩ := ofTree_numeral kept.micros
  have texts := kept.texts
  simp only [Entry.texts, List.cons_append, List.nil_append, List.forall_mem_cons] at texts
  obtain ⟨session, kind, line, error, command⟩ := texts
  have list : Value.ofTree (.array (e.command.map string)) = .ok (.list (e.command.map .string)) := by
    rw [Value.ofTree, ofItems_strings command]
    rfl
  have key : ∀ {name : Bytes}, unescape name = .ok name → ∀ {tree v}, Value.ofTree tree = .ok v → Stands (name, tree) (name, v) :=
    fun name _ _ value => ⟨name, value⟩
  have stands : List.Forall₂ Stands ([(ascii "command", .array (e.command.map string))] ++
    (if e.error.isEmpty then [] else [(ascii "error", string e.error)]) ++
    [(ascii "line", string e.line), (ascii "session_id", string e.session),
      (ascii "status", .number (numeral e.status)),
      (ascii "timestamp_micros", .number (numeral e.micros)), (ascii "type", string e.kind)]) (fieldsOf e s m) := by
    unfold fieldsOf
    refine List.rel_append (List.rel_append (.cons (key rfl list) .nil) ?_) 
      (.cons (key rfl (ofTree_string line)) (.cons (key rfl (ofTree_string session)) (.cons (key rfl status)
        (.cons (key rfl micros) (.cons (key rfl (ofTree_string kind)) .nil)))))
    split
    · exact .nil
    · exact .cons (key rfl (ofTree_string error)) .nil
  have fields := ofFields_stands stands (fun _ _ => List.not_mem_nil) fieldsOf_distinct
  have value : Value.ofTree e.toTree = .ok (.struct (fieldsOf e s m)) := by
    rw [toTree, Value.ofTree, fields]
    rfl
  exact ofTree_struct value (ofFields_fieldsOf kept statusValue microsValue)

-- Lines that spell entries, each with a line end, are read as these entries; blanks between the parts of a line,
-- which another writer may put there, do not matter.
theorem entries_lines (lines : List (Entry × Bytes)) (gap : Blank blanks)
    (spelled : ∀ line ∈ lines, Spells depthLimit line.1.toTree line.2 ∧ ofTree line.1.toTree = .ok line.1) :
    ∃ left, Blank left ∧ Entries (blanks ++ lines.flatMap fun line => line.2 ++ [newline]) (lines.map (·.1)) left := by
  induction lines generalizing blanks with
  | nil => exact ⟨blanks ++ [], by rwa [List.append_nil], .none⟩
  | cons line rest ih =>
    obtain ⟨⟨body, entry⟩, others⟩ := List.forall_mem_cons.mp spelled
    have ended : Blank [newline] := fun _ member => List.mem_singleton.mp member ▸ rfl
    obtain ⟨left, blank, entries⟩ := ih ended others
    refine ⟨left, blank, .more ⟨blanks, _, line.2, ?_, gap, body, entry⟩ entries⟩
    simp

theorem readAll_lines (lines : List (Entry × Bytes))
    (spelled : ∀ line ∈ lines, Spells depthLimit line.1.toTree line.2 ∧ ofTree line.1.toTree = .ok line.1) :
    readAll (lines.flatMap fun line => line.2 ++ [newline]) = (lines.map (·.1), none) := by
  obtain ⟨left, blank, entries⟩ := entries_lines lines blank_nil spelled
  obtain ⟨same, fault⟩ := readAll_of_entries entries fun _ _ => not_heads_blank (skipBlanks_nil.mpr blank)
  exact Prod.ext same (fault.mpr (.inl blank))

end Entry
-- Whether all texts of an event are characters.
def Event.valid (e : Event) : Bool := ([e.kind, e.line, e.error] ++ e.command).all Utf8.valid

-- An event given to a log at a time, in a session, which has a number, or outside of any.
structure Submission where
  session : Option Nat
  nanos : Int
  event : Event

namespace Submission

def entry (r : Submission) : Entry := .ofEvent (r.session.elim [] decimal) r.nanos r.event

-- The log when the event was given to it, and whether it was refused.
def record (r : Submission) (log : Bytes) : Bytes × Bool :=
  match r.entry.encode? with
  | some line => (log ++ line, false)
  | none => (log, true)

def recordAll (submissions : List Submission) (log : Bytes) : Bytes := submissions.foldl (fun log r => (r.record log).1) log

theorem session_valid (session : Option Nat) : Utf8.valid (session.elim [] decimal) = true := by
  cases session with
  | none => rfl
  | some id =>
    refine (WellFormed.plain fun c member => ?_).valid
    have digit := (decimal_figures id).2 c member
    simp only [isDigit, Bool.and_eq_true, decide_eq_true_eq] at digit
    exact UInt8.lt_of_le_of_lt digit.2 (by decide)

theorem writable_eq (r : Submission) : r.entry.writable = r.event.valid := by
  have session := session_valid r.session
  simp only [Entry.writable, Entry.texts, Event.valid, entry, Entry.ofEvent, List.cons_append, List.nil_append,
    List.all_cons, session, Bool.true_and]

theorem kept {r : Submission} (kind : r.event.kind ≠ []) (status : r.event.status.natAbs < 2 ^ 53)
    (time : (r.nanos.tdiv 1000).natAbs < 2 ^ 53) (valid : r.event.valid = true) : r.entry.Kept := by
  rw [← writable_eq] at valid
  exact ⟨fun t member => wellFormed_of_valid t (List.all_eq_true.mp valid t member), status, time, kind⟩

theorem record_valid {r : Submission} (valid : r.event.valid = true) (log : Bytes) :
    r.record log = (log ++ (write r.entry.toTree ++ [newline]), false) := by
  simp only [record, Entry.encode?, writable_eq, valid, if_true]

theorem record_invalid {r : Submission} (invalid : r.event.valid = false) (log : Bytes) : r.record log = (log, true) := by
  simp only [record, Entry.encode?, writable_eq, invalid, Bool.false_eq_true, if_false]

theorem recordAll_eq (submissions : List Submission) (log : Bytes) : recordAll submissions log =
    log ++ (submissions.filter (·.event.valid)).flatMap fun r => write r.entry.toTree ++ [newline] := by
  induction submissions generalizing log with
  | nil => exact (List.append_nil log).symm
  | cons r rest ih =>
    have step : recordAll (r :: rest) log = recordAll rest (r.record log).1 := rfl
    rw [step, ih]
    cases valid : r.event.valid with
    | true => rw [record_valid valid, List.filter_cons, valid, if_pos rfl, List.flatMap_cons, List.append_assoc]
    | false => rw [record_invalid valid, List.filter_cons, valid, if_neg Bool.false_ne_true]

theorem recorded_read (submissions : List Submission) (kinds : ∀ r ∈ submissions, r.event.kind ≠ [])
    (statuses : ∀ r ∈ submissions, r.event.status.natAbs < 2 ^ 53)
    (times : ∀ r ∈ submissions, (r.nanos.tdiv 1000).natAbs < 2 ^ 53) :
    (∀ r ∈ submissions, ∀ log,
      (r.event.valid = true ∧ ∃ line, newline ∉ line ∧ r.record log = (log ++ (line ++ [newline]), false)) ∨
      (r.event.valid = false ∧ r.record log = (log, true))) ∧
    Entry.readAll (recordAll submissions []) = ((submissions.filter (·.event.valid)).map fun r =>
      { toEvent := r.event, session := r.session.elim [] decimal, micros := r.nanos.tdiv 1000 }, none) := by
  have keeps : ∀ r ∈ submissions, r.event.valid = true → r.entry.Kept := fun r member =>
    kept (kinds r member) (statuses r member) (times r member)
  constructor
  · intro r member log
    cases valid : r.event.valid with
    | true => exact .inl ⟨rfl, _, (Entry.toTree_written (keeps r member valid)).visible.no_newline, record_valid valid log⟩
    | false => exact .inr ⟨rfl, record_invalid valid log⟩
  · have lines := Entry.readAll_lines ((submissions.filter (·.event.valid)).map fun r => (r.entry, write r.entry.toTree)) (by
      intro line member
      obtain ⟨r, inside, rfl⟩ := List.mem_map.mp member
      obtain ⟨member, valid⟩ := List.mem_filter.mp inside
      exact ⟨(Entry.toTree_written (keeps r member valid)).spelled, Entry.ofTree_toTree (keeps r member valid)⟩)
    rw [List.flatMap_map, List.map_map] at lines
    rw [recordAll_eq, List.nil_append, lines]
    rfl

-- Quotes, control characters and line ends in a session, an event outside of any that cannot be written, and one
-- before 1970 without a line.
def mixed : List Submission :=
  [⟨some 18446744073709551615, 1500, ⟨ascii "run_command", ascii "mecho \x22\\\x22 \n\t\x01", [ascii "mecho", [0xC3, 0xA9, 0x0A]], -1, []⟩⟩,
    ⟨none, 0, ⟨ascii "run_command", [0xFF], [], 0, []⟩⟩,
    ⟨none, -1999, ⟨ascii "syntax_error", [], [], 9007199254740991, ascii "<\x7b\x7d>"⟩⟩]

theorem recorded_read_mixed : (Entry.readAll (recordAll mixed [])).2 = none ∧
    (Entry.readAll (recordAll mixed [])).1.map (fun e => (e.session.length, e.status, e.micros)) =
      [(20, -1, 1), (0, 9007199254740991, -1)] := by
  have read := (recorded_read mixed (by decide) (by decide) (by decide)).2
  rw [read]
  exact ⟨rfl, by decide +kernel⟩

end Submission
end LineShell
