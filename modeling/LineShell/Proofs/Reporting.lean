import Mathlib.Data.List.Forall2
import LineShell.Proofs.Messages
import LineShell.Proofs.Raising

namespace LineShell
open Utf8

theorem Variables.lookup_mem {t : Variables} (found : t.lookup key = some value) : ∃ entry ∈ t.entries, entry.2 = value := by
  obtain ⟨entry, hit, same⟩ := Option.map_eq_some_iff.mp found
  exact ⟨entry, List.mem_of_find?_eq_some hit, same⟩

namespace Session

-- The arguments of the first stage of a line, with the variables put in; none if the line is refused.
def Turn.command (t : Turn) : List Bytes :=
  match (compile t.session.expand (trimmed t.line) t.world).1 with
  | .ok ⟨stage :: _⟩ => stage.args
  | _ => []

-- The event tells what became of the line.
structure Describes (t : Turn) (event : Event) : Prop where
  line : event.line = trimmed t.line
  command : event.command = t.command
  status : event.status = t.result.1.1
  syntaxError : event.kind = Event.syntaxError ↔ ∃ cause token, t.fault? = some (.parse cause token)
  resourceError : event.kind = Event.resourceError ↔ ∃ call path cause, t.fault? = some (.resource call path cause)
  spawnError : event.kind = Event.spawnError ↔ ∃ path cause, t.fault? = some (.spawn path cause)
  error : event.error ≠ [] ↔ t.fault?.isSome = true

-- The texts that get into the events of a run are UTF-8: its lines, the values of the variables they find, the
-- directories in which programs are searched for, and the name of the session the events belong to.
structure Act.Valid (act : Act) : Prop where
  lines : ∀ u ∈ act.completed, valid u.line = true
  locals : ∀ u ∈ act.completed, ∀ name value, u.session.locals.lookup name = some value → valid value = true
  env : ∀ u ∈ act.completed, ∀ name value, u.session.env.lookup name = some value → valid value = true
  directories : ∀ directory ∈ act.session.searchPath, valid directory = true
  own : ∀ list, act.world.environValue? (ascii "PATH") = some list → valid list = true
  recorder : ∀ recorder, act.session.recorder = some recorder → valid recorder.session = true

variable {act : Act} {t : Turn}

theorem Turn.ran_command (t : Turn) : t.ran.command = t.command := by
  unfold ran command runLine
  rcases compile t.session.expand (trimmed t.line) t.world with ⟨outcome, after⟩
  cases outcome with
  | error fault => rfl
  | ok p =>
    obtain ⟨stages⟩ := p
    cases stages with
    | nil => rfl
    | cons stage others => rfl

theorem eventKind_cases (status : Int) (fault : Option Fault) :
    (eventKind status fault = Event.syntaxError ↔ ∃ cause token, fault = some (.parse cause token)) ∧
    (eventKind status fault = Event.resourceError ↔ ∃ call path cause, fault = some (.resource call path cause)) ∧
    (eventKind status fault = Event.spawnError ↔ ∃ path cause, fault = some (.spawn path cause)) := by
  have apart : ∀ kind ∈ [Event.runCommand, Event.unknownCommand],
      kind ≠ Event.syntaxError ∧ kind ≠ Event.resourceError ∧ kind ≠ Event.spawnError := by decide
  cases fault with
  | none =>
    have fine : eventKind status none ∈ [Event.runCommand, Event.unknownCommand] := by
      unfold eventKind
      dsimp only
      split
      · decide
      · decide
    simpa using apart _ fine
  | some fault =>
    cases fault with
    | parse cause token => simp [eventKind]; decide
    | resource call path cause => simp [eventKind]; decide
    | spawn path cause => simp [eventKind]; decide

theorem Act.Valid.line (valid : act.Valid) (completes : u ∈ act.completed) : WellFormed (trimmed u.line) :=
  Blank.trim_wellFormed (Line.stripComment_wellFormed (wellFormed_of_valid _ (valid.lines u completes)))

-- A line finds what has been there in the beginning, but for the variables.
theorem Act.Valid.legible (valid : act.Valid) (completes : u ∈ act.completed) :
    (∀ word ∈ u.ran.command, WellFormed word) ∧ ∀ fault, u.ran.fault = some fault → fault.Legible := by
  obtain ⟨environ, alongside⟩ := act.adds.2 u completes
  have searches : World.Searches u.world u.session.searchPath := by
    rw [alongside.searchPath]
    refine ⟨fun directory member => wellFormed_of_valid _ (valid.directories directory member), fun list found => ?_⟩
    refine wellFormed_of_valid _ (valid.own list ?_)
    unfold World.environValue? at found ⊢
    rwa [environ] at found
  have values : ∀ lookup ∈ u.session.lookups, ∀ name value, lookup name = some value → WellFormed value := by
    simp only [lookups, List.forall_mem_cons]
    refine ⟨fun name value found => ?_, fun name value found => wellFormed_of_valid _ (valid.locals u completes name value found),
      fun name value found => wellFormed_of_valid _ (valid.env u completes name value found), List.forall_mem_nil _⟩
    unfold lookupStatus at found
    split at found
    · cases found
      exact .decimalInt _
    · cases found
  exact runLine_legible (valid.line completes) (fun word good => Line.expand_wellFormed u.session.lookups values good) searches

theorem eventKind_plain (status : Int) (fault : Option Fault) : (eventKind status fault).all (· < 0x80) = true := by
  unfold eventKind
  split
  · decide
  · decide
  · decide
  · split <;> decide

-- So its event can be written.
theorem Act.Valid.writes (valid : act.Valid) (completes : u ∈ act.completed) : u.session.writes u.event = true := by
  obtain ⟨words, legible⟩ := valid.legible completes
  obtain ⟨_, alongside⟩ := act.adds.2 u completes
  unfold Session.writes Entry.writable Entry.texts
  rw [alongside.recorder]
  refine List.all_eq_true.mpr ?_
  simp only [List.cons_append, List.nil_append, List.forall_mem_cons]
  refine ⟨?_, (WellFormed.plain_all (eventKind_plain _ _)).valid, ?_, ?_, fun word member => (words word member).valid⟩
  · cases given : act.session.recorder with
    | none => rfl
    | some recorder => exact valid.recorder recorder given
  · exact (valid.line completes).valid
  · show Utf8.valid (lineEvent _ _ _ u.ran.fault).error = true
    cases fails : u.ran.fault with
    | none => rfl
    | some fault => exact (legible fault fails).wellFormed.valid

theorem Turn.reports_present (reports : t.reports = true) : trimmed t.line ≠ [] := by
  unfold Turn.reports at reports
  rw [Bool.and_eq_true] at reports
  simpa using reports.1

-- The status is found when the event is made and once more when the line returns.
theorem Turn.event_status (reports : t.reports = true) : t.event.status = t.result.1.1 := by
  have present := Turn.reports_present reports
  have same := Turn.fault?_ran present
  unfold event
  cases t.ended present with
  | held fine stored result => simp [Turn.reports, fine, result, stored] at reports
  | passed fine free result =>
    rw [← same, fine, result]
    rfl
  | failed fails unchanged result =>
    rw [← same, fails, result]
    rfl

theorem Act.Valid.describes (valid : act.Valid) (completes : t ∈ act.completed) (reports : t.reports = true) :
    Describes t t.event := by
  obtain ⟨_, legible⟩ := valid.legible completes
  have same := Turn.fault?_ran (Turn.reports_present reports)
  obtain ⟨parse, resource, spawn⟩ := eventKind_cases t.ran.status t.ran.fault
  refine ⟨rfl, t.ran_command, Turn.event_status reports, ?_, ?_, ?_, ?_⟩
  · rw [same]
    exact parse
  · rw [same]
    exact resource
  · rw [same]
    exact spawn
  · rw [same]
    show (lineEvent _ _ _ t.ran.fault).error ≠ [] ↔ _
    cases fails : t.ran.fault with
    | none => simp [lineEvent]
    | some fault => simpa [lineEvent] using (legible fault fails).stated

theorem Act.Valid.recorded (valid : act.Valid) :
    act.completed.flatMap Turn.recorded = (act.completed.filter Turn.reports).map Turn.event := by
  have each : ∀ u ∈ act.completed, u.recorded = if u.reports then [u.event] else [] := by
    intro u completes
    unfold Turn.recorded
    rw [valid.writes completes, Bool.and_true]
  rw [List.flatMap_congr each]
  induction act.completed with
  | nil => rfl
  | cons u others ih => cases reports : u.reports <;> simp [reports, ih]

-- The lines that leave no event are the blank ones and those that go through while a failure is held.
theorem Act.lines_reported (act : Act) (valid : act.Valid) (free : act.session.fatal = none) :
    (∃ events, act.left.events = events.reverse ++ act.world.events ∧
      List.Forall₂ Describes (act.completed.filter Turn.reports) events) ∧
    ∀ front t back, act.completed = front ++ t :: back → trimmed t.line ≠ [] → t.reports = false →
      t.fault? = none ∧ ∃ u ∈ front, act.Sourced u ∧ ∃ fault, u.fault? = some fault ∧ fault.isSpawn = true ∧
        t.result.2.1.fatal = some fault := by
  constructor
  · refine ⟨(act.completed.filter Turn.reports).map Turn.event, ?_, ?_⟩
    · rw [act.adds.1.events, valid.recorded]
    · refine List.forall₂_map_right_iff.mpr (List.forall₂_same.mpr fun u member => ?_)
      obtain ⟨completes, reports⟩ := List.mem_filter.mp member
      exact valid.describes completes reports
  · intro front t back order present silent
    have passed : t.fault? = none ∧ t.result.2.1.fatal.isSome = true := by
      simpa [Turn.reports, present] using silent
    obtain ⟨fault, held⟩ := Option.isSome_iff_exists.mp passed.2
    obtain ⟨last, traced⟩ := act.traced
    rw [order, free] at traced
    have quiet : t.raises = none := by
      unfold Turn.raises
      rw [passed.1]
      rfl
    rcases traced.raised quiet held with before | ⟨u, ended, raises⟩
    · cases before
    · have later := act.completed_raise
      rw [order] at later
      have sourced := (List.pairwise_append.mp later).2.2 u ended t List.mem_cons_self (by rw [raises]; rfl)
      obtain ⟨fails, spawned⟩ := Option.filter_eq_some_iff.mp raises
      exact ⟨passed.1, u, ended, sourced, fault, fails, spawned, held⟩

theorem values_valid (table : Session → Variables)
    (entries : ∀ u ∈ act.completed, ∀ entry ∈ (table u.session).entries, valid entry.2 = true) :
    ∀ u ∈ act.completed, ∀ name value, (table u.session).lookup name = some value → valid value = true := by
  intro u completes name value found
  obtain ⟨entry, member, rfl⟩ := Variables.lookup_mem found
  exact entries u completes entry member

-- A script that runs another one, in which a line is refused and a program does not start.
def failingInside : Act :=
  ⟨.script (ascii "a"), sourcing, unstartable [("a", "A=1 # all\n\n. b\nA=2"), ("b", "<\n./bad | A=3\nA=4")]⟩

theorem failingInside_valid : failingInside.Valid := by
  refine ⟨by decide +kernel, values_valid locals (by decide +kernel), values_valid env (by decide +kernel), by decide +kernel, ?_, ?_⟩
  · rintro list ⟨⟩
  · rintro recorder ⟨⟩

theorem lines_reported_inside :
    failingInside.Valid ∧ failingInside.session.fatal = none ∧
    (∃ events, List.Forall₂ Describes (failingInside.completed.filter Turn.reports) events ∧
      events.map (fun event => (event.line, event.kind, event.status)) = [(ascii "A=1", Event.runCommand, 0),
        (ascii "<", Event.syntaxError, 1), (ascii "./bad | A=3", Event.spawnError, 1)]) ∧
    ∃ t ∈ failingInside.completed, t.line = ascii ". b" ∧ t.fault? = none ∧ ∃ u ∈ failingInside.completed,
      failingInside.Sourced u ∧ ∃ fault, u.fault? = some fault ∧ t.result.2.1.fatal = some fault := by
  obtain ⟨⟨events, recorded, described⟩, silent⟩ := failingInside.lines_reported failingInside_valid rfl
  refine ⟨failingInside_valid, rfl, ⟨events, described, ?_⟩, ?_⟩
  · have all : events = failingInside.left.events.reverse := by
      rw [recorded, show failingInside.world.events = [] from rfl, List.append_nil, List.reverse_reverse]
    rw [all]
    decide +kernel
  · obtain ⟨t, completes, line, present, unreported⟩ : ∃ t ∈ failingInside.completed, t.line = ascii ". b" ∧
        trimmed t.line ≠ [] ∧ t.reports = false := by decide +kernel
    obtain ⟨front, back, order⟩ := List.append_of_mem completes
    obtain ⟨passed, u, ended, sourced, fault, fails, _, held⟩ := silent front t back order present unreported
    exact ⟨t, completes, line, passed, u, by rw [order]; exact List.mem_append_left _ ended, sourced, fault, fails, held⟩

-- A session that searches for programs in a directory whose name is not UTF-8, though no variable holds it any more;
-- in that directory there is a file that is no program.
def searching : Session :=
  (interpret (ascii "PATH=/usr/bin") (create {} ⟨some 0, some 1, some 2⟩ [ascii "PATH=" ++ [0xFF, 0x64]] (console []))
    (console [])).2.1

def misnamed : Act :=
  ⟨.line (ascii "bad"), searching,
    { console [] with
      tree := (Tree.empty.add Tree.root [0xFF, 0x64] (.directory Tree.root [])).add 1 (ascii "bad") (.file (ascii "x") false) }⟩

-- A session that goes on although it holds the failure of a program that did not start, outside of any script.
def goneOn : Act := ⟨.line (ascii "mexit 1 2"), failed, afterwards.world⟩
def afterFailure : Act := ⟨.line (ascii "A=1"), goneOn.after, goneOn.left⟩

-- The texts of the lines and of the variables are not enough, and neither is it that the session has not exited.
theorem lines_reported_unwritten :
    (¬∀ act : Act, act.session.exited = false → (∀ u ∈ act.completed, valid u.line = true) →
      (∀ u ∈ act.completed, ∀ name value, u.session.locals.lookup name = some value → valid value = true) →
      (∀ u ∈ act.completed, ∀ name value, u.session.env.lookup name = some value → valid value = true) →
      ∃ events, act.left.events = events.reverse ++ act.world.events ∧
        List.Forall₂ Describes (act.completed.filter Turn.reports) events) ∧
    afterFailure.session.exited = false ∧ (∀ turn ∈ Act.turns ⟨.line (ascii "./bad"), sourcing, denying⟩, turn.calls.length = 0) ∧
    (∃ t ∈ afterFailure.completed, t.line = ascii "A=1" ∧ t.fault? = none) ∧
    afterFailure.left.events = afterFailure.world.events := by
  constructor
  · intro claimed
    obtain ⟨events, recorded, described⟩ := claimed misnamed (by decide +kernel) (by decide +kernel)
      (values_valid locals (by decide +kernel)) (values_valid env (by decide +kernel))
    have none : misnamed.left.events = [] := by decide +kernel
    rw [none] at recorded
    have empty := (List.append_eq_nil_iff.mp recorded.symm).1
    rw [List.reverse_eq_nil_iff.mp empty] at described
    have one : (misnamed.completed.filter Turn.reports).length = 1 := by decide +kernel
    rw [List.forall₂_nil_right_iff.mp described] at one
    cases one
  · decide +kernel

end Session
end LineShell
