import LineShell.Proofs.Ranges

-- Lines inside a line end before it does, but none of them has begun when its own words are expanded.
namespace LineShell.Session
open World
variable {t : Turn}

-- The status of the last of these lines that is not blank; that of the beginning if there is none.
def latest (start : Int) (turns : List Turn) : Int :=
  ((turns.filter fun t => trimmed t.line ≠ []).getLast?.map fun t => t.result.1.1).getD start

theorem latest_append (start : Int) (turns later : List Turn) : latest start (turns ++ later) = latest (latest start turns) later := by
  unfold latest
  rw [List.filter_append, List.getLast?_append]
  cases (later.filter fun t => trimmed t.line ≠ []).getLast? with
  | none => rfl
  | some t => rfl

theorem latest_single (start : Int) (t : Turn) : latest start [t] = if trimmed t.line = [] then start else t.result.1.1 := by
  unfold latest
  by_cases blank : trimmed t.line = []
  · simp [blank]
  · simp [blank]

-- A line that is not blank leaves the status it returns.
theorem Turn.left_status (present : trimmed t.line ≠ []) : t.result.2.1.lastStatus = t.result.1.1 := by
  cases t.ended present with
  | held fine stored result => rw [result]
  | passed fine free result => rw [result]
  | failed fails unchanged result => rw [result]

theorem split_append {turns later before back : List Turn} (same : turns ++ later = before ++ t :: back) :
    (∃ rest, turns = before ++ t :: rest) ∨ ∃ front, before = turns ++ front ∧ later = front ++ t :: back := by
  rcases List.append_eq_append_iff.mp same with ⟨front, here, there⟩ | ⟨rest, here, there⟩
  · exact .inr ⟨front, here, there⟩
  · cases rest with
    | nil => exact .inr ⟨[], by simpa using here.symm, by simpa using there.symm⟩
    | cons u rest =>
      obtain ⟨rfl, _⟩ := List.cons.inj there
      exact .inl ⟨rest, here⟩

-- Lines in the order in which they end. Each finds the status of the last one in front of those inside it, and what
-- comes after all of them that of the last one.
structure Told (start : Int) (turns : List Turn) (last : Int) : Prop where
  last : last = latest start turns
  each : ∀ before u back, turns = before ++ u :: back →
    ∃ front, before = front ++ u.within ∧ u.session.lastStatus = latest start front

variable {start middle last : Int} {turns later : List Turn}

theorem Told.nil (start : Int) : Told start [] start := ⟨rfl, by simp⟩

theorem Told.append (front : Told start turns middle) (back : Told middle later last) : Told start (turns ++ later) last := by
  obtain ⟨rfl, earlier⟩ := front
  obtain ⟨rfl, following⟩ := back
  refine ⟨(latest_append start turns later).symm, fun before u rest order => ?_⟩
  rcases split_append order with ⟨others, here⟩ | ⟨between, rfl, there⟩
  · exact earlier before u others here
  · obtain ⟨outside, rfl, found⟩ := following between u rest there
    exact ⟨turns ++ outside, (List.append_assoc ..).symm, found.trans (latest_append start turns outside).symm⟩

-- The line itself ends after the lines inside it, with the status that it has found itself.
theorem Told.close (inside : Told t.session.lastStatus t.within middle)
    (ends : t.result.2.1.lastStatus = if trimmed t.line = [] then middle else t.result.1.1) :
    Told t.session.lastStatus (t.within ++ [t]) t.result.2.1.lastStatus := by
  obtain ⟨rfl, each⟩ := inside
  refine ⟨by rw [latest_append, latest_single, ends], fun before u back order => ?_⟩
  rcases split_append order with ⟨others, here⟩ | ⟨between, rfl, there⟩
  · exact each before u others here
  · cases between with
    | nil =>
      obtain ⟨rfl, _⟩ := List.cons.inj there
      exact ⟨[], by simp, rfl⟩
    | cons first others => simp at there

theorem gathers_told : Gathers lastStatus Told where
  nil := Told.nil
  append := Told.append
  setting _ _ _ _ _ := rfl
  stage plain := (Turn.stage_answers plain).same
  line t inside := by
    refine Told.close inside ?_
    by_cases blank : trimmed t.line = []
    · rw [Turn.blank_result blank, Turn.blank_left blank, if_pos blank]
    · rw [if_neg blank]
      exact Turn.left_status blank

theorem Act.told (act : Act) : Told act.session.lastStatus act.completed act.after.lastStatus := by
  obtain ⟨first, final, linked, begins, ended, _⟩ := act.spanned
  rw [← begins, ended]
  exact gathers_told.linked linked fun turn _ => gathers_told.turn turn

theorem Run.told (run : Run first acts final) : Told first.lastStatus (acts.flatMap Act.completed) final.lastStatus :=
  gathers_told.linked (show Linked first (acts.map Act.ends) final from run) fun act _ => act.told

-- The value that the session puts in for `$?`, in a longer word too.
structure Shows (s : Session) (status : Int) : Prop where
  value : Line.resolve s.lookups statusVar = decimalInt status
  word : s.expand (ascii "$?") = decimalInt status

-- Names are looked up there first.
theorem shows_last (s : Session) : Shows s s.lastStatus := by
  have value : Line.resolve s.lookups statusVar = decimalInt s.lastStatus := by
    simp [Line.resolve, lookups, lookupStatus]
  refine ⟨value, ?_⟩
  have text : ascii "$?" = Bytes.dollar :: statusVar := by decide
  have name : statusVar = [0x3F] := by decide
  have ordinary : Line.isNameEnd 0x3F = false := by decide
  unfold Session.expand Line.expand
  rw [text, ← value, name]
  simp [Line.expandFrom, Line.finishName, ordinary, show Bytes.dollar ≠ Bytes.backslash by decide,
    show Bytes.dollar ≠ Bytes.singleQuote by decide, show Bytes.dollar ≠ Bytes.doubleQuote by decide,
    show (0x3F : UInt8) ≠ Bytes.openParen by decide]

theorem run_statuses (run : Run first acts final) (begins : first.lastStatus = 0)
    (usual : ∀ u ∈ acts.flatMap Act.completed, u.Usual) :
    ((∀ act ∈ acts, act.Ranges) ∧ Ranged final.lastStatus) ∧
    (∀ rest parsed code n, Builtin.exit.usage.parse [] rest = .ok parsed → parsed.isOn Builtin.letterH = false →
      parsed.operands = [code] → Builtin.integer? code = some n →
      ∀ runScript streams s w, (Builtin.run runScript (Builtin.exit.name :: rest) streams s w).1 = n % 256) ∧
    Shows final (latest 0 (acts.flatMap Act.completed)) ∧
    ∀ before u back, acts.flatMap Act.completed = before ++ u :: back →
      ∃ front, before = front ++ u.within ∧ Shows u.session (latest 0 front) := by
  have told := run.told
  rw [begins] at told
  refine ⟨run.ranges usual (by rw [begins]; exact ranged_zero), ?_, ?_, fun before u back order => ?_⟩
  · intro rest parsed code n read runs single integer runScript streams s w
    exact Builtin.run_exit_code read runs single integer streams s w
  · rw [← told.last]
    exact shows_last final
  · obtain ⟨front, inside, found⟩ := told.each before u back order
    refine ⟨front, inside, ?_⟩
    rw [← found]
    exact shows_last u.session

-- A program that fails, and then a script that shows the status and exits with a negative number.
def missingFile : Act :=
  ⟨.line (ascii "./cat none"), sourcing, { scripted [("s", "mecho $?\nmexit -- -1")] with
    tree := Tree.empty.add Tree.root (ascii "cat") (.utility .cat) }⟩

def negativeExit : Turn := ⟨ascii ". s", missingFile.after, missingFile.left⟩

def failThenExit : List Act := [missingFile, ⟨.line negativeExit.line, negativeExit.session, negativeExit.world⟩]

theorem run_statuses_exit :
    Run sourcing failThenExit negativeExit.result.2.1 ∧ sourcing.lastStatus = 0 ∧
    (∀ u ∈ failThenExit.flatMap Act.completed, u.Usual) ∧
    (∀ act ∈ failThenExit, Ranged act.status) ∧ failThenExit.map Act.status = [1, 255] ∧
    (∀ runScript streams s w, (Builtin.run runScript [Builtin.exit.name, ascii "--", ascii "-1"] streams s w).1 = 255) ∧
    negativeExit.result.2.1.expand (ascii "$?") = ascii "255" ∧
    negativeExit.within.length = 2 ∧ negativeExit.session.expand (ascii "$?") = ascii "1" := by
  have run : Run sourcing failThenExit negativeExit.result.2.1 := by
    simp only [failThenExit, Run, List.map_cons, List.map_nil, Act.ends, Linked, Act.after, Turn.result, negativeExit, and_true]
    rfl
  have programs : ∀ u ∈ failThenExit.flatMap Act.completed, ∀ child ∈ (u.waitedAt 0).children, ∀ ended ∈ child.outcome,
      ended.Usual := by decide +kernel
  have calls : ∀ u ∈ failThenExit.flatMap Act.completed, ∀ fault ∈ u.fault?, fault.cause.code ≤ 255 := by decide +kernel
  have usual : ∀ u ∈ failThenExit.flatMap Act.completed, u.Usual :=
    fun u completes => ⟨programs u completes, calls u completes⟩
  obtain ⟨⟨ranges, _⟩, exits, last, each⟩ := run_statuses run rfl usual
  have order : failThenExit.flatMap Act.completed = (missingFile.completed ++ negativeExit.within) ++ negativeExit :: [] := by
    simp [failThenExit, Act.completed, Act.turns, Turn.completed_within]
  obtain ⟨front, before, found⟩ := each _ negativeExit [] order
  rw [← List.append_cancel_right before] at found
  refine ⟨run, rfl, usual, fun act member => (ranges act member).returned, by decide +kernel, ?_, ?_, by decide +kernel, ?_⟩
  · exact exits [ascii "--", ascii "-1"] ⟨[], [ascii "-1"]⟩ (ascii "-1") (-1) (by decide +kernel) rfl rfl (by decide +kernel)
  · rw [last.word]
    decide +kernel
  · rw [found.word]
    decide +kernel

end LineShell.Session
