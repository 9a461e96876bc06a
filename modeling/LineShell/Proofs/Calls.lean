import LineShell.Proofs.Lasting

-- Each operation is described by the calls it adds to the trace; what it does to the files that were there before
-- follows from these alone.
namespace LineShell.World
variable {w middle after : World}

-- Whether the shell has closed its end of a file; nothing is said about a file that does not exist.
def isClosed (w : World) (f : FileId) : Option Bool := (w.file? f).map (·.closed)

-- The directory and the environment a program was started with.
def surroundings (w : World) (child : ChildId) : Option (NodeId × List Bytes) :=
  w.children[child]?.map fun started => (started.cwd, started.environ)

-- The calls lead from one world to the other: no file disappears, the shell's end of a file that was
-- there before is closed by a call or not at all, and programs keep what they were started with.
structure Reaches (w : World) (calls : List Call) (after : World) : Prop where
  trace : after.trace = calls ++ w.trace
  files : w.files.size ≤ after.files.size
  flags : ∀ f, f < w.files.size →
    after.isClosed f = if .closed f ∈ calls then some true else w.isClosed f
  programs : ∀ child given, w.surroundings child = some given → after.surroundings child = some given

theorem Reaches.refl (w : World) : Reaches w [] w :=
  ⟨rfl, Nat.le_refl _, fun _ _ => by simp, fun _ _ given => given⟩

theorem Reaches.trans (first : Reaches w earlier middle) (second : Reaches middle later after) :
    Reaches w (later ++ earlier) after := by
  refine ⟨?_, Nat.le_trans first.files second.files, ?_, ?_⟩
  · rw [second.trace, first.trace, List.append_assoc]
  · intro f present
    rw [second.flags f (Nat.lt_of_lt_of_le present first.files), first.flags f present]
    by_cases closedLater : Call.closed f ∈ later
    · simp [closedLater]
    · simp [closedLater]
  · intro child given here
    exact second.programs child given (first.programs child given here)

theorem Reaches.after_quiet (first : Reaches w calls middle) (second : Reaches middle [] after) :
    Reaches w calls after :=
  first.trans second

theorem Reaches.before_quiet (first : Reaches w [] middle) (second : Reaches middle calls after) :
    Reaches w calls after := by
  simpa using first.trans second

theorem reaches_of_files (sameTrace : after.trace = w.trace) (sameFiles : after.files = w.files)
    (programs : ∀ child given, w.surroundings child = some given → after.surroundings child = some given) :
    Reaches w [] after := by
  refine ⟨by simpa using sameTrace, Nat.le_of_eq (congrArg Array.size sameFiles.symm), ?_, programs⟩
  intro f _
  simp [isClosed, file?, sameFiles]

theorem reaches_of_same (sameTrace : after.trace = w.trace) (sameFiles : after.files = w.files)
    (sameChildren : after.children = w.children) : Reaches w [] after := by
  refine reaches_of_files sameTrace sameFiles ?_
  intro child given here
  rwa [surroundings, sameChildren]

theorem note_reaches (w : World) (call : Call) (mark : ∀ f, call ≠ .closed f) :
    Reaches w [call] (w.note call) := by
  refine ⟨rfl, Nat.le_refl _, ?_, fun _ _ here => here⟩
  intro f _
  have other : Call.closed f ∉ [call] := by
    simp only [List.mem_singleton]
    exact fun same => mark f same.symm
  simp [other, isClosed, file?, note]

theorem nextFault_of_eq (asked : w.nextFault = (fault, after)) : Reaches w [] after := by
  obtain ⟨faults, rfl⟩ := nextFault_same asked
  exact reaches_of_same rfl rfl rfl

theorem nextFault_files (asked : w.nextFault = (fault, after)) : after.files = w.files := by
  obtain ⟨faults, rfl⟩ := nextFault_same asked
  rfl

theorem attach_reaches (w : World) (file : OpenFile) : Reaches w [] (w.attach file).2 := by
  refine ⟨rfl, by simp [attach], ?_, fun _ _ here => here⟩
  intro f present
  have older : f ≠ w.files.size := by omega
  simp [isClosed, file?, attach, Array.getElem?_push, older]

theorem setFile_reaches (w : World) (f : FileId) (file : OpenFile) (same : w.isClosed f = some file.closed) :
    Reaches w [] (w.setFile f file) := by
  refine ⟨rfl, by simp [setFile], ?_, fun _ _ here => here⟩
  intro g present
  by_cases here : f = g
  · subst here
    simp [setFile, isClosed, file?, present] at same ⊢
    exact same.symm
  · simp [setFile, isClosed, file?, here]

theorem halt_reaches (w : World) (cause : Stop) : Reaches w [] (w.halt cause) := by
  obtain ⟨halted, same⟩ := halt_same w cause
  rw [same]
  exact reaches_of_same rfl rfl rfl

theorem Writing.reaches (writing : Writing w f data result) : Reaches w [] result.2 := by
  cases writing with
  | unchanged => exact Reaches.refl w
  | piped _ _ _ taken => exact taken ▸ reaches_of_same rfl rfl rfl
  | stuck _ _ _ _ _ taken => exact (taken ▸ reaches_of_same rfl rfl rfl : Reaches w [] _).trans (halt_reaches _ _)
  | kept => exact reaches_of_same rfl rfl rfl
  | placed place runs found =>
    refine Reaches.before_quiet ?_ (setFile_reaches _ f _ (congrArg (Option.map OpenFile.closed) found))
    exact reaches_of_same rfl rfl rfl

theorem write_reaches (w : World) (f : FileId) (data : Bytes) : Reaches w [] (w.write f data).2 := (writing w f data).reaches

theorem emit_reaches (w : World) (f : Option FileId) (data : Bytes) : Reaches w [] (w.emit f data) := by
  unfold emit
  split
  · exact Reaches.refl w
  · split
    · split
      · exact Reaches.refl w
      · exact write_reaches w _ data
    · exact Reaches.refl w

theorem take_reaches (w : World) (f : FileId) (limit : Option Nat) : Reaches w [] (w.take f limit).2 := by
  unfold take
  dsimp only
  split
  · exact Reaches.refl w
  · rename_i file found
    split
    · exact Reaches.refl w
    · split
      · exact Reaches.refl w
      · exact reaches_of_same rfl rfl rfl
      · exact Reaches.refl w
      · split
        · exact Reaches.refl w
        · exact setFile_reaches w f _ (by simp [isClosed, found])

-- What the next program would be started with is as it was, and no event has been recorded.
structure Still (w after : World) : Prop where
  cwd : after.cwd = w.cwd
  environ : after.environ = w.environ
  events : after.events = w.events

theorem Still.refl (w : World) : Still w w := ⟨rfl, rfl, rfl⟩

theorem Still.trans (first : Still w middle) (second : Still middle after) : Still w after :=
  ⟨second.cwd.trans first.cwd, second.environ.trans first.environ, second.events.trans first.events⟩

theorem halt_still (w : World) (cause : Stop) : Still w (w.halt cause) := by
  obtain ⟨halted, same⟩ := halt_same w cause
  rw [same]
  exact ⟨rfl, rfl, rfl⟩

theorem Writing.still (writing : Writing w f data result) : Still w result.2 := by
  cases writing with
  | unchanged => exact Still.refl w
  | piped _ _ _ taken => exact taken ▸ ⟨rfl, rfl, rfl⟩
  | stuck _ _ _ _ filled taken => exact (taken ▸ ⟨rfl, rfl, rfl⟩ : Still w filled).trans (halt_still _ _)
  | kept => exact ⟨rfl, rfl, rfl⟩
  | placed => exact ⟨rfl, rfl, rfl⟩

theorem write_still (w : World) (f : FileId) (data : Bytes) : Still w (w.write f data).2 := (writing w f data).still

theorem emit_still (w : World) (f : Option FileId) (data : Bytes) : Still w (w.emit f data) := by
  unfold emit
  split
  · exact Still.refl w
  · split
    · split
      · exact Still.refl w
      · exact write_still w _ data
    · exact Still.refl w

theorem take_still (w : World) (f : FileId) (limit : Option Nat) : Still w (w.take f limit).2 := by
  unfold take
  dsimp only
  repeat' split
  all_goals exact ⟨rfl, rfl, rfl⟩

theorem nextFault_still (asked : w.nextFault = (fault, after)) : Still w after := by
  obtain ⟨faults, rfl⟩ := nextFault_same asked
  exact ⟨rfl, rfl, rfl⟩

-- A file that was open has been closed.
def shut (w : World) (f : FileId) (file : OpenFile) : World :=
  { w.note (.closed f) with files := w.files.setIfInBounds f { file with closed := true } }

theorem isClosed_shut (found : w.file? f = some file) (faults : List (Option Errno)) (g : FileId) :
    isClosed { w.shut f file with faults := faults } g = if g = f then some true else w.isClosed g := by
  have inside : f < w.files.size := (Array.getElem?_eq_some_iff.mp found).1
  by_cases same : f = g
  · subst same
    simp [shut, isClosed, file?, inside]
  · simp [shut, isClosed, file?, note, same, Ne.symm same]

-- The three ways closing a file can go: it is not there, it is closed already, or it is open and is closed, even if
-- the system complains.

theorem close_missing (unknown : w.file? f = none) : w.close f = (.error .alreadyClosed, w.note (.closed f)) := by
  unfold close
  dsimp only
  rw [show (w.note (.closed f)).file? f = none from unknown]

theorem close_again (found : w.file? f = some file) (closed : file.closed = true) :
    w.close f = (.error (.onPath (ascii "close") file.name .alreadyClosed), w.note (.closed f)) := by
  unfold close
  dsimp only
  rw [show (w.note (.closed f)).file? f = some file from found]
  exact if_pos closed

theorem close_open (found : w.file? f = some file) (fresh : file.closed = false) :
    w.close f = match (w.shut f file).nextFault with
      | (some e, after) => (.error (.onPath (ascii "close") file.name (.errno e)), after)
      | (none, after) => (.ok (), after) := by
  unfold close
  dsimp only
  rw [show (w.note (.closed f)).file? f = some file from found]
  exact if_neg (by simp [fresh])

theorem close_left (w : World) (f : FileId) :
    ((w.close f).2 = w.note (.closed f) ∧ (f < w.files.size → w.isClosed f = some true)) ∨
    ∃ file faults, w.file? f = some file ∧ (w.close f).2 = { w.shut f file with faults := faults } := by
  cases found : w.file? f with
  | none =>
    rw [close_missing found]
    exact .inl ⟨rfl, fun present => absurd present (Nat.not_lt.mpr (Array.getElem?_eq_none_iff.mp found))⟩
  | some file =>
    cases closed : file.closed with
    | true =>
      rw [close_again found closed]
      exact .inl ⟨rfl, fun _ => by simp [isClosed, found, closed]⟩
    | false =>
      rw [close_open found closed]
      refine .inr ⟨file, ?_⟩
      split
      · rename_i asked
        obtain ⟨faults, same⟩ := nextFault_same asked
        exact ⟨faults, rfl, same⟩
      · rename_i asked
        obtain ⟨faults, same⟩ := nextFault_same asked
        exact ⟨faults, rfl, same⟩

theorem close_still (w : World) (f : FileId) : Still w (w.close f).2 := by
  rcases close_left w f with ⟨left, _⟩ | ⟨file, faults, _, left⟩
  · rw [left]
    exact ⟨rfl, rfl, rfl⟩
  · rw [left]
    exact ⟨rfl, rfl, rfl⟩

-- Nothing is asked of the world or recorded, and the next program would be started with what it was.
structure Quiet (w after : World) : Prop where
  reached : Reaches w [] after
  still : Still w after
  endures : Endures w after

theorem Quiet.refl (w : World) : Quiet w w := ⟨Reaches.refl w, Still.refl w, Endures.refl w⟩

theorem Quiet.trans (first : Quiet w middle) (second : Quiet middle after) : Quiet w after :=
  ⟨first.reached.trans second.reached, first.still.trans second.still, first.endures.trans second.endures⟩

theorem attach_quiet (w : World) (plain : ∀ p, file.channel ≠ .reader p) : Quiet w (w.attach file).2 :=
  ⟨attach_reaches w file, ⟨rfl, rfl, rfl⟩, attach_endures w plain⟩

theorem piped_quiet (w : World) (reads : file.channel = .reader w.pipes.size) :
    Quiet w (attach { w with pipes := w.pipes.push [] } file).2 := by
  have pipes : Reaches w [] { w with pipes := w.pipes.push [] } := reaches_of_same rfl rfl rfl
  exact ⟨pipes.trans (attach_reaches _ file), ⟨rfl, rfl, rfl⟩, piped_endures w _ reads⟩

theorem halt_quiet (w : World) (cause : Stop) : Quiet w (w.halt cause) :=
  ⟨halt_reaches w cause, halt_still w cause, halt_endures w cause⟩

theorem kill_quiet (w : World) (signal : Nat) : Quiet w (w.kill signal) := by
  obtain ⟨halted, same⟩ := kill_same w signal
  have endures := kill_endures w signal
  rw [same] at endures ⊢
  exact ⟨reaches_of_same rfl rfl rfl, ⟨rfl, rfl, rfl⟩, endures⟩

theorem write_quiet (w : World) (f : FileId) (data : Bytes) : Quiet w (w.write f data).2 :=
  ⟨write_reaches w f data, write_still w f data, write_endures w f data⟩

theorem emit_quiet (w : World) (f : Option FileId) (data : Bytes) : Quiet w (w.emit f data) :=
  ⟨emit_reaches w f data, emit_still w f data, emit_endures w f data⟩

theorem take_quiet (w : World) (f : FileId) (limit : Option Nat) : Quiet w (w.take f limit).2 :=
  ⟨take_reaches w f limit, take_still w f limit, take_endures w f limit⟩

-- Calls that make files or close them.

theorem close_reaches (w : World) (f : FileId) : Reaches w [.closed f] (w.close f).2 := by
  rcases close_left w f with ⟨left, closed⟩ | ⟨file, faults, found, left⟩
  · rw [left]
    refine ⟨rfl, Nat.le_refl _, fun g present => ?_, fun _ _ given => given⟩
    have same : isClosed (w.note (.closed f)) g = w.isClosed g := rfl
    by_cases here : g = f
    · subst here
      simp [same, closed present]
    · simp [same, here]
  · rw [left]
    refine ⟨rfl, by simp [shut], fun g _ => ?_, fun _ _ given => given⟩
    rw [isClosed_shut found]
    simp

theorem attach_note_reaches (w : World) (file : OpenFile) (call : Call) (mark : ∀ f, call ≠ .closed f) :
    Reaches w [call] ((w.attach file).2.note call) :=
  (attach_reaches w file).before_quiet (note_reaches _ call mark)

-- The ends of a new pipe are the next two files, both open.
theorem pipe_reaches (made : w.pipe = (.ok (reader, writer), after)) :
    Reaches w [.piped reader writer] after ∧ reader = w.files.size ∧ writer = w.files.size + 1 ∧
      after.files.size = w.files.size + 2 ∧ after.isClosed reader = some false ∧ after.isClosed writer = some false := by
  unfold pipe at made
  split at made
  · cases made
  · rename_i granted asked
    have quiet := nextFault_of_eq asked
    have sameSize : granted.files.size = w.files.size := by rw [nextFault_files asked]
    cases made
    have pipes : Reaches granted [] { granted with pipes := granted.pipes.push [] } := reaches_of_same rfl rfl rfl
    refine ⟨?_, sameSize, ?_, ?_, ?_, ?_⟩
    · exact quiet.before_quiet (pipes.before_quiet ((attach_reaches _ _).before_quiet
        (attach_note_reaches _ _ _ (by simp))))
    · simp [sameSize]
    · simp [note, sameSize]
    · simp only [note, isClosed, file?, Array.getElem?_push, Array.size_push]
      simp
    · simp only [note, isClosed, file?, Array.getElem?_push, Array.size_push]
      simp

theorem pipe_refused (refused : w.pipe = (.error e, after)) : Reaches w [] after := by
  unfold pipe at refused
  split at refused
  · rename_i fault middle asked
    cases refused
    exact nextFault_of_eq asked
  · cases refused

theorem openFile_reaches (opened : w.openFile path mode = (.ok f, after)) :
    Reaches w [.opened f] after ∧ f = w.files.size ∧ after.files.size = w.files.size + 1 ∧
      after.isClosed f = some false := by
  unfold openFile at opened
  split at opened
  · cases opened
  · rename_i granted asked
    have quiet := nextFault_of_eq asked
    have sameSize : granted.files.size = w.files.size := by rw [nextFault_files asked]
    split at opened
    · cases opened
    · rename_i id tree found
      cases opened
      have changed : Reaches granted [] { granted with tree := tree } := reaches_of_same rfl rfl rfl
      refine ⟨?_, sameSize, ?_, ?_⟩
      · exact quiet.before_quiet (changed.before_quiet (attach_note_reaches _ _ _ (by simp)))
      · simp [note, sameSize]
      · simp [note, isClosed, file?]

theorem openFile_refused (refused : w.openFile path mode = (.error e, after)) : Reaches w [] after := by
  unfold openFile at refused
  split at refused
  · rename_i fault middle asked
    cases refused
    exact nextFault_of_eq asked
  · rename_i granted asked
    split at refused
    · cases refused
      exact nextFault_of_eq asked
    · cases refused

end LineShell.World
