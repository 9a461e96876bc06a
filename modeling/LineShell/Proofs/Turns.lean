import LineShell.Session.Interpreter

namespace LineShell

theorem Fault.status_of_spawn {fault : Fault} (spawned : fault.isSpawn = true) : fault.status = 1 := by
  cases fault with
  | spawn => rfl
  | parse => cases spawned
  | resource => cases spawned

namespace Session
variable {scripts : ScriptRunner}

-- The line that is interpreted: without its comment and the blanks around it.
def trimmed (line : Bytes) : Bytes := Blank.trim (Line.stripComment line)

-- The world once a failed line has been recorded and its one message written.
def reported (s : Session) (line : Bytes) (result : LineResult) (fault : Fault) (w : World) : World :=
  (s.record (lineEvent line result.command result.status (some fault)) w).emit s.messages
    (s.settings.shellName ++ ascii ": " ++ fault.message ++ [Bytes.newline])

section
variable {s next : Session} {w after : World}

theorem interpretWith_blank (absent : trimmed line = []) : interpretWith scripts line s w = ((0, none), s, w) := by
  unfold trimmed at absent
  unfold interpretWith
  dsimp only
  rw [absent]
  rfl

-- If a script that the line ran has left a failure behind, nothing is recorded.
theorem interpretWith_held (present : trimmed line ≠ []) (ran : runLine scripts (trimmed line) s w = (result, next, after))
    (passed : result.fault = none) (held : next.fatal = some fault) :
    interpretWith scripts line s w = ((1, some fault), { next with lastStatus := 1 }, after) := by
  unfold trimmed at present ran
  unfold interpretWith
  dsimp only
  rw [ran, if_neg (by simpa using present)]
  dsimp only
  rw [passed]
  dsimp only
  rw [held]

theorem interpretWith_passed (present : trimmed line ≠ []) (ran : runLine scripts (trimmed line) s w = (result, next, after))
    (passed : result.fault = none) (free : next.fatal = none) :
    interpretWith scripts line s w = ((result.status, none), { next with lastStatus := result.status },
      next.record (lineEvent (trimmed line) result.command result.status none) after) := by
  unfold trimmed at present ran
  unfold interpretWith
  dsimp only
  rw [ran, if_neg (by simpa using present)]
  dsimp only
  rw [passed]
  dsimp only
  rw [free]
  rfl

theorem interpretWith_failed (present : trimmed line ≠ []) (ran : runLine scripts (trimmed line) s w = (result, next, after))
    (failed : result.fault = some fault) :
    interpretWith scripts line s w = ((fault.status, if fault.isSpawn then some fault else none),
      { next with
        lastStatus := fault.status
        exited := fault.isSpawn || next.exited
        fatal := if fault.isSpawn then some fault else next.fatal },
      next.reported (trimmed line) result fault after) := by
  unfold trimmed at present ran
  unfold interpretWith reported trimmed
  dsimp only
  rw [ran, if_neg (by simpa using present)]
  dsimp only
  rw [failed]
  dsimp only
  cases spawned : fault.isSpawn with
  | true => simp [Fault.status_of_spawn spawned]
  | false => simp

end

-- How a line closes: there is nothing to run, a failure is held from a script inside, it has gone through, or it has failed.
inductive Closing (scripts : ScriptRunner) (line : Bytes) (s : Session) (w : World) : Prop where
  | blank (absent : trimmed line = []) (answer : interpretWith scripts line s w = ((0, none), s, w))
  | held (present : trimmed line ≠ []) (result : LineResult) (next : Session) (after : World) (fault : Fault)
    (ran : runLine scripts (trimmed line) s w = (result, next, after)) (passed : result.fault = none)
    (stored : next.fatal = some fault)
    (answer : interpretWith scripts line s w = ((1, some fault), { next with lastStatus := 1 }, after))
  | passed (present : trimmed line ≠ []) (result : LineResult) (next : Session) (after : World)
    (ran : runLine scripts (trimmed line) s w = (result, next, after)) (fine : result.fault = none) (free : next.fatal = none)
    (answer : interpretWith scripts line s w = ((result.status, none), { next with lastStatus := result.status },
      next.record (lineEvent (trimmed line) result.command result.status none) after))
  | failed (present : trimmed line ≠ []) (result : LineResult) (next : Session) (after : World) (fault : Fault)
    (ran : runLine scripts (trimmed line) s w = (result, next, after)) (fails : result.fault = some fault)
    (answer : interpretWith scripts line s w = ((fault.status, if fault.isSpawn then some fault else none),
      { next with
        lastStatus := fault.status
        exited := fault.isSpawn || next.exited
        fatal := if fault.isSpawn then some fault else next.fatal },
      next.reported (trimmed line) result fault after))

theorem closing (scripts : ScriptRunner) (line : Bytes) (s : Session) (w : World) : Closing scripts line s w := by
  by_cases absent : trimmed line = []
  · exact .blank absent (interpretWith_blank absent)
  · rcases ran : runLine scripts (trimmed line) s w with ⟨result, next, after⟩
    cases fails : result.fault with
    | some fault => exact .failed absent _ _ _ _ ran fails (interpretWith_failed absent ran fails)
    | none =>
      cases stored : next.fatal with
      | some fault => exact .held absent _ _ _ _ ran fails stored (interpretWith_held absent ran fails stored)
      | none => exact .passed absent _ _ _ ran fails stored (interpretWith_passed absent ran fails stored)

-- A line about to be interpreted.
structure Turn where
  line : Bytes
  session : Session
  world : World

-- The lines that are interpreted, of a list of lines, of a file that is read on, and of a script.

def linesTurns (scripts : ScriptRunner) : List Bytes → Session → World → List Turn
  | [], _, _ => []
  | line :: rest, s, w =>
    if lineLimit ≤ line.length then []
    else
      ⟨chomp line, s, w⟩ ::
        match interpretWith scripts (chomp line) s w with
        | ((_, some _), _, _) => []
        | ((_, none), s, w) => if s.exited then [] else linesTurns scripts rest s w

def blocksTurns (scripts : ScriptRunner) : Nat → LineReader → Session → World → List Turn
  | 0, _, _, _ => []
  | blocks + 1, r, s, w =>
    match r.next w with
    | .unreadable _ => []
    | .tooLong => []
    | .last rest => linesTurns scripts rest s w
    | .lines ready r =>
      linesTurns scripts ready s w ++
        match runLines scripts ready s w with
        | ((_, none), s, w) => if s.exited then [] else blocksTurns scripts blocks r s w
        | _ => []

def scriptTurns : Nat → Bytes → Session → World → List Turn
  | 0, _, _, _ => []
  | levels + 1, path, s, w =>
    match s.storage.openScript path w with
    | (.error _, _) => []
    | (.ok channel, w) =>
      let reader : LineReader := { channel := channel }
      blocksTurns (runScriptAt levels) (reader.blockLimit w) reader { s with depth := s.depth + 1 } w

-- A run of the lines of a list, with the lines that get interpreted and what is returned.
inductive LinesRun (scripts : ScriptRunner) :
    List Bytes → Session → World → List Turn → (Int × Option ScriptFault) × Session × World → Prop where
  | finished : LinesRun scripts [] s w [] ((s.lastStatus, none), s, w)
  | tooLong (long : lineLimit ≤ line.length) : LinesRun scripts (line :: others) s w [] ((1, some .lineTooLong), s, w)
  | fatal (short : line.length < lineLimit) (first : interpretWith scripts (chomp line) s w = ((status, some fault), next, after)) :
    LinesRun scripts (line :: others) s w [⟨chomp line, s, w⟩] ((1, some (.fatal fault)), next, after)
  | exited (short : line.length < lineLimit) (first : interpretWith scripts (chomp line) s w = ((status, none), next, after))
    (stops : next.exited = true) :
    LinesRun scripts (line :: others) s w [⟨chomp line, s, w⟩] ((next.lastStatus, none), next, after)
  | goes (short : line.length < lineLimit) (first : interpretWith scripts (chomp line) s w = ((status, none), next, middle))
    (active : next.exited = false) (later : LinesRun scripts others next middle turns result) :
    LinesRun scripts (line :: others) s w (⟨chomp line, s, w⟩ :: turns) result

theorem linesRun (scripts : ScriptRunner) (lines : List Bytes) (s : Session) (w : World) :
    LinesRun scripts lines s w (linesTurns scripts lines s w) (runLines scripts lines s w) := by
  induction lines generalizing s w with
  | nil => exact .finished
  | cons line others ih =>
    unfold linesTurns runLines
    by_cases long : lineLimit ≤ line.length
    · rw [if_pos long, if_pos long]
      exact .tooLong long
    · rw [if_neg long, if_neg long]
      have short := Nat.lt_of_not_le long
      rcases first : interpretWith scripts (chomp line) s w with ⟨⟨status, fault⟩, next, middle⟩
      cases fault with
      | some fault => exact .fatal short first
      | none =>
        dsimp only
        by_cases stops : next.exited = true
        · rw [if_pos stops, if_pos stops]
          exact .exited short first stops
        · rw [if_neg stops, if_neg stops]
          exact .goes short first (by simpa using stops) (ih next middle)

-- The status is the last one there was, or one if something went wrong.
theorem LinesRun.status (run : LinesRun scripts lines s w turns result) :
    result.1.1 = if result.1.2.isSome then 1 else result.2.1.lastStatus := by
  induction run with
  | finished => rfl
  | tooLong => rfl
  | fatal => rfl
  | exited => rfl
  | goes _ _ _ _ ih => exact ih

-- The same of the lines of a file, which come in blocks.
inductive BlocksRun (scripts : ScriptRunner) (path : Bytes) :
    Nat → LineReader → Session → World → List Turn → (Int × Option ScriptFault) × Session × World → Prop where
  | spent : BlocksRun scripts path 0 r s w [] ((s.lastStatus, none), s, w)
  | unreadable (read : r.next w = .unreadable e) :
    BlocksRun scripts path (blocks + 1) r s w [] ((1, some (.unreadable (.onPath (ascii "read") path (.errno e)))), s, w)
  | tooLong (read : r.next w = .tooLong) : BlocksRun scripts path (blocks + 1) r s w [] ((1, some .lineTooLong), s, w)
  | last (read : r.next w = .last rest) (run : LinesRun scripts rest s w turns result) :
    BlocksRun scripts path (blocks + 1) r s w turns result
  | failed (read : r.next w = .lines ready following)
    (run : LinesRun scripts ready s w turns ((status, some fault), next, after)) :
    BlocksRun scripts path (blocks + 1) r s w turns ((status, some fault), next, after)
  | exited (read : r.next w = .lines ready following) (run : LinesRun scripts ready s w turns ((status, none), next, after))
    (stops : next.exited = true) : BlocksRun scripts path (blocks + 1) r s w turns ((status, none), next, after)
  | goes (read : r.next w = .lines ready following) (run : LinesRun scripts ready s w front ((status, none), next, middle))
    (active : next.exited = false) (later : BlocksRun scripts path blocks following next middle turns result) :
    BlocksRun scripts path (blocks + 1) r s w (front ++ turns) result

theorem blocksRun (scripts : ScriptRunner) (path : Bytes) (blocks : Nat) (r : LineReader) (s : Session) (w : World) :
    BlocksRun scripts path blocks r s w (blocksTurns scripts blocks r s w) (runBlocks scripts path blocks r s w) := by
  induction blocks generalizing r s w with
  | zero => exact .spent
  | succ blocks ih =>
    unfold blocksTurns runBlocks
    rcases read : r.next w with ⟨ready, following⟩ | rest | _ | e
    · dsimp only
      have front := linesRun scripts ready s w
      rcases ran : runLines scripts ready s w with ⟨⟨status, fault⟩, next, middle⟩
      rw [ran] at front
      cases fault with
      | some fault =>
        dsimp only
        rw [List.append_nil]
        exact .failed read front
      | none =>
        dsimp only
        by_cases stops : next.exited = true
        · rw [if_pos stops, if_pos stops, List.append_nil]
          exact .exited read front stops
        · rw [if_neg stops, if_neg stops]
          exact .goes read front (by simpa using stops) (ih following next middle)
    · exact .last read (linesRun scripts rest s w)
    · exact .tooLong read
    · exact .unreadable read

theorem BlocksRun.status (run : BlocksRun scripts path blocks r s w turns result) :
    result.1.1 = if result.1.2.isSome then 1 else result.2.1.lastStatus := by
  induction run with
  | spent => rfl
  | unreadable => rfl
  | tooLong => rfl
  | last _ run => exact run.status
  | failed _ run => exact run.status
  | exited _ run _ => exact run.status
  | goes _ _ _ _ ih => exact ih

-- And of a script, which is opened first and runs one level deeper.
inductive ScriptRun : Nat → Bytes → Session → World → List Turn → (Int × Option ScriptFault) × Session × World → Prop where
  | tooDeep : ScriptRun 0 path s w [] ((1, some .tooDeep), s, w)
  | unopened (opens : s.storage.openScript path w = (.error cause, after)) :
    ScriptRun (deeper + 1) path s w [] ((1, some (.unreadable cause)), s, after)
  | opened (ran : (Int × Option ScriptFault) × Session × World) (opens : s.storage.openScript path w = (.ok channel, middle))
    (run : BlocksRun (runScriptAt deeper) path blocks { channel := channel } { s with depth := s.depth + 1 } middle turns ran) :
    ScriptRun (deeper + 1) path s w turns (ran.1, { ran.2.1 with depth := ran.2.1.depth - 1 }, ran.2.2)

theorem scriptRun (levels : Nat) (path : Bytes) (s : Session) (w : World) :
    ScriptRun levels path s w (scriptTurns levels path s w) (runScriptAt levels path s w) := by
  cases levels with
  | zero => exact .tooDeep
  | succ deeper =>
    unfold scriptTurns runScriptAt
    dsimp only
    rcases opens : s.storage.openScript path w with ⟨outcome, middle⟩
    cases outcome with
    | error cause => exact .unopened opens
    | ok channel =>
      have run := blocksRun (runScriptAt deeper) path (LineReader.blockLimit { channel := channel } middle)
        { channel := channel } { s with depth := s.depth + 1 } middle
      -- The run of the blocks gets a name before it is taken apart: its fuel is too large to compute with.
      rcases ran : runBlocks (runScriptAt deeper) path (LineReader.blockLimit { channel := channel } middle)
        { channel := channel } { s with depth := s.depth + 1 } middle with ⟨result, after, left⟩
      rw [ran] at run
      simpa only [runOpened, ran] using ScriptRun.opened _ opens run

theorem ScriptRun.status (run : ScriptRun deeper path s w turns result) :
    result.1.1 = if result.1.2.isSome then 1 else result.2.1.lastStatus := by
  cases run with
  | tooDeep => rfl
  | unopened => rfl
  | opened _ _ run => exact run.status

end Session
end LineShell
