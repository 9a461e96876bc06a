import LineShell.Proofs.Blocks
import LineShell.Proofs.Draining

-- What it means for a script to be run to its end is stated without a bound on how often its file is read and without
-- one on how deep scripts are nested, other than the check the session makes.
namespace LineShell
open World

namespace Session

-- Two ways of running scripts that give the same wherever both are asked.
def SameOn (scripts other : ScriptRunner) (mine yours : List Sourcing) : Prop :=
  ∀ call ∈ mine, call ∈ yours → scripts call.path call.given call.world = other call.path call.given call.world

end Session

namespace Engine
open Session
variable {e : Engine} {scripts other : ScriptRunner}

def sourcings (e : Engine) (scripts : ScriptRunner) (i : Nat) (entries : List (Stage × Progress)) (s : Session) (w : World) :
    List Sourcing :=
  (e.visits (runner scripts) i entries s w).filterMap (Visit.sourcing? e)

theorem enter_same (same : ∀ call, Visit.sourcing? e ⟨stage, s, w⟩ = some call →
    scripts call.path call.given call.world = other call.path call.given call.world) :
    e.enter (runner scripts) stage s w = e.enter (runner other) stage s w := by
  cases found : Visit.sourcing? e ⟨stage, s, w⟩ with
  | none => exact enter_plain found scripts other
  | some call =>
    have mine := enter_sourcing found scripts
    rw [same call found] at mine
    exact mine.trans (enter_sourcing found other).symm

-- The two runs of the stages go in step: they ask the same, so they are given the same.
theorem enterAll_same (i : Nat) (entries : List (Stage × Progress)) (s : Session) (w : World)
    (same : SameOn scripts other (e.sourcings scripts i entries s w) (e.sourcings other i entries s w)) :
    e.enterAll (runner scripts) i entries s w = e.enterAll (runner other) i entries s w ∧
      e.visits (runner scripts) i entries s w = e.visits (runner other) i entries s w := by
  induction entries generalizing i s w with
  | nil => exact ⟨rfl, rfl⟩
  | cons entry others ih =>
    obtain ⟨stage, progress⟩ := entry
    by_cases inside : stage.Inside
    · have entered : e.enter (runner scripts) stage s (w.note (.entered i)) =
          e.enter (runner other) stage s (w.note (.entered i)) := by
        refine enter_same fun call found => same call ?_ ?_
        · refine List.mem_filterMap.mpr ⟨⟨stage, s, w.note (.entered i)⟩, ?_, found⟩
          rw [visits_running others inside rfl]
          exact List.mem_cons_self
        · refine List.mem_filterMap.mpr ⟨⟨stage, s, w.note (.entered i)⟩, ?_, found⟩
          rw [visits_running others inside rfl]
          exact List.mem_cons_self
      rcases ran : e.enter (runner other) stage s (w.note (.entered i)) with ⟨status, next, middle⟩
      have mine := entered.trans ran
      have later : SameOn scripts other (e.sourcings scripts (i + 1) others next (stage.stdio.release middle).2.2)
          (e.sourcings other (i + 1) others next (stage.stdio.release middle).2.2) := by
        intro call first second
        obtain ⟨visit, here, found⟩ := List.mem_filterMap.mp first
        obtain ⟨twin, there, foundTwin⟩ := List.mem_filterMap.mp second
        refine same call (List.mem_filterMap.mpr ⟨visit, ?_, found⟩) (List.mem_filterMap.mpr ⟨twin, ?_, foundTwin⟩)
        · rw [visits_running others inside mine]
          exact List.mem_cons_of_mem _ here
        · rw [visits_running others inside ran]
          exact List.mem_cons_of_mem _ there
      obtain ⟨all, visits⟩ := ih _ _ _ later
      rcases left : e.enterAll (runner other) (i + 1) others next (stage.stdio.release middle).2.2 with ⟨stages, last, after⟩
      rw [left] at all
      rw [enterAll_running others inside mine all, enterAll_running others inside ran left,
        visits_running others inside mine, visits_running others inside ran, visits]
      exact ⟨rfl, rfl⟩
    · have later : SameOn scripts other (e.sourcings scripts (i + 1) others s w) (e.sourcings other (i + 1) others s w) := by
        unfold sourcings at same ⊢
        rwa [visits_passing others inside, visits_passing others inside] at same
      obtain ⟨all, visits⟩ := ih _ _ _ later
      rcases left : e.enterAll (runner other) (i + 1) others s w with ⟨stages, last, after⟩
      rw [left] at all
      rw [enterAll_passing others inside all, enterAll_passing others inside left, visits_passing others inside,
        visits_passing others inside]
      exact ⟨rfl, visits⟩

end Engine

namespace Session
variable {scripts other : ScriptRunner}

theorem runLine_same (line : Bytes) (s : Session) (w : World)
    (same : SameOn scripts other (lineCalls scripts line s w) (lineCalls other line s w)) :
    runLine scripts (trimmed line) s w = runLine other (trimmed line) s w ∧
      lineVisits scripts line s w = lineVisits other line s w := by
  unfold lineCalls at same
  cases line_course (trimmed line) s w with
  | refused compiled =>
    rw [runLine_refused compiled, runLine_refused compiled, lineVisits_refused compiled, lineVisits_refused compiled]
    exact ⟨rfl, rfl⟩
  | stopped compiled launched =>
    rw [runLine_stopped compiled launched, runLine_stopped compiled launched, lineVisits_stopped compiled launched,
      lineVisits_stopped compiled launched]
    exact ⟨rfl, rfl⟩
  | launched compiled launched =>
    rw [lineVisits_launched compiled launched, lineVisits_launched compiled launched] at same
    obtain ⟨all, visits⟩ := Engine.enterAll_same 0 _ s _ same
    rw [runLine_launched compiled launched all, runLine_launched compiled launched rfl,
      lineVisits_launched compiled launched, lineVisits_launched compiled launched]
    exact ⟨rfl, visits⟩

theorem interpretWith_same (turn : Turn) (same : SameOn scripts other (turn.callsBy scripts) (turn.callsBy other)) :
    interpretWith scripts turn.line turn.session turn.world = interpretWith other turn.line turn.session turn.world := by
  have ran := (runLine_same turn.line turn.session turn.world same).1
  unfold trimmed at ran
  unfold interpretWith
  dsimp only
  rw [ran]

theorem runLines_same (lines : List Bytes) (s : Session) (w : World)
    (same : ∀ turn ∈ linesTurns scripts lines s w, turn ∈ linesTurns other lines s w →
      SameOn scripts other (turn.callsBy scripts) (turn.callsBy other)) :
    runLines scripts lines s w = runLines other lines s w ∧ linesTurns scripts lines s w = linesTurns other lines s w := by
  induction lines generalizing s w with
  | nil => exact ⟨rfl, rfl⟩
  | cons line others ih =>
    unfold linesTurns at same
    unfold runLines linesTurns
    by_cases long : lineLimit ≤ line.length
    · rw [if_pos long, if_pos long, if_pos long, if_pos long]
      exact ⟨rfl, rfl⟩
    · rw [if_neg long, if_neg long] at same
      rw [if_neg long, if_neg long, if_neg long, if_neg long]
      have first : interpretWith scripts (chomp line) s w = interpretWith other (chomp line) s w :=
        interpretWith_same ⟨chomp line, s, w⟩ (same _ List.mem_cons_self List.mem_cons_self)
      rw [first] at same ⊢
      rcases ran : interpretWith other (chomp line) s w with ⟨⟨status, fault⟩, next, middle⟩
      rw [ran] at same
      cases fault with
      | some fault => exact ⟨rfl, rfl⟩
      | none =>
        dsimp only at same ⊢
        by_cases stops : next.exited = true
        · rw [if_pos stops, if_pos stops, if_pos stops, if_pos stops]
          exact ⟨rfl, rfl⟩
        · rw [if_neg stops, if_neg stops] at same
          rw [if_neg stops, if_neg stops, if_neg stops, if_neg stops]
          obtain ⟨whole, turns⟩ := ih next middle fun turn mine yours =>
            same turn (List.mem_cons_of_mem _ mine) (List.mem_cons_of_mem _ yours)
          exact ⟨whole, by rw [turns]⟩

-- One block of a file: the lines that are interpreted of it, what they have come to, and the reader if there is
-- more to read.
def readOnce (scripts : ScriptRunner) (path : Bytes) (r : LineReader) (s : Session) (w : World) :
    List Turn × ((Int × Option ScriptFault) × Session × World) × Option LineReader :=
  match r.next w with
  | .unreadable e => ([], ((1, some (.unreadable (.onPath (ascii "read") path (.errno e)))), s, w), none)
  | .tooLong => ([], ((1, some .lineTooLong), s, w), none)
  | .last rest => (linesTurns scripts rest s w, runLines scripts rest s w, none)
  | .lines ready following =>
    let ran := runLines scripts ready s w
    (linesTurns scripts ready s w, ran, if ran.1.2.isNone && !ran.2.1.exited then some following else none)

-- A file is read out: block by block, as many as it takes.
inductive ReadsOut (scripts : ScriptRunner) (path : Bytes) :
    LineReader → Session → World → List Turn → (Int × Option ScriptFault) × Session × World → Prop where
  | stops (block : readOnce scripts path r s w = (turns, result, none)) : ReadsOut scripts path r s w turns result
  | goes (block : readOnce scripts path r s w = (turns, (status, next, middle), some following))
      (later : ReadsOut scripts path following next middle others result) :
      ReadsOut scripts path r s w (turns ++ others) result

-- A script is run to its end: it is not entered, or its file is read out and so is every script it runs.
inductive Completes : Bytes → Session → World → (Int × Option ScriptFault) × Session × World → Prop where
  | tooDeep (deep : maxDepth ≤ s.depth) : Completes path s w ((1, some .tooDeep), s, w)
  | unreadable (shallow : s.depth < maxDepth) (refused : s.storage.openScript path w = (.error cause, after)) :
      Completes path s w ((1, some (.unreadable cause)), s, after)
  | opened (shallow : s.depth < maxDepth) (opens : s.storage.openScript path w = (.ok channel, middle))
      (scripts : ScriptRunner)
      (read : ReadsOut scripts path { channel := channel } { s with depth := s.depth + 1 } middle turns result)
      (answered : ∀ turn ∈ turns, ∀ call ∈ turn.callsBy scripts,
        Completes call.path call.given call.world (scripts call.path call.given call.world)) :
      Completes path s w (result.1, { result.2.1 with depth := result.2.1.depth - 1 }, result.2.2)

theorem readOnce_same (block : readOnce scripts path r s w = (turns, result, more))
    (again : readOnce other path r s w = (others, twin, further))
    (same : ∀ turn ∈ turns, turn ∈ others → SameOn scripts other (turn.callsBy scripts) (turn.callsBy other)) :
    turns = others ∧ result = twin ∧ more = further := by
  have equal : readOnce scripts path r s w = readOnce other path r s w := by
    unfold readOnce at block again ⊢
    rcases read : r.next w with ⟨ready, following⟩ | rest | _ | e
    · rw [read] at block again
      cases block
      cases again
      obtain ⟨whole, turns⟩ := runLines_same ready s w same
      dsimp only
      rw [whole, turns]
    · rw [read] at block again
      cases block
      cases again
      obtain ⟨whole, turns⟩ := runLines_same rest s w same
      dsimp only
      rw [whole, turns]
    · rfl
    · rfl
  rw [block, again] at equal
  cases equal
  exact ⟨rfl, rfl, rfl⟩

theorem ReadsOut.same (first : ReadsOut scripts path r s w turns result) (second : ReadsOut other path r s w others twin)
    (same : ∀ turn ∈ turns, turn ∈ others → SameOn scripts other (turn.callsBy scripts) (turn.callsBy other)) :
    result = twin := by
  induction first generalizing others with
  | stops block =>
    cases second with
    | stops again => exact (readOnce_same block again same).2.1
    | goes again later =>
      obtain ⟨_, _, wrong⟩ := readOnce_same block again fun turn mine yours => same turn mine (List.mem_append_left _ yours)
      cases wrong
  | goes block later ih =>
    cases second with
    | stops again =>
      obtain ⟨_, _, wrong⟩ := readOnce_same block again fun turn mine yours => same turn (List.mem_append_left _ mine) yours
      cases wrong
    | goes again laterAgain =>
      obtain ⟨rfl, left, further⟩ := readOnce_same block again fun turn mine yours =>
        same turn (List.mem_append_left _ mine) (List.mem_append_left _ yours)
      cases left
      cases further
      exact ih laterAgain fun turn mine yours => same turn (List.mem_append_right _ mine) (List.mem_append_right _ yours)

theorem Completes.unique (first : Completes path s w result) (second : Completes path s w twin) : result = twin := by
  induction first generalizing twin with
  | tooDeep deep =>
    cases second with
    | tooDeep => rfl
    | unreadable shallow => exact absurd deep (Nat.not_le_of_lt shallow)
    | opened shallow => exact absurd deep (Nat.not_le_of_lt shallow)
  | unreadable shallow refused =>
    cases second with
    | tooDeep deep => exact absurd deep (Nat.not_le_of_lt shallow)
    | unreadable _ again =>
      rw [refused] at again
      cases again
      rfl
    | opened _ opens =>
      rw [refused] at opens
      cases opens
  | opened shallow opens scripts read answered ih =>
    cases second with
    | tooDeep deep => exact absurd deep (Nat.not_le_of_lt shallow)
    | unreadable _ refused =>
      rw [opens] at refused
      cases refused
    | opened _ again other readAgain answeredAgain =>
      rw [opens] at again
      cases again
      have equal := read.same readAgain fun turn mine yours call asked askedAgain =>
        ih turn mine call asked (answeredAgain turn yours call askedAgain)
      rw [equal]

-- What the interpreter returns is such an end. A file has no more blocks of lines than bytes, and however its own lines
-- add to it, it cannot grow for ever.

theorem runBlocks_stops (blocks : Nat) (block : readOnce scripts path r s w = (turns, result, none)) :
    blocksTurns scripts (blocks + 1) r s w = turns ∧ runBlocks scripts path (blocks + 1) r s w = result := by
  unfold readOnce at block
  unfold blocksTurns runBlocks
  rcases read : r.next w with ⟨ready, following⟩ | rest | _ | e
  · rw [read] at block
    rcases ran : runLines scripts ready s w with ⟨⟨status, fault⟩, next, middle⟩
    dsimp only at block ⊢
    rw [ran] at block ⊢
    cases fault with
    | some fault =>
      cases block
      exact ⟨List.append_nil _, rfl⟩
    | none =>
      cases stops : next.exited with
      | false => simp [stops] at block
      | true =>
        rw [stops] at block
        cases block
        simp [stops]
  · rw [read] at block
    cases block
    exact ⟨rfl, rfl⟩
  · rw [read] at block
    cases block
    exact ⟨rfl, rfl⟩
  · rw [read] at block
    cases block
    exact ⟨rfl, rfl⟩

theorem readOnce_goes (block : readOnce scripts path r s w = (turns, (status, next, middle), some following)) :
    ∃ ready, r.next w = .lines ready following ∧ turns = linesTurns scripts ready s w ∧
      runLines scripts ready s w = (status, next, middle) ∧ status.2 = none ∧ next.exited = false := by
  unfold readOnce at block
  rcases read : r.next w with ⟨ready, further⟩ | rest | _ | e
  · rw [read] at block
    rcases ran : runLines scripts ready s w with ⟨returned, session, left⟩
    dsimp only at block
    rw [ran] at block
    by_cases goes : (returned.2.isNone && !session.exited) = true
    · rw [if_pos goes] at block
      cases block
      exact ⟨ready, rfl, rfl, ran, by simpa using goes⟩
    · rw [if_neg goes] at block
      cases block
  · rw [read] at block
    cases congrArg (·.2.2) block
  · rw [read] at block
    cases block
  · rw [read] at block
    cases block

theorem runBlocks_goes (blocks : Nat)
    (block : readOnce scripts path r s w = (turns, (status, next, middle), some following)) :
    blocksTurns scripts (blocks + 1) r s w = turns ++ blocksTurns scripts blocks following next middle ∧
      runBlocks scripts path (blocks + 1) r s w = runBlocks scripts path blocks following next middle := by
  obtain ⟨ready, read, rfl, ran, fine, goes⟩ := readOnce_goes block
  obtain ⟨value, fault⟩ := status
  cases fine
  rw [blocksTurns, runBlocks, read]
  dsimp only
  rw [ran]
  dsimp only
  rw [goes]
  exact ⟨rfl, rfl⟩

-- What is read lies between the place the reader has come to and the most the file can hold.
theorem runBlocks_reads (follow : ScriptsFollow scripts) (lasting : ∀ path s w, Endures w (scripts path s w).2.2) (path : Bytes)
    (blocks : Nat) (r : LineReader) (s : Session) (w : World) (clean : Bytes.newline ∉ r.held)
    (within : w.extent r.channel ≤ most) (limit : World.fileLimit ≤ most) (placed : r.offset ≤ most)
    (enough : most < r.offset + blocks) :
    ReadsOut scripts path r s w (blocksTurns scripts blocks r s w) (runBlocks scripts path blocks r s w) := by
  induction blocks generalizing r s w with
  | zero => omega
  | succ blocks ih =>
    rcases block : readOnce scripts path r s w with ⟨turns, ⟨status, next, middle⟩, more⟩
    cases more with
    | none =>
      obtain ⟨listed, whole⟩ := runBlocks_stops blocks block
      rw [listed, whole]
      exact .stops block
    | some following =>
      obtain ⟨listed, whole⟩ := runBlocks_goes blocks block
      obtain ⟨ready, read, rfl, ran, _, _⟩ := readOnce_goes block
      obtain ⟨channel, cleanNext, later, bounded⟩ := LineReader.next_moves clean read
      have endures := runLines_endures follow lasting ready s w
      rw [ran] at endures
      have grown : middle.extent r.channel ≤ max (w.extent r.channel) World.fileLimit := endures.extents r.channel
      unfold LineReader.extent at bounded
      rw [listed, whole]
      refine .goes block (ih following next middle cleanNext ?_ (by omega) (by omega))
      rw [channel]
      omega

-- The fuel that an opened file is read with is enough for it.
theorem runOpened_reads (deeper : Nat) (path : Bytes) (channel : Channel) (s : Session) (w : World) :
    ReadsOut (runScriptAt deeper) path { channel := channel } s w
      (blocksTurns (runScriptAt deeper) (LineReader.blockLimit { channel := channel } w) { channel := channel } s w)
      (runBlocks (runScriptAt deeper) path (LineReader.blockLimit { channel := channel } w) { channel := channel } s w) := by
  have enough : max (w.extent channel) World.fileLimit < 0 + LineReader.blockLimit { channel := channel } w := by
    rw [Nat.zero_add]
    exact Nat.lt_succ_self _
  exact runBlocks_reads (runScriptAt_follows deeper) (runScriptAt_endures deeper) path _ _ s w List.not_mem_nil
    (Nat.le_max_left _ _) (Nat.le_max_right _ _) (Nat.zero_le _) enough

variable {outer turn : Turn} {call : Sourcing}

-- The depth in the course of a line. A script that would be one too deep is not opened: the world is not asked
-- for anything but the message.
structure Bounded (turn : Turn) : Prop where
  depth : turn.session.depth ≤ maxDepth
  entered : ∀ visit ∈ turn.visits, visit.state.depth ≤ maxDepth
  returned : turn.result.2.1.depth ≤ maxDepth
  deepest : ∀ call ∈ turn.calls, call.session.depth = maxDepth → call.lines = [] ∧
    call.result = ((1, some .tooDeep), call.given, call.world) ∧
    turn.session.engine.enter (runner (runScriptAt turn.session.levels)) call.stage call.session call.world =
      (1, { call.session with engineStd := call.session.std },
        call.world.emit call.files.error (ascii ".: maximum source depth exceeded\n"))

-- Two scripts with more for the pipe between them than it takes. They stay as they are, no program is run, and yet the
-- line does not come back.
def joined : Turn :=
  ⟨ascii ". a | . b", { sourcing with env := Variables.empty.set (ascii "x") (List.replicate pipeCapacity 0x61) },
    scripted [("a", "mexport"), ("b", "mpwd")]⟩

example : (interpret (ascii ". a") sourcing (scripted [("a", ". a")])).1 = (1, none) := by decide +kernel

end Session
end LineShell
