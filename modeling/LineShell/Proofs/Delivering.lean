import LineShell.Proofs.Sequencing
import LineShell.Proofs.Termination

namespace LineShell

namespace LineReader
open Bytes Session

-- A file reads as a text.
def ReadsAs (w : World) (channel : Channel) (text : Bytes) : Prop :=
  ∀ place count, w.bytesAt channel place count = .ok ((text.drop place).take count)

-- What is held has its place in the buffer.
def Fits (r : LineReader) : Prop := r.start + r.held.length ≤ r.size

-- What reading on in a text comes to.
inductive Reads (text : Bytes) (r : LineReader) : LineBlock → Prop where
  | lines {following : LineReader} (later : r.offset ≤ following.offset)
      (cuts : splitOn newline (r.held ++ (text.drop r.offset).take (following.offset - r.offset)) = ready ++ [following.held])
      (present : ready ≠ []) (fits : Fits following) : Reads text r (.lines ready following)
  | last (plain : newline ∉ r.held ++ text.drop r.offset) : Reads text r (.last (scriptLines (r.held ++ text.drop r.offset)))
  | tooLong (ahead : r.held ++ text.drop r.offset = front ++ back) (plain : newline ∉ front)
      (long : sizeLimit ≤ front.length) : Reads text r .tooLong

variable {r next : LineReader} {w : World} {text : Bytes}

theorem makeRoom_fits (fits : Fits r) (room : r.makeRoom? = some next) : next.start + next.held.length < next.size := by
  unfold Fits at fits
  unfold makeRoom? at room
  dsimp only at room
  generalize moved : (if r.start + r.held.length = r.size ∨ r.size / 2 < r.start then { r with start := 0 } else r) = q at room
  have same : q.held = r.held ∧ q.size = r.size := by
    rw [← moved]
    split <;> exact ⟨rfl, rfl⟩
  split at room
  · rename_i here
    cases room
    exact here
  · split at room
    · cases room
    · rename_i small
      cases room
      have first : firstSize = 4096 := rfl
      have limit : sizeLimit = 65536 := rfl
      rw [same.2] at small
      simp only [same.1, same.2]
      omega

theorem makeRoom_full (fits : Fits r) (full : r.makeRoom? = none) : sizeLimit ≤ r.held.length := by
  unfold Fits at fits
  unfold makeRoom? at full
  dsimp only at full
  split at full
  · dsimp only at full
    split at full
    · cases full
    · split at full
      · omega
      · cases full
  · rename_i crowded
    rw [if_pos (by omega)] at full
    cases full

theorem absorb_cuts (absorbed : r.absorb block = (ready, next)) :
    splitOn newline (r.held ++ block) = ready ++ [next.held] ∧
      next.start + next.held.length = r.start + r.held.length + block.length ∧ next.size = r.size := by
  have some := splitOn_present newline (r.held ++ block)
  have last : (splitOn newline (r.held ++ block)).getLast?.getD [] = (splitOn newline (r.held ++ block)).getLast some := by
    rw [List.getLast?_eq_some_getLast some]
    rfl
  have shorter := splitOn_shorter (r.held ++ block) (List.getLast_mem some)
  rw [List.length_append] at shorter
  unfold absorb at absorbed
  dsimp only at absorbed
  rw [last] at absorbed
  cases absorbed
  refine ⟨(List.dropLast_concat_getLast some).symm, ?_, rfl⟩
  dsimp only
  rw [List.length_append]
  omega

-- A block in which no line has ended is read together with what comes behind it.
theorem Reads.behind (offset : next.offset = r.offset + count)
    (held : next.held = r.held ++ (text.drop r.offset).take count) (reads : Reads text next outcome) : Reads text r outcome := by
  have ahead : next.held ++ text.drop next.offset = r.held ++ text.drop r.offset := by
    rw [held, offset, List.append_assoc, ← List.drop_drop, List.take_append_drop]
  cases reads with
  | lines later cuts present fits =>
    refine .lines (by omega) ?_ present fits
    rename_i ready following
    have together : following.offset - r.offset = count + (following.offset - next.offset) := by omega
    rw [together, List.take_add, List.drop_drop, ← offset, ← List.append_assoc, ← held]
    exact cuts
  | last plain =>
    rw [ahead] at plain ⊢
    exact .last plain
  | tooLong split plain long => exact .tooLong (ahead.symm.trans split) plain long

-- Nothing is left to be read.
theorem Reads.ended (ended : text.drop r.offset = []) (plain : newline ∉ r.held) :
    Reads text r (.last (if r.held.isEmpty then [] else [r.held])) := by
  have whole : r.held ++ text.drop r.offset = r.held := by rw [ended, List.append_nil]
  have last : scriptLines (r.held ++ text.drop r.offset) = if r.held.isEmpty then [] else [r.held] := by
    rw [whole, scriptLines_plain plain]
    cases r.held <;> rfl
  rw [← last]
  refine .last ?_
  rwa [whole]

-- A block in which lines have ended.
theorem Reads.absorbed (absorbed : r.absorb block = (ready, next)) (present : ready ≠ []) (fits : Fits next)
    (piece : (text.drop r.offset).take block.length = block) : Reads text r (.lines ready next) := by
  obtain ⟨-, further, -⟩ := absorb_moves absorbed
  obtain ⟨cuts, -⟩ := absorb_cuts absorbed
  refine .lines (by omega) ?_ present fits
  rw [further, Nat.add_sub_cancel_left, piece]
  exact cuts

theorem readBlocks_text (blocks : Nat) (reads : ReadsAs w r.channel text) (plain : newline ∉ r.held) (fits : Fits r)
    (enough : sizeLimit < blocks + r.held.length) : Reads text r (readBlocks blocks r w) := by
  induction blocks generalizing r with
  | zero => exact .tooLong rfl plain (by omega)
  | succ blocks ih =>
    unfold readBlocks
    cases roomy : r.makeRoom? with
    | none => exact .tooLong rfl plain (makeRoom_full fits roomy)
    | some q =>
      obtain ⟨channel, offset, held⟩ := makeRoom_keeps roomy
      have space := makeRoom_fits fits roomy
      -- Making room moves nothing in the text.
      refine Reads.behind (show q.offset = r.offset + 0 from offset) (by simpa using held) ?_
      rw [← channel] at reads
      rw [← held] at plain enough
      dsimp only
      rw [reads]
      generalize room : q.size - (q.start + q.held.length) = count
      cases taken : (text.drop q.offset).take count with
      | nil => exact .ended ((List.take_eq_nil_iff.mp taken).resolve_left (by omega)) plain
      | cons c block =>
        have short : (c :: block).length ≤ count := by
          rw [← taken]
          exact List.length_take_le _ _
        have piece : (text.drop q.offset).take (c :: block).length = c :: block := by
          rw [← taken, List.length_take, ← List.take_take, List.take_length]
        dsimp only
        rcases absorbed : q.absorb (c :: block) with ⟨ready, following⟩
        obtain ⟨sameChannel, further, free⟩ := absorb_moves absorbed
        obtain ⟨cuts, place, size⟩ := absorb_cuts absorbed
        have fitting : Fits following := by
          unfold Fits
          omega
        cases ready with
        | nil =>
          have whole : following.held = q.held ++ (c :: block) := (splitOn_single cuts).symm
          refine Reads.behind further (by rw [whole, piece]) (ih (by rwa [sameChannel]) free fitting ?_)
          rw [whole, List.length_append, List.length_cons]
          omega
        | cons line others => exact .absorbed absorbed (List.cons_ne_nil _ _) fitting piece

theorem next_text (reads : ReadsAs w r.channel text) (plain : newline ∉ r.held) (fits : Fits r) : Reads text r (r.next w) :=
  readBlocks_text _ reads plain fits (by omega)

end LineReader
namespace Session
open Bytes
open LineReader (ReadsAs Fits Reads next_text next_moves)

-- The text a script is read as: what each block takes in, as the file reads then, and what it reads as behind the last one.
inductive Delivers (scripts : ScriptRunner) (path : Bytes) : LineReader → Session → World → Bytes → Prop where
  | stops (block : readOnce scripts path r s w = (turns, result, none)) (reads : ReadsAs w r.channel text) :
      Delivers scripts path r s w (text.drop r.offset)
  | goes (block : readOnce scripts path r s w = (turns, (status, next, middle), some following))
      (reads : ReadsAs w r.channel text) (later : Delivers scripts path following next middle more) :
      Delivers scripts path r s w ((text.drop r.offset).take (following.offset - r.offset) ++ more)

variable {r following : LineReader} {s next : Session} {w middle : World} {scripts : ScriptRunner} {path text : Bytes}

theorem scriptLines_taken (cuts : splitOn newline front = ready ++ [last]) (rest : Bytes) :
    scriptLines (front ++ rest) = ready ++ scriptLines (last ++ rest) :=
  scriptLines_behind (splitOn_last cuts rest)

-- A line that does not fit is the first one, however it goes on.
theorem scriptLines_long (plain : newline ∉ front) (long : lineLimit ≤ front.length) (rest : Bytes) :
    ∃ line more, scriptLines (front ++ rest) = line :: more ∧ lineLimit ≤ line.length := by
  have some : front ≠ [] := by
    rintro rfl
    exact absurd long (by decide)
  by_cases ended : newline ∈ rest
  · obtain ⟨line, more, rfl, free⟩ := List.eq_append_cons_of_mem ended
    have whole : newline ∉ front ++ line := by simp [plain, free]
    refine ⟨front ++ line, scriptLines more, ?_, ?_⟩
    · rw [← List.append_assoc, scriptLines_append, splitOn_plain whole, List.singleton_append]
    · rw [List.length_append]
      omega
  · have whole : newline ∉ front ++ rest := by simp [plain, ended]
    refine ⟨front ++ rest, [], ?_, ?_⟩
    · rw [scriptLines_plain whole, if_neg (by simp [some])]
    · rw [List.length_append]
      omega

theorem andThen_stopped {ran : (Int × Option ScriptFault) × Session × World} (stops : ¬(ran.1.2.isNone && !ran.2.1.exited) = true)
    (more : Session → World → (Int × Option ScriptFault) × Session × World) : andThen ran more = ran := by
  obtain ⟨⟨status, fault⟩, s, w⟩ := ran
  cases fault with
  | some fault => rfl
  | none =>
    have exits : s.exited = true := by simpa using stops
    simp only [andThen, if_pos exits]

theorem stops_lines (block : readOnce scripts path r s w = (turns, result, none)) (reads : ReadsAs w r.channel text)
    (plain : newline ∉ r.held) (fits : Fits r) :
    result = runLines scripts (scriptLines (r.held ++ text.drop r.offset)) s w := by
  have taken := next_text reads plain fits
  unfold readOnce at block
  generalize r.next w = outcome at block taken
  cases taken with
  | @lines ready following later cuts present fitting =>
    dsimp only at block
    split at block
    · cases block
    · rename_i stops
      cases block
      rw [← List.take_append_drop (following.offset - r.offset) (text.drop r.offset), ← List.append_assoc,
        scriptLines_taken cuts, runLines_append _ _ present, andThen_stopped stops]
  | last free =>
    cases block
    rfl
  | tooLong ahead free long =>
    cases block
    rw [ahead]
    obtain ⟨line, more, first, crowded⟩ := scriptLines_long free long _
    rw [first, runLines, if_pos crowded]

theorem goes_lines (block : readOnce scripts path r s w = (turns, (status, next, middle), some following))
    (reads : ReadsAs w r.channel text) (plain : newline ∉ r.held) (fits : Fits r) (more : Bytes) :
    Fits following ∧ runLines scripts (scriptLines (r.held ++ ((text.drop r.offset).take (following.offset - r.offset) ++ more))) s w =
      runLines scripts (scriptLines (following.held ++ more)) next middle := by
  obtain ⟨ready, read, rfl, ran, fine, goes⟩ := readOnce_goes block
  have taken := next_text reads plain fits
  rw [read] at taken
  cases taken with
  | lines later cuts present fitting =>
    obtain ⟨value, fault⟩ := status
    cases fine
    refine ⟨fitting, ?_⟩
    rw [← List.append_assoc, scriptLines_taken cuts, runLines_append _ _ present, ran]
    simp only [andThen, goes, Bool.false_eq_true, ↓reduceIte]

theorem Delivers.reads (delivers : Delivers scripts path r s w text) (plain : newline ∉ r.held) (fits : Fits r) :
    ∃ turns, ReadsOut scripts path r s w turns (runLines scripts (scriptLines (r.held ++ text)) s w) := by
  induction delivers with
  | stops block reads =>
    rw [← stops_lines block reads plain fits]
    exact ⟨_, .stops block⟩
  | goes block reads later ih =>
    rename_i more
    obtain ⟨fitting, same⟩ := goes_lines block reads plain fits more
    obtain ⟨ready, read, _⟩ := readOnce_goes block
    obtain ⟨turns, out⟩ := ih (next_moves plain read).2.1 fitting
    rw [same]
    exact ⟨_, .goes block out⟩

-- The world a list of lines leaves is the one its last line leaves.
theorem LinesRun.leaves (run : LinesRun scripts lines s w turns result) (fine : result.1.2 = none) :
    result.2.2 = w ∨ ∃ turn ∈ turns, (interpretWith scripts turn.line turn.session turn.world).2.2 = result.2.2 := by
  induction run with
  | finished => exact .inl rfl
  | tooLong => cases fine
  | fatal => cases fine
  | exited _ first _ => exact .inr ⟨_, List.mem_cons_self, congrArg (·.2.2) first⟩
  | goes _ first _ _ ih =>
    right
    rcases ih fine with same | ⟨turn, interprets, leaves⟩
    · rw [same]
      exact ⟨_, List.mem_cons_self, congrArg (·.2.2) first⟩
    · exact ⟨turn, List.mem_cons_of_mem _ interprets, leaves⟩

theorem runLines_left (ran : runLines scripts lines s w = ((status, none), next, middle)) :
    middle = w ∨ ∃ turn ∈ linesTurns scripts lines s w,
      (interpretWith scripts turn.line turn.session turn.world).2.2 = middle := by
  have left := (linesRun scripts lines s w).leaves
  rw [ran] at left
  exact left rfl

-- A script whose file reads as some text all the time is read as a text.
theorem ReadsOut.delivers (P : Bytes → Prop) (read : ReadsOut scripts path r s w turns result) (plain : newline ∉ r.held)
    (first : ∃ text, P text ∧ ReadsAs w r.channel text)
    (kept : ∀ turn ∈ turns, ∃ text, P text ∧
      ReadsAs (interpretWith scripts turn.line turn.session turn.world).2.2 r.channel text) :
    ∃ text, Delivers scripts path r s w text ∧ ∀ only, (∀ other, P other → other = only) → text = only.drop r.offset := by
  induction read with
  | stops block =>
    obtain ⟨text, given, reads⟩ := first
    exact ⟨_, .stops block reads, fun only same => by rw [same text given]⟩
  | @goes r s w turns returned next middle following others result block later ih =>
    obtain ⟨text, given, reads⟩ := first
    obtain ⟨ready, read, rfl, ran, fine, _⟩ := readOnce_goes block
    obtain ⟨channel, cleanNext, further, _⟩ := next_moves plain read
    obtain ⟨status, fault⟩ := returned
    cases fine
    rw [← channel] at kept
    have there : ∃ text, P text ∧ ReadsAs middle following.channel text := by
      rcases runLines_left ran with rfl | ⟨turn, interprets, rfl⟩
      · rw [channel]
        exact ⟨text, given, reads⟩
      · exact kept turn (List.mem_append_left _ interprets)
    obtain ⟨more, behind, whole⟩ := ih cleanNext there fun turn interprets => kept turn (List.mem_append_right _ interprets)
    refine ⟨_, .goes block reads behind, fun only same => ?_⟩
    have together : following.offset = r.offset + (following.offset - r.offset) := by omega
    rw [whole only same, same text given, together, ← List.drop_drop, Nat.add_sub_cancel_left, List.take_append_drop]

-- A script that is open: the session its lines run in, and the one that is left when it is over.

def descend (s : Session) : Session := { s with depth := s.depth + 1 }

def ascend (ran : (Int × Option ScriptFault) × Session × World) : (Int × Option ScriptFault) × Session × World :=
  (ran.1, { ran.2.1 with depth := ran.2.1.depth - 1 }, ran.2.2)

theorem runScript_opened (shallow : s.depth < maxDepth) (opens : s.storage.openScript path w = (.ok channel, opened)) :
    ∃ ran, runScript path s w = ascend ran ∧
      ReadsOut (runScriptAt (descend s).levels) path { channel := channel } (descend s) opened (scriptTurns s.levels path s w) ran ∧
      ∀ turn ∈ scriptTurns s.levels path s w,
        interpretWith (runScriptAt (descend s).levels) turn.line turn.session turn.world = turn.result := by
  have levels : s.levels = (descend s).levels + 1 := by
    unfold Session.levels descend
    dsimp only
    omega
  refine ⟨runBlocks (runScriptAt (descend s).levels) path (LineReader.blockLimit { channel := channel } opened)
    { channel := channel } (descend s) opened, ?_, ?_, ?_⟩
  · unfold runScript
    rw [levels, runScriptAt, opens]
    rfl
  · rw [levels, scriptTurns, opens]
    exact runOpened_reads (descend s).levels path channel (descend s) opened
  · intro turn interprets
    rw [levels, scriptTurns, opens] at interprets
    rw [Turn.result, interpret, opened_levels levels (blocksRun _ path _ _ _ _) interprets]

theorem Delivers.run (delivers : Delivers scripts path { channel := channel } s w text)
    (read : ReadsOut scripts path { channel := channel } s w turns result) : result = runLines scripts (scriptLines text) s w := by
  obtain ⟨others, out⟩ := delivers.reads List.not_mem_nil (Nat.le_refl 0)
  exact read.same out fun _ _ _ _ _ _ => rfl

-- A script runs the lines of the text it is read as.
theorem runScript_delivers (shallow : s.depth < maxDepth) (opens : s.storage.openScript path w = (.ok channel, opened))
    (readable : ∃ text, ReadsAs opened channel text)
    (kept : ∀ turn ∈ scriptTurns s.levels path s w, ∃ text, ReadsAs turn.result.2.2 channel text) :
    ∃ text, Delivers (runScriptAt (descend s).levels) path { channel := channel } (descend s) opened text ∧
      runScript path s w = ascend (runText text (descend s) opened) := by
  obtain ⟨ran, whole, read, same⟩ := runScript_opened shallow opens
  obtain ⟨text, reads⟩ := readable
  obtain ⟨delivered, delivers, -⟩ := read.delivers (fun _ => True) List.not_mem_nil ⟨text, trivial, reads⟩ fun turn interprets => by
    obtain ⟨other, still⟩ := kept turn interprets
    rw [same turn interprets]
    exact ⟨other, trivial, still⟩
  rw [whole]
  exact ⟨delivered, delivers, congrArg ascend (delivers.run read)⟩

-- If the file reads as the same text all the time, it is that text.
theorem runScript_steady (shallow : s.depth < maxDepth) (opens : s.storage.openScript path w = (.ok channel, opened))
    (reads : ReadsAs opened channel text)
    (kept : ∀ turn ∈ scriptTurns s.levels path s w, ReadsAs turn.result.2.2 channel text) :
    runScript path s w = ascend (runText text (descend s) opened) := by
  obtain ⟨ran, whole, read, same⟩ := runScript_opened shallow opens
  obtain ⟨delivered, delivers, only⟩ := read.delivers (· = text) List.not_mem_nil ⟨text, rfl, reads⟩ fun turn interprets => by
    rw [same turn interprets]
    exact ⟨text, rfl, kept turn interprets⟩
  have it : delivered = text := only text fun _ same => same
  rw [it] at delivers
  rw [whole]
  exact congrArg ascend (delivers.run read)

-- Scripts are the runs of their lines, one after the other: of texts, of texts one behind the other, and of files that can
-- be read all the time, by the text they are read as.
theorem runs_in_sequence (s : Session) (w : World) :
    (∀ text lines, scriptLines text = lines ↔ Lines lines text) ∧
    (∀ a b, runText (a ++ newline :: b) s w = andThen (runText a s w) (runText b)) ∧
    (∀ text, ∃ turns, Performs (scriptLines text) s w turns (runText text s w)) ∧
    ∀ path channel opened, s.depth < maxDepth → s.storage.openScript path w = (.ok channel, opened) →
      (∃ text, ReadsAs opened channel text) →
      (∀ turn ∈ scriptTurns s.levels path s w, ∃ text, ReadsAs turn.result.2.2 channel text) →
        (∃ text, Delivers (runScriptAt (descend s).levels) path { channel := channel } (descend s) opened text ∧
          runScript path s w = ascend (runText text (descend s) opened)) ∧
        ∀ text, ReadsAs opened channel text → (∀ turn ∈ scriptTurns s.levels path s w, ReadsAs turn.result.2.2 channel text) →
          runScript path s w = ascend (runText text (descend s) opened) :=
  ⟨scriptLines_exact, fun a b => runText_append a b s w, fun text => ⟨_, runText_performs text s w⟩,
    fun _ _ _ shallow opens readable kept =>
      ⟨runScript_delivers shallow opens readable kept, fun _ reads steady => runScript_steady shallow opens reads steady⟩⟩

-- A script whose second line exits.
def exitingText : String := "b=1\nmexit 3\nb=2"

def exitingWorld : World := scripted [("a", exitingText)]

theorem runs_in_sequence_exiting :
    sourcing.depth < maxDepth ∧
      sourcing.storage.openScript (ascii "a") exitingWorld = (.ok (.memory (ascii "a")), exitingWorld) ∧
      runScript (ascii "a") sourcing exitingWorld = ascend (runText (ascii exitingText) (descend sourcing) exitingWorld) ∧
      (runScript (ascii "a") sourcing exitingWorld).1 = (3, none) ∧
      (runScript (ascii "a") sourcing exitingWorld).2.1.locals.lookup (ascii "b") = some (ascii "1") := by
  have shallow : sourcing.depth < maxDepth := by decide
  have opens : sourcing.storage.openScript (ascii "a") exitingWorld = (.ok (.memory (ascii "a")), exitingWorld) := rfl
  have same : ∀ v : World, v.memory.read? (ascii "a") = some (ascii exitingText) →
      ReadsAs v (.memory (ascii "a")) (ascii exitingText) := by
    intro v kept place count
    simp only [World.bytesAt, kept, Option.getD_some]
  have reads := same exitingWorld (by decide +kernel)
  have kept : ∀ turn ∈ scriptTurns sourcing.levels (ascii "a") sourcing exitingWorld,
      ReadsAs turn.result.2.2 (.memory (ascii "a")) (ascii exitingText) := by
    have stays : ∀ turn ∈ scriptTurns sourcing.levels (ascii "a") sourcing exitingWorld,
        turn.result.2.2.memory.read? (ascii "a") = some (ascii exitingText) := by decide +kernel
    exact fun turn interprets => same _ (stays turn interprets)
  obtain ⟨-, -, -, scripts⟩ := runs_in_sequence sourcing exitingWorld
  have readable := (scripts _ _ _ shallow opens ⟨_, reads⟩ fun turn interprets => ⟨_, kept turn interprets⟩).2
  exact ⟨shallow, opens, readable _ reads kept, by decide +kernel, by decide +kernel⟩

end Session
end LineShell
