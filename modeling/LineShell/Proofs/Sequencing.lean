import LineShell.Proofs.Blocks
import LineShell.Proofs.History

namespace LineShell.Session
open Bytes

-- The lines of a text.
inductive Lines : List Bytes → Bytes → Prop where
  | none : Lines [] []
  | unended (present : line ≠ []) (plain : newline ∉ line) : Lines [line] line
  | line (plain : newline ∉ line) (rest : Lines lines text) : Lines (line :: lines) (line ++ newline :: text)

-- A line behind which the run goes on.
def Turn.Continues (t : Turn) : Prop := t.result.1.2 = none ∧ t.result.2.1.exited = false

-- What a line finds and what it leaves.
def Turn.states (t : Turn) : (Session × World) × (Session × World) := ((t.session, t.world), t.result.2)

-- How a run ends: behind its last line, in front of a line that is too long, or at a line that fails or exits.
inductive Ended (lines : List Bytes) : List Turn → (Int × Option ScriptFault) × Session × World → Prop where
  | finished (goes : ∀ turn ∈ turns, turn.Continues) (all : turns.length = lines.length) :
      Ended lines turns ((next.lastStatus, none), next, after)
  | tooLong (goes : ∀ turn ∈ turns, turn.Continues) (follows : lines[turns.length]? = some line)
      (long : lineLimit ≤ line.length) : Ended lines turns ((1, some .lineTooLong), next, after)
  | failed (goes : ∀ turn ∈ front, turn.Continues) (fails : last.result.1.2 = some fault) :
      Ended lines (front ++ [last]) ((1, some (.fatal fault)), next, after)
  | exited (goes : ∀ turn ∈ front, turn.Continues) (fine : last.result.1.2 = none)
      (exits : last.result.2.1.exited = true) : Ended lines (front ++ [last]) ((next.lastStatus, none), next, after)

-- The lines that are interpreted are the first ones of the text, in order, each on what the one before it has left.
structure Performs (lines : List Bytes) (s : Session) (w : World) (turns : List Turn)
    (result : (Int × Option ScriptFault) × Session × World) : Prop where
  taken : turns.map Turn.line = (lines.take turns.length).map chomp
  short : ∀ line ∈ lines.take turns.length, line.length < lineLimit
  linked : Linked (s, w) (turns.map Turn.states) result.2
  ended : Ended lines turns result

variable {text line : Bytes} {lines : List Bytes} {s next : Session} {w after : World} {scripts : ScriptRunner}

theorem scriptLines_plain (plain : newline ∉ line) : scriptLines line = if line = [] then [] else [line] := by
  unfold scriptLines
  rw [splitOn_plain plain]
  cases line <;> rfl

theorem scriptLines_behind (cuts : splitOn newline text = front ++ splitOn newline rest) :
    scriptLines text = front ++ scriptLines rest := by
  unfold scriptLines
  rw [cuts, List.reverse_append]
  cases backwards : (splitOn newline rest).reverse with
  | nil => exact absurd (List.reverse_eq_nil_iff.mp backwards) (splitOn_present newline rest)
  | cons last front => cases last <;> simp

-- Behind a newline another text begins.
theorem scriptLines_append (a b : Bytes) : scriptLines (a ++ newline :: b) = splitOn newline a ++ scriptLines b :=
  scriptLines_behind (splitOn_append newline a b)

theorem scriptLines_spelled (text : Bytes) : Lines (scriptLines text) text := by
  by_cases more : newline ∈ text
  · obtain ⟨line, rest, whole, plain⟩ := List.eq_append_cons_of_mem more
    have shorter : rest.length < text.length := by
      rw [whole, List.length_append, List.length_cons]
      omega
    rw [whole, scriptLines_append, splitOn_plain plain]
    exact .line plain (scriptLines_spelled rest)
  · rw [scriptLines_plain more]
    split
    · rename_i empty
      rw [empty]
      exact .none
    · rename_i present
      exact .unended present more
termination_by text.length

theorem scriptLines_exact (text : Bytes) (lines : List Bytes) : scriptLines text = lines ↔ Lines lines text := by
  refine ⟨fun same => same ▸ scriptLines_spelled text, fun spelled => ?_⟩
  induction spelled with
  | none => rfl
  | unended present plain => rw [scriptLines_plain plain, if_neg present]
  | line plain _ ih => rw [scriptLines_append, splitOn_plain plain, ih, List.singleton_append]

-- One run after another, unless the first has failed or the session has exited.
def andThen (ran : (Int × Option ScriptFault) × Session × World)
    (more : Session → World → (Int × Option ScriptFault) × Session × World) : (Int × Option ScriptFault) × Session × World :=
  match ran with
  | ((status, none), s, w) => if s.exited then ((status, none), s, w) else more s w
  | stopped => stopped

theorem andThen_failed (status : Int) (fault : ScriptFault) (s : Session) (w : World)
    (more : Session → World → (Int × Option ScriptFault) × Session × World) :
    andThen ((status, some fault), s, w) more = ((status, some fault), s, w) := rfl

theorem runLines_append (front back : List Bytes) (present : front ≠ []) (s : Session) (w : World) :
    runLines scripts (front ++ back) s w = andThen (runLines scripts front s w) (runLines scripts back) := by
  induction front generalizing s w with
  | nil => exact absurd rfl present
  | cons line rest ih =>
    rw [List.cons_append]
    unfold runLines
    split
    · rfl
    · split
      · rfl
      · rename_i s w _
        split
        · rename_i stops
          simp [andThen, stops]
        · rename_i goes
          cases rest with
          | nil => simp [runLines, andThen, goes]
          | cons other others => exact ih (List.cons_ne_nil _ _) s w

-- A run that has not failed returns the last status.
theorem runLines_lastStatus (ran : runLines scripts lines s w = ((status, none), next, after)) : status = next.lastStatus := by
  have last := (linesRun scripts lines s w).status
  rwa [ran] at last

-- A blank line changes nothing, so it does not matter whether a text ends in a newline.

theorem runLines_blank (s : Session) (w : World) : runLines scripts [[]] s w = ((s.lastStatus, none), s, w) := by
  have blank : interpretWith scripts (chomp []) s w = ((0, none), s, w) := rfl
  unfold runLines
  rw [if_neg (by decide), blank]
  dsimp only
  split <;> rfl

theorem runLines_pieces (a : Bytes) (s : Session) (w : World) :
    runLines scripts (splitOn newline a) s w = runLines scripts (scriptLines a) s w := by
  have pieces : splitOn newline a = scriptLines a ∨ splitOn newline a = scriptLines a ++ [[]] := by
    unfold scriptLines
    split
    · rename_i front cuts
      right
      rw [← List.reverse_cons, ← cuts, List.reverse_reverse]
    · left
      rw [List.reverse_reverse]
  rcases pieces with same | ended
  · rw [same]
  · rw [ended]
    by_cases empty : scriptLines a = []
    · rw [empty]
      exact runLines_blank s w
    · rw [runLines_append _ _ empty]
      rcases ran : runLines scripts (scriptLines a) s w with ⟨⟨status, fault⟩, next, after⟩
      cases fault with
      | some fault => rfl
      | none =>
        have last := runLines_lastStatus ran
        subst last
        unfold andThen
        dsimp only
        rw [runLines_blank]
        split <;> rfl

-- The run of a text behind another one.
theorem runText_append (a b : Bytes) (s : Session) (w : World) :
    runText (a ++ newline :: b) s w = andThen (runText a s w) (runText b) := by
  rw [runText, scriptLines_append, runLines_append _ _ (splitOn_present newline a), runLines_pieces]
  rw [show runLines (runScriptAt s.levels) (scriptLines a) s w = runText a s w from rfl]
  rcases ran : runText a s w with ⟨⟨status, fault⟩, next, after⟩
  cases fault with
  | some fault => rw [andThen_failed, andThen_failed]
  | none =>
    have follows := (linesRun (runScriptAt s.levels) (scriptLines a) s w).follows (runScriptAt_follows s.levels)
    rw [show runLines _ _ s w = _ from ran] at follows
    have levels : next.levels = s.levels := congrArg (maxDepth - ·) follows.depth
    have rest : runLines (runScriptAt s.levels) (scriptLines b) next after = runText b next after := by rw [runText, levels]
    simp only [andThen, rest]

-- Which lines are interpreted.

theorem Ended.cons (ended : Ended lines turns result) (goes : turn.Continues) : Ended (line :: lines) (turn :: turns) result := by
  cases ended with
  | finished others all => exact .finished (List.forall_mem_cons.mpr ⟨goes, others⟩) (by simp [all])
  | tooLong others follows long => exact .tooLong (List.forall_mem_cons.mpr ⟨goes, others⟩) follows long
  | failed others fails =>
    rw [← List.cons_append]
    exact .failed (List.forall_mem_cons.mpr ⟨goes, others⟩) fails
  | exited others fine exits =>
    rw [← List.cons_append]
    exact .exited (List.forall_mem_cons.mpr ⟨goes, others⟩) fine exits

theorem Performs.cons (later : Performs lines next after turns result) (short : line.length < lineLimit)
    (ran : (Turn.mk (chomp line) s w).result = ((status, none), next, after)) (goes : next.exited = false) :
    Performs (line :: lines) s w (⟨chomp line, s, w⟩ :: turns) result where
  taken := by simp [later.taken]
  short := by simpa using ⟨short, later.short⟩
  linked := by
    refine ⟨rfl, ?_⟩
    rw [ran]
    exact later.linked
  ended := later.ended.cons ⟨by rw [ran], by rw [ran]; exact goes⟩

-- One line at which the run ends.
theorem performs_once (short : line.length < lineLimit) (left : (Turn.mk (chomp line) s w).result.2 = result.2)
    (ended : Ended (line :: lines) ([] ++ [⟨chomp line, s, w⟩]) result) : Performs (line :: lines) s w [⟨chomp line, s, w⟩] result where
  taken := by simp
  short := by simpa using short
  linked := ⟨rfl, left⟩
  ended := ended

theorem LinesRun.performs (run : LinesRun (runScriptAt deeper) lines s w turns result) (levels : s.levels = deeper) :
    Performs lines s w turns result := by
  have same : ∀ line s w, s.levels = deeper → interpretWith (runScriptAt deeper) line s w = (Turn.mk line s w).result := by
    intro line s w levels
    rw [Turn.result, interpret, levels]
  induction run with
  | finished => exact ⟨rfl, by simp, rfl, .finished (fun _ none => by cases none) rfl⟩
  | tooLong long => exact ⟨rfl, by simp, rfl, .tooLong (fun _ none => by cases none) rfl long⟩
  | fatal short first =>
    rw [same _ _ _ levels] at first
    exact performs_once short (congrArg (·.2) first) (.failed (fun _ none => by cases none) (congrArg (·.1.2) first))
  | exited short first stops =>
    rw [same _ _ _ levels] at first
    have exits : (Turn.result _).2.1.exited = true := (congrArg (·.2.1.exited) first).trans stops
    exact performs_once short (congrArg (·.2) first) (.exited (fun _ none => by cases none) (congrArg (·.1.2) first) exits)
  | goes short first active _ ih =>
    have follows := follows_of_interpretWith (runScriptAt_follows deeper) first
    rw [same _ _ _ levels] at first
    exact (ih ((congrArg (maxDepth - ·) follows.depth).trans levels)).cons short first active

theorem runText_performs (text : Bytes) (s : Session) (w : World) :
    Performs (scriptLines text) s w (linesTurns (runScriptAt s.levels) (scriptLines text) s w) (runText text s w) :=
  (linesRun _ _ s w).performs rfl

end LineShell.Session
