import LineShell.Session.Interpreter

-- The pass that makes the redirections of a stage is a relation, for the inductions over its words.
namespace LineShell

namespace Pipeline

theorem partition_nonempty (tokens : List Bytes) : partition tokens ≠ [] := by
  cases tokens with
  | nil => exact List.cons_ne_nil _ _
  | cons token rest =>
    unfold partition
    split
    · exact List.cons_ne_nil _ _
    · split
      · exact List.cons_ne_nil _ _
      · exact List.cons_ne_nil _ _

-- The stages of some words, which are still to be joined.
def unjoined (tokens : List Bytes) : List Stage := (partition tokens).map fun args => { args := args }

theorem unjoined_args (tokens : List Bytes) : (unjoined tokens).map (·.args) = partition tokens := by
  simp [unjoined, Function.comp_def]

theorem unjoined_inherit (tokens : List Bytes) : ∀ stage ∈ unjoined tokens, stage.stdio = Stdio.inherit := by
  intro stage member
  obtain ⟨args, _, rfl⟩ := List.mem_map.mp member
  rfl

-- A pipe is refused, a stage is without words, or nothing is wrong.
inductive Joining (tokens : List Bytes) (w : World) : Prop where
  | refused (first : Stage) (others joined : List Stage) (e : Errno) (after : World) (stages : unjoined tokens = first :: others)
    (connected : connect first others w = (some e, joined, after))
    (answer : build tokens w = (.error (.resource (ascii "pipe") [] (.onCall (ascii "pipe2") (.errno e))), (close ⟨joined⟩ after).2.2))
  | empty (first : Stage) (others joined : List Stage) (after : World) (stages : unjoined tokens = first :: others)
    (connected : connect first others w = (none, joined, after)) (lacks : joined.any (·.args.isEmpty) = true)
    (answer : build tokens w = (.error (.parse .emptyStage pipeToken), (close ⟨joined⟩ after).2.2))
  | done (first : Stage) (others joined : List Stage) (after : World) (stages : unjoined tokens = first :: others)
    (connected : connect first others w = (none, joined, after)) (full : joined.any (·.args.isEmpty) = false)
    (answer : build tokens w = (.ok ⟨joined⟩, after))

theorem joining (tokens : List Bytes) (w : World) : Joining tokens w := by
  cases stages : unjoined tokens with
  | nil => exact absurd (List.map_eq_nil_iff.mp stages) (partition_nonempty tokens)
  | cons first others =>
    have given : (partition tokens).map (fun args => ({ args := args } : Stage)) = first :: others := stages
    rcases connected : connect first others w with ⟨failure, joined, after⟩
    cases failure with
    | some e => exact .refused _ _ _ _ _ stages connected (by simp only [build, given, connected])
    | none =>
      cases lacks : joined.any (·.args.isEmpty) with
      | true => exact .empty _ _ _ _ stages connected lacks (by simp only [build, given, connected, lacks, if_true])
      | false => exact .done _ _ _ _ stages connected lacks (by simp [build, given, connected, lacks])

theorem build_done (built : build tokens w = (.ok p, after)) : ∃ first others, unjoined tokens = first :: others ∧
    connect first others w = (none, p.stages, after) ∧ p.stages.any (·.args.isEmpty) = false := by
  cases joining tokens w with
  | refused first others joined e later stages connected answer =>
    rw [answer] at built
    cases built
  | empty first others joined later stages connected lacks answer =>
    rw [answer] at built
    cases built
  | done first others joined later stages connected full answer =>
    rw [answer] at built
    cases built
    exact ⟨first, others, stages, connected, full⟩

end Pipeline

namespace Redirection

-- A pass over the words of a stage, which takes the redirections away, as far as it gets.
inductive Applying (expand : Bytes → Bytes) :
    List Bytes → Stdio → World → Except Fault (List Bytes) × Stdio × World → Prop where
  | finished (s : Stdio) (w : World) : Applying expand [] s w (.ok [], s, w)
  | duplicate (rest : List Bytes) (s : Stdio) (w : World) :
    Applying expand (duplicateToken :: rest) s w (.error (.parse .unsupportedDuplication duplicateToken), s, w)
  | word (token : Bytes) (rest : List Bytes) (s : Stdio) (w : World) (single : ¬token = duplicateToken)
    (plain : slots? token = none) (result : Except Fault (List Bytes)) (filled : Stdio) (after : World)
    (later : Applying expand rest s w (result, filled, after)) :
    Applying expand (token :: rest) s w (result.map (token :: ·), filled, after)
  | unaimed (token : Bytes) (s : Stdio) (w : World) (single : ¬token = duplicateToken) (slots : List Slot)
    (found : slots? token = some slots) : Applying expand [token] s w (.error (.parse .missingTarget token), s, w)
  | operator (token : Bytes) (s : Stdio) (w : World) (single : ¬token = duplicateToken) (slots : List Slot)
    (found : slots? token = some slots) (target : Bytes) (rest : List Bytes) (operator : isOperator target = true) :
    Applying expand (token :: target :: rest) s w (.error (.parse .missingTarget token), s, w)
  | refused (token : Bytes) (s : Stdio) (w : World) (single : ¬token = duplicateToken) (slots : List Slot)
    (found : slots? token = some slots) (target : Bytes) (rest : List Bytes) (plain : ¬isOperator target = true)
    (fault : Fault) (refusal : targetFault? target = some fault) :
    Applying expand (token :: target :: rest) s w (.error fault, s, w)
  | stuck (token : Bytes) (s : Stdio) (w : World) (single : ¬token = duplicateToken) (slots : List Slot)
    (found : slots? token = some slots) (target : Bytes) (rest : List Bytes) (plain : ¬isOperator target = true)
    (clean : targetFault? target = none) (fault : Fault) (filled : Stdio) (after : World)
    (failed : place token (expand target) slots s w = (.error fault, filled, after)) :
    Applying expand (token :: target :: rest) s w (.error fault, filled, after)
  | placed (token : Bytes) (s : Stdio) (w : World) (single : ¬token = duplicateToken) (slots : List Slot)
    (found : slots? token = some slots) (target : Bytes) (rest : List Bytes) (plain : ¬isOperator target = true)
    (clean : targetFault? target = none) (filled : Stdio) (after : World)
    (done : place token (expand target) slots s w = (.ok (), filled, after)) (later : Applying expand rest filled after result) :
    Applying expand (token :: target :: rest) s w result

theorem applying (expand : Bytes → Bytes) (args : List Bytes) (s : Stdio) (w : World) :
    Applying expand args s w (applyArgs expand args s w) := by
  fun_induction applyArgs expand args s w with
  | case1 s w => exact .finished s w
  | case2 rest s w => exact .duplicate rest s w
  | case3 token rest s w single plain kept filled after applied ih =>
    rw [applied] at ih
    exact .word _ _ _ _ single plain _ _ _ ih
  | case4 token rest s w single plain failed ih =>
    rcases applied : applyArgs expand rest s w with ⟨result, filled, after⟩
    cases result with
    | ok kept => exact absurd applied (failed kept filled after)
    | error fault =>
      rw [applied] at ih
      exact .word _ _ _ _ single plain _ _ _ ih
  | case5 token s w single slots found => exact .unaimed _ _ _ single _ found
  | case6 token s w single slots found target rest operator => exact .operator _ _ _ single _ found _ _ operator
  | case7 token s w single slots found target rest plain fault refusal =>
    exact .refused _ _ _ single _ found _ _ plain _ refusal
  | case8 token s w single slots found target rest plain clean fault filled after failed =>
    exact .stuck _ _ _ single _ found _ _ plain clean _ _ _ failed
  | case9 token s w single slots found target rest plain clean filled after done ih =>
    exact .placed _ _ _ single _ found _ _ plain clean _ _ done ih

end Redirection

namespace Session

-- The words cannot be told apart, a pipe or a stage is missing, command substitution is asked for, or nothing is wrong.
inductive Assembling (line : Bytes) (w : World) : Prop where
  | unsplit (fault : Fault) (splits : Line.split line = .error fault) (answer : assemble line w = (.error fault, w))
  | unbuilt (tokens : List Bytes) (fault : Fault) (after : World) (splits : Line.split line = .ok tokens)
    (built : Pipeline.build tokens w = (.error fault, after)) (answer : assemble line w = (.error fault, after))
  | abandoned (tokens : List Bytes) (p left : Pipeline) (fault : Fault) (after : World) (splits : Line.split line = .ok tokens)
    (built : Pipeline.build tokens w = (.ok p, after)) (detects : p.detectSubshells = (found, left))
    (refused : found.or left.rejectSubshells = some fault) (answer : assemble line w = (.error fault, (left.close after).2.2))
  | done (tokens : List Bytes) (p left : Pipeline) (after : World) (splits : Line.split line = .ok tokens)
    (built : Pipeline.build tokens w = (.ok p, after)) (detects : p.detectSubshells = (none, left))
    (clean : left.rejectSubshells = none) (answer : assemble line w = (.ok left, after))

theorem assembling (line : Bytes) (w : World) : Assembling line w := by
  cases splits : Line.split line with
  | error fault => exact .unsplit _ splits (by simp only [assemble, splits])
  | ok tokens =>
    rcases built : Pipeline.build tokens w with ⟨result, after⟩
    cases result with
    | error fault => exact .unbuilt _ _ _ splits built (by simp only [assemble, splits, built])
    | ok p =>
      rcases detects : p.detectSubshells with ⟨found, left⟩
      cases found with
      | some fault => exact .abandoned _ _ _ _ _ splits built detects rfl (by simp only [assemble, splits, built, detects, abandon])
      | none =>
        cases clean : left.rejectSubshells with
        | some fault =>
          exact .abandoned _ _ _ _ _ splits built detects clean (by simp only [assemble, splits, built, detects, clean, abandon])
        | none => exact .done _ _ _ _ splits built detects clean (by simp only [assemble, splits, built, detects, clean])

theorem assemble_done (assembled : assemble line w = (.ok p, after)) : ∃ tokens q, Line.split line = .ok tokens ∧
    Pipeline.build tokens w = (.ok q, after) ∧ q.detectSubshells = (none, p) ∧ p.rejectSubshells = none := by
  cases assembling line w with
  | unsplit fault splits answer =>
    rw [answer] at assembled
    cases assembled
  | unbuilt tokens fault later splits built answer =>
    rw [answer] at assembled
    cases assembled
  | abandoned tokens q left fault later splits built detects refused answer =>
    rw [answer] at assembled
    cases assembled
  | done tokens q left later splits built detects clean answer =>
    rw [answer] at assembled
    cases assembled
    exact ⟨tokens, q, splits, built, detects, clean⟩

-- The line is not assembled, a redirection cannot be made, or the words that are left are expanded.
inductive Compiling (expand : Bytes → Bytes) (line : Bytes) (w : World) : Prop where
  | unassembled (fault : Fault) (after : World) (assembled : assemble line w = (.error fault, after))
    (answer : compile expand line w = (.error fault, after))
  | abandoned (p : Pipeline) (middle after : World) (fault : Fault) (stages : List Stage)
    (assembled : assemble line w = (.ok p, middle))
    (applied : Redirection.applyStages expand p.stages middle = (some fault, stages, after))
    (answer : compile expand line w = (.error fault, (Pipeline.close ⟨stages⟩ after).2.2))
  | done (p : Pipeline) (middle after : World) (stages : List Stage) (assembled : assemble line w = (.ok p, middle))
    (applied : Redirection.applyStages expand p.stages middle = (none, stages, after))
    (answer : compile expand line w = (.ok (Pipeline.substitute ⟨stages⟩ expand), after))

theorem compiling (expand : Bytes → Bytes) (line : Bytes) (w : World) : Compiling expand line w := by
  rcases assembled : assemble line w with ⟨result, middle⟩
  cases result with
  | error fault => exact .unassembled _ _ assembled (by simp only [compile, assembled])
  | ok p =>
    rcases applied : Redirection.applyStages expand p.stages middle with ⟨failure, stages, after⟩
    cases failure with
    | some fault =>
      exact .abandoned _ _ _ _ _ assembled applied (by simp only [compile, assembled, Pipeline.redirect, applied, abandon])
    | none => exact .done _ _ _ _ assembled applied (by simp only [compile, assembled, Pipeline.redirect, applied])

theorem compile_done {expand : Bytes → Bytes} (compiled : compile expand line w = (.ok p, after)) : ∃ q middle stages,
    assemble line w = (.ok q, middle) ∧ Redirection.applyStages expand q.stages middle = (none, stages, after) ∧
      p = Pipeline.substitute ⟨stages⟩ expand := by
  cases compiling expand line w with
  | unassembled fault later assembled answer =>
    rw [answer] at compiled
    cases compiled
  | abandoned q middle later fault stages assembled applied answer =>
    rw [answer] at compiled
    cases compiled
  | done q middle later stages assembled applied answer =>
    rw [answer] at compiled
    cases compiled
    exact ⟨q, middle, stages, assembled, applied, rfl⟩

end Session
end LineShell
