import LineShell.Proofs.Failures

namespace LineShell
open World

section
variable {w after : World}

-- Each pipe asks once whether it is refused.

theorem World.pipe_asks (made : w.pipe = (.ok ends, after)) : after.faults = w.faults.tail := by
  unfold pipe nextFault at made
  split at made
  · cases made
  · rename_i granted asked
    cases made
    split at asked
    · rename_i none
      cases asked
      change w.faults = w.faults.tail
      rw [none]
      rfl
    · rename_i faults
      cases asked
      rw [faults]
      rfl

theorem World.pipe_denied (refused : w.pipe = (.error e, after)) : ∃ later, w.faults = some e :: later := by
  unfold pipe nextFault at refused
  split at refused
  · rename_i asked
    split at asked
    · cases asked
    · rename_i faults
      cases asked
      cases refused
      exact ⟨_, faults⟩
  · cases refused

namespace Pipeline

theorem connect_denied (first : Stage) (others : List Stage) (w : World) (failed : (connect first others w).1 = some e) :
    some e ∈ w.faults.take others.length := by
  induction others generalizing first w with
  | nil => cases failed
  | cons next others ih =>
    unfold connect at failed
    split at failed
    · rename_i refused
      cases failed
      obtain ⟨later, faults⟩ := pipe_denied refused
      simp [faults]
    · rename_i made
      have later := ih _ _ failed
      rw [pipe_asks made] at later
      cases faults : w.faults with
      | nil => simp [faults] at later
      | cons fault rest =>
        rw [faults] at later
        exact List.mem_cons_of_mem _ later

-- A pipeline that cannot be built for its text or for a pipe: there is one for each `|`.
theorem build_denied (failed : build tokens w = (.error fault, after)) (other : fault.isParse = false) :
    ∃ e, some e ∈ w.faults.take (tokens.count pipeToken) := by
  cases joining tokens w with
  | refused first others joined e after stages connected answer =>
    have lengths := congrArg List.length stages
    rw [unjoined, List.length_map, partition_length] at lengths
    have denied := connect_denied first others w (congrArg Prod.fst connected)
    rw [← Nat.succ.inj lengths] at denied
    exact ⟨e, denied⟩
  | empty first others joined after stages connected lacks answer =>
    rw [answer] at failed
    cases failed
    cases other
  | done first others joined after stages connected full answer =>
    rw [answer] at failed
    cases failed

end Pipeline

namespace Session
variable {s : Session}

-- The pipes a line asks for are granted.
def PipesGranted (line : Bytes) (w : World) : Prop :=
  ∀ tokens, Line.split line = .ok tokens → ∀ fault ∈ w.faults.take (tokens.count Pipeline.pipeToken), fault = none

theorem assemble_parse (granted : PipesGranted line w) (failed : assemble line w = (.error fault, after)) :
    fault.isParse = true := by
  rcases assemble_fault failed with refusal | ⟨_, tokens, same, splits, refused⟩
  · exact refusal.isParse
  · obtain ⟨e, denied⟩ := Pipeline.build_denied refused (by rw [same]; rfl)
    cases granted tokens splits _ denied

-- Nothing was done but to make and close pipes.
theorem only_pipes (footprint : Footprint w [] after) :
    ∃ calls, after.trace = calls ++ w.trace ∧
      ∀ call ∈ calls, (∃ reader writer, call = .piped reader writer) ∨ ∃ f, call = .closed f := by
  obtain ⟨calls, reached, only, _, names⟩ := footprint.calls
  have none : openings calls = [] := List.map_eq_nil_iff.mp names
  refine ⟨calls, reached.trace, ?_⟩
  intro call member
  have unopened : call.opens = [] := List.flatMap_eq_nil_iff.mp none call (List.mem_reverse.mpr member)
  have onFiles := only call member
  cases call with
  | piped reader writer => exact .inl ⟨reader, writer, rfl⟩
  | closed f => exact .inr ⟨f, rfl⟩
  | opened f => cases unopened
  | _ => cases onFiles

theorem assemble_substitution (line : Bytes) (w : World) (substitutes : Line.Substitutes line)
    (granted : PipesGranted line w) :
    ∃ cause token after, assemble line w = (.error (.parse cause token), after) ∧ Footprint w [] after := by
  have footprint := assemble_footprint line w
  rcases assembled : assemble line w with ⟨result, after⟩
  rw [assembled] at footprint
  cases result with
  | ok p => exact absurd substitutes (assemble_ok assembled).2.1
  | error fault =>
    have parse := assemble_parse granted assembled
    cases fault with
    | parse cause token => exact ⟨cause, token, after, rfl, footprint⟩
    | resource => cases parse
    | spawn => cases parse

-- The words of a line without command substitution pass all checks, those of redirection targets included.

theorem words_harmless (splits : Line.split line = .ok tokens) (clean : ¬Line.Substitutes line) {p : Pipeline}
    (args : p.stages.map (·.args) = Pipeline.partition tokens) :
    ∀ stage ∈ p.stages, ∀ word ∈ Redirection.combine stage.args, ¬Line.Substitutes word := by
  intro stage member word present
  rcases Redirection.mem_combine stage.args present with given | rfl
  · have inLine : stage.args ∈ Pipeline.partition tokens := by
      rw [← args]
      exact List.mem_map_of_mem member
    intro asks
    refine clean ((Line.split_substitutes splits).mp ?_)
    exact (Pipeline.partition_substitutes tokens).mp ⟨stage.args, inLine, word, given, asks⟩
  · decide

theorem words_pass (splits : Line.split line = .ok tokens) (clean : ¬Line.Substitutes line) {p : Pipeline}
    (args : p.stages.map (·.args) = Pipeline.partition tokens) :
    p.detectSubshells.1 = none ∧ p.detectSubshells.2.rejectSubshells = none ∧
      ∀ stage ∈ p.detectSubshells.2.stages, ∀ word ∈ Redirection.combine stage.args, Redirection.targetFault? word = none := by
  obtain ⟨detected, rejected⟩ := (built_substitutes splits args).mpr clean
  refine ⟨detected, rejected, ?_⟩
  intro stage member word present
  have sameArgs := (Pipeline.detectStages_args p.stages).trans args
  exact (Redirection.targetFault?_none word).mpr (words_harmless splits clean sameArgs stage member word present)

-- Command substitution is refused before anything happens, and nothing else is refused for it.
theorem interpret_substitution (line : Bytes) (s : Session) (w : World) :
    (Line.subshellSpans (trimmed line) ≠ .ok [] → PipesGranted (trimmed line) w →
      ∃ cause token refused calls,
        runLine (runScriptAt s.levels) (trimmed line) s w = ({ fault := some (.parse cause token) }, s, refused) ∧
        interpret line s w = ((1, none), { s with lastStatus := 1 },
          s.reported (trimmed line) { fault := some (.parse cause token) } (.parse cause token) refused) ∧
        (interpret line s w).2.2.trace = calls ++ w.trace ∧
        (∀ call ∈ calls, (∃ reader writer, call = .piped reader writer) ∨ ∃ f, call = .closed f) ∧
        refused.tree = w.tree ∧ refused.memory = w.memory ∧ refused.children = w.children ∧
        (interpret line s w).2.2.cwd = w.cwd) ∧
    (Line.subshellSpans (trimmed line) = .ok [] →
      (∀ tokens before p, Line.split (trimmed line) = .ok tokens → (Pipeline.build tokens before).1 = .ok p →
        p.detectSubshells.1 = none ∧ p.detectSubshells.2.rejectSubshells = none ∧
        ∀ stage ∈ p.detectSubshells.2.stages, ∀ word ∈ Redirection.combine stage.args,
          Redirection.targetFault? word = none) ∧
      ∀ p after, compile s.expand (trimmed line) w = (.ok p, after) →
        (p.classify Builtin.isBuiltin).rejectSubshells = none) := by
  constructor
  · intro spans granted
    have substitutes : Line.Substitutes (trimmed line) :=
      Decidable.of_not_not fun clean => spans ((Line.subshellSpans_nil _).mpr clean)
    have present : trimmed line ≠ [] := by
      intro blank
      rw [blank] at substitutes
      exact absurd substitutes (by decide)
    obtain ⟨cause, token, refused, assembled, footprint⟩ := assemble_substitution _ w substitutes granted
    have ran : runLine (runScriptAt s.levels) (trimmed line) s w = ({ fault := some (.parse cause token) }, s, refused) := by
      unfold runLine compile
      rw [assembled]
    have whole : interpret line s w = _ := interpretWith_failed present ran rfl
    have reporting := reported_reaches s (trimmed line) { fault := some (.parse cause token) } (.parse cause token) refused
    obtain ⟨calls, trace, only⟩ := only_pipes footprint
    refine ⟨cause, token, refused, calls, ran, whole, ?_, only, footprint.tree, footprint.memory, footprint.children, ?_⟩
    · rw [whole, reporting.trace, trace]
      rfl
    · rw [whole, reported_cwd, footprint.still.cwd]
  · intro spans
    have clean := (Line.subshellSpans_nil _).mp spans
    constructor
    · intro tokens before p splits built
      exact words_pass splits clean ((Pipeline.build_footprint tokens before).2.2 p built).1
    · intro p after compiled
      exact Pipeline.classify_passes _ (compile_ok s.expand compiled).2

-- A substitution behind a pipe and inside quotes, in a world that grants the pipe and nothing more; and
-- the same line with quotes that make it text.
theorem interpret_substitution_quoted :
    (Line.subshellSpans (trimmed (ascii "mecho > f | mecho \"$(x)\"")) ≠ .ok [] ∧
      PipesGranted (trimmed (ascii "mecho > f | mecho \"$(x)\"")) (console [none, some 24]) ∧
      ∃ cause token refused, interpret (ascii "mecho > f | mecho \"$(x)\"") talking (console [none, some 24]) =
        ((1, none), { talking with lastStatus := 1 },
          talking.reported (trimmed (ascii "mecho > f | mecho \"$(x)\"")) { fault := some (.parse cause token) }
            (.parse cause token) refused) ∧ refused.tree = Tree.empty) ∧
    Line.subshellSpans (trimmed (ascii "mecho > f | mecho '$(x)'")) = .ok [] ∧
      ∃ p after, compile talking.expand (trimmed (ascii "mecho > f | mecho '$(x)'")) (console []) = (.ok p, after) ∧
        (p.classify Builtin.isBuiltin).rejectSubshells = none := by
  have spans : Line.subshellSpans (trimmed (ascii "mecho > f | mecho \"$(x)\"")) ≠ .ok [] :=
    fun none => (Line.subshellSpans_nil _).mp none (by decide +kernel)
  have pipes : PipesGranted (trimmed (ascii "mecho > f | mecho \"$(x)\"")) (console [none, some 24]) := by
    intro tokens splits
    have known : (Line.split (trimmed (ascii "mecho > f | mecho \"$(x)\""))).toOption =
        some [ascii "mecho", ascii ">", ascii "f", ascii "|", ascii "mecho", ascii "\"$(x)\""] := by decide +kernel
    rw [splits] at known
    cases known
    decide
  have quoted : Line.subshellSpans (trimmed (ascii "mecho > f | mecho '$(x)'")) = .ok [] :=
    (Line.subshellSpans_nil _).mpr (by decide +kernel)
  obtain ⟨cause, token, refused, _, _, whole, _, _, tree, _⟩ :=
    (interpret_substitution (ascii "mecho > f | mecho \"$(x)\"") talking (console [none, some 24])).1 spans pipes
  refine ⟨⟨spans, pipes, cause, token, refused, whole, tree⟩, quoted, ?_⟩
  have compiles : (compile talking.expand (trimmed (ascii "mecho > f | mecho '$(x)'")) (console [])).1.isOk = true := by
    decide +kernel
  rcases compiled : compile talking.expand (trimmed (ascii "mecho > f | mecho '$(x)'")) (console []) with ⟨result, after⟩
  cases result with
  | error fault =>
    rw [compiled] at compiles
    cases compiles
  | ok p =>
    exact ⟨p, after, rfl,
      ((interpret_substitution (ascii "mecho > f | mecho '$(x)'") talking (console [])).2 quoted).2 p after compiled⟩

end Session

-- What the file at a path holds.
def World.contents (w : World) (path : Bytes) : Option Bytes :=
  ((w.tree.find w.cwd path).bind w.tree.data).toOption

-- What a line without command substitution can still be refused for once it has been taken apart.
def Cause.Late (cause : Cause) : Prop :=
  cause = .missingTarget ∨ cause = .unsupportedDuplication ∨ cause = .emptyStage

namespace Redirection

theorem Applying.late (run : Applying expand args s w result) (harmless : ∀ word ∈ args, ¬Line.Substitutes word)
    (failed : result.1 = .error (.parse cause token)) : cause.Late := by
  induction run with
  | finished => cases failed
  | duplicate =>
    cases failed
    exact .inr (.inl rfl)
  | word word rest s w single plain result filled after later ih =>
    cases result with
    | ok kept => cases failed
    | error fault =>
      cases failed
      exact ih (fun other member => harmless other (by simp [member])) rfl
  | unaimed =>
    cases failed
    exact .inl rfl
  | operator =>
    cases failed
    exact .inl rfl
  | refused word s w single slots found target rest plain fault refusal =>
    rw [(targetFault?_none target).mpr (harmless target (by simp))] at refusal
    cases refusal
  | stuck word s w single slots found target rest plain clean fault filled after stuck =>
    obtain ⟨_, _, placed⟩ := place_footprint expand word target slots s w
    rw [stuck] at placed
    cases failed
    have done := (placed (by rintro _ ⟨⟩; rfl)).2
    cases done
  | placed word s w single slots found target rest plain clean filled after done later ih =>
    exact ih (fun other member => harmless other (by simp [member])) failed

theorem applyStage_late (expand : Bytes → Bytes) (stage : Stage) (w : World)
    (harmless : ∀ word ∈ combine stage.args, ¬Line.Substitutes word)
    (failed : (applyStage expand stage w).1 = some (.parse cause token)) : cause.Late := by
  have run := applying expand (combine stage.args) stage.stdio w
  unfold applyStage at failed
  rcases applied : applyArgs expand (combine stage.args) stage.stdio w with ⟨result, slots, after⟩
  rw [applied] at run failed
  cases result with
  | error fault =>
    cases failed
    exact run.late harmless rfl
  | ok kept =>
    dsimp only at failed
    split at failed
    · cases failed
      exact .inr (.inr rfl)
    · cases failed

theorem applyStages_late (expand : Bytes → Bytes) (stages : List Stage) (w : World)
    (harmless : ∀ stage ∈ stages, ∀ word ∈ combine stage.args, ¬Line.Substitutes word)
    (failed : (applyStages expand stages w).1 = some (.parse cause token)) : cause.Late := by
  induction stages generalizing w with
  | nil => cases failed
  | cons stage others ih =>
    unfold applyStages at failed
    rcases applied : applyStage expand stage w with ⟨failure, changed, after⟩
    rw [applied] at failed
    cases failure with
    | some fault =>
      cases failed
      exact applyStage_late expand stage w (harmless stage (by simp)) (by rw [applied])
    | none => exact ih after (fun other member => harmless other (by simp [member])) failed

end Redirection

namespace Session
variable {s : Session}

theorem compile_late (expand : Bytes → Bytes) (refused : compile expand line w = (.error (.parse cause token), after)) :
    Line.accepted line = [] ∨ cause.Late := by
  cases compiling expand line w with
  | unassembled fault middle assembled answer =>
    rw [answer] at refused
    cases refused
    exact .inl (assemble_refused assembled rfl)
  | abandoned p middle later fault stages assembled applied answer =>
    rw [answer] at refused
    cases refused
    obtain ⟨⟨tokens, splits, args, _⟩, clean, _⟩ := assemble_ok assembled
    exact .inr (Redirection.applyStages_late expand p.stages middle (words_harmless splits clean args) (by rw [applied]))
  | done p middle later stages assembled applied answer =>
    rw [answer] at refused
    cases refused

-- A line that is refused for its text has had the redirections in front of the fault carried out, in the
-- order of the line, and nothing else. They are none if the fault shows before the first is looked at.
theorem interpret_parse_fault (line : Bytes) (s : Session) (w : World) (present : trimmed line ≠ [])
    (ran : runLine (runScriptAt s.levels) (trimmed line) s w = (result, next, refused))
    (failed : result.fault = some (.parse cause token)) :
    interpret line s w = ((1, none), { s with lastStatus := 1 },
      s.reported (trimmed line) result (.parse cause token) refused) ∧
    (∃ calls, refused.trace = calls ++ w.trace ∧ (∀ call ∈ calls, call.onFiles = true) ∧
      (openings calls).map refused.fileName =
        (Line.accepted (trimmed line)).map fun redirection => s.expand redirection.2) ∧
    refused.tree = ((Line.accepted (trimmed line)).map (Redirection.request s.expand)).foldl (Request.grant w.cwd) w.tree ∧
    refused.memory = w.memory ∧ refused.children = w.children ∧ refused.cwd = w.cwd ∧
    (Line.accepted (trimmed line) = [] ∨ cause.Late) ∧
    ((∀ redirection ∈ Line.accepted (trimmed line), redirection.1 = Redirection.inputToken) → refused.tree = w.tree) := by
  obtain ⟨rfl, ⟨compiled, same⟩ | ⟨_, _, _, _, _, spawned, _⟩⟩ := runLine_failed ran failed
  · have whole : interpret line next w = _ := interpretWith_failed present ran failed
    obtain ⟨opened, footprint, requests⟩ := compile_footprint next.expand (trimmed line) w
    rw [compiled] at footprint requests
    cases requests (by rintro _ ⟨⟩; rfl)
    obtain ⟨calls, reached, only, _, names⟩ := footprint.calls
    refine ⟨whole, ⟨calls, reached.trace, only, ?_⟩, footprint.tree, footprint.memory, footprint.children,
      footprint.still.cwd, compile_late _ compiled, ?_⟩
    · rw [names, List.map_map]
      rfl
    · intro reads
      rw [footprint.tree]
      apply Request.grant_reads
      intro request member
      obtain ⟨redirection, accepted, rfl⟩ := List.mem_map.mp member
      simp [Redirection.request, reads redirection accepted]
  · cases spawned

-- A file with something in it.
def written : World := (interpret (ascii "mecho precious > keep") talking (console [])).2.2

-- The second stage has no target to write to. By the time this shows, the file of the first is empty.
theorem interpret_parse_fault_empties :
    ∃ token, (runLine (runScriptAt talking.levels) (ascii "mecho new > keep | mecho >") talking written).1.fault =
        some (.parse .missingTarget token) ∧
      written.contents (ascii "keep") = some (ascii "precious\n") ∧
      (interpret (ascii "mecho new > keep | mecho >") talking written).2.2.contents (ascii "keep") = some [] :=
  ⟨ascii ">", by decide +kernel, by decide +kernel, by decide +kernel⟩

-- The same line, with what was carried out for it.
theorem interpret_parse_fault_missing :
    trimmed (ascii "mecho new > keep | mecho >") ≠ [] ∧
    ∃ result refused token, runLine (runScriptAt talking.levels) (trimmed (ascii "mecho new > keep | mecho >")) talking
        written = (result, talking, refused) ∧
      result.fault = some (.parse .missingTarget token) ∧
      Line.accepted (trimmed (ascii "mecho new > keep | mecho >")) = [(ascii ">", ascii "keep")] ∧
      refused.tree = Request.grant written.cwd written.tree ⟨.overwrite, ascii "keep"⟩ := by
  have present : trimmed (ascii "mecho new > keep | mecho >") ≠ [] := by decide +kernel
  refine ⟨present, ?_⟩
  have stopped : (runLine (runScriptAt talking.levels) (trimmed (ascii "mecho new > keep | mecho >")) talking
      written).1.fault = some (.parse .missingTarget (ascii ">")) := by decide +kernel
  have accepted : Line.accepted (trimmed (ascii "mecho new > keep | mecho >")) = [(ascii ">", ascii "keep")] := by
    decide +kernel
  rcases ran : runLine (runScriptAt talking.levels) (trimmed (ascii "mecho new > keep | mecho >")) talking written with
    ⟨result, next, refused⟩
  rw [ran] at stopped
  obtain ⟨rfl, _⟩ := runLine_failed ran stopped
  obtain ⟨_, _, tree, _⟩ := interpret_parse_fault _ talking written present ran stopped
  have request : Redirection.request talking.expand (ascii ">", ascii "keep") = ⟨.overwrite, ascii "keep"⟩ := by
    decide +kernel
  rw [accepted, List.map_singleton, request, List.foldl_cons, List.foldl_nil] at tree
  exact ⟨result, refused, _, rfl, stopped, accepted, tree⟩

end Session
end
end LineShell
