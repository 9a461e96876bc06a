import LineShell.Proofs.Compiling
import LineShell.Proofs.Footprint
import LineShell.Proofs.Substitution

-- If no call fails, the words of a line alone decide which of its redirections are carried out.
namespace LineShell
open World

section
variable {w after : World}

namespace Redirection

-- The redirection targets among some arguments, in order and as they are written.
def targets : List Bytes → List Bytes
  | operator :: target :: rest =>
    if (slots? operator).isSome then target :: targets rest else targets (target :: rest)
  | _ => []

def request (expand : Bytes → Bytes) (redirection : Bytes × Bytes) : Request :=
  ⟨if redirection.1 = inputToken then .read else .overwrite, expand redirection.2⟩

-- The words of a stage as they are read: the redirections in front of the first word that is refused,
-- each an operator with its target, and the arguments that are left if none is.
def review : List Bytes → List (Bytes × Bytes) × Option (List Bytes)
  | [] => ([], some [])
  | token :: rest =>
    if token = duplicateToken then ([], none)
    else
      match slots? token with
      | none => ((review rest).1, (review rest).2.map (token :: ·))
      | some _ =>
        match rest with
        | [] => ([], none)
        | target :: rest =>
          if isOperator target ∨ Line.Substitutes target then ([], none)
          else ((token, target) :: (review rest).1, (review rest).2)

theorem review_duplicate (rest : List Bytes) : review (duplicateToken :: rest) = ([], none) := by
  rw [review.eq_def]
  simp

theorem review_word (single : token ≠ duplicateToken) (word : slots? token = none) (rest : List Bytes) :
    review (token :: rest) = ((review rest).1, (review rest).2.map (token :: ·)) := by
  rw [review.eq_def]
  simp [single, word]

theorem review_operator (single : token ≠ duplicateToken) (found : slots? token = some slots) (target : Bytes)
    (rest : List Bytes) :
    review (token :: target :: rest) = if isOperator target ∨ Line.Substitutes target then ([], none)
      else ((token, target) :: (review rest).1, (review rest).2) := by
  rw [review.eq_def]
  simp [single, found]

-- The redirections of a line whose stages are given by their words, up to the first stage that has a
-- refused word or no argument left.
def reviewStages : List (List Bytes) → List (Bytes × Bytes)
  | [] => []
  | args :: rest =>
    match review (combine args) with
    | (found, some (_ :: _)) => found ++ reviewStages rest
    | (found, _) => found

-- The result does not come from a failed call.
def Textual (result : Except Fault α) : Prop := ∀ fault, result = .error fault → fault.isParse = true

theorem fill_footprint (f : FileId) (slots : List Slot) (s : Stdio) (w : World) : Footprint w [] (fill f slots s w).2.2 := by
  induction slots generalizing s w with
  | nil => exact Footprint.refl w
  | cons slot others ih =>
    have replaced := s.replace_footprint slot (some f) w
    unfold fill
    split
    · rename_i e next after stuck
      rwa [stuck] at replaced
    · rename_i next after done
      rw [done] at replaced
      exact replaced.then_none (ih next after)

theorem fill_fault (f : FileId) (slots : List Slot) (s : Stdio) (w : World) (failed : (fill f slots s w).1 = .error fault) :
    fault.isParse = false := by
  induction slots generalizing s w with
  | nil => cases failed
  | cons slot others ih =>
    unfold fill at failed
    split at failed
    · rename_i e next after stuck
      cases failed
      exact s.replace_fault slot (some f) w (by rw [stuck])
    · rename_i next after done
      exact ih next after failed

theorem place_footprint (expand : Bytes → Bytes) (operator target : Bytes) (slots : List Slot) (s : Stdio) (w : World) :
    ∃ opened, Footprint w opened (place operator (expand target) slots s w).2.2 ∧
      (Textual (place operator (expand target) slots s w).1 → opened = [request expand (operator, target)] ∧
        (place operator (expand target) slots s w).1 = .ok ()) := by
  unfold place openTarget
  rcases opening : w.openFile (expand target) (if operator = inputToken then .read else .overwrite) with ⟨result, middle⟩
  cases result with
  | error e =>
    refine ⟨[], openFile_refused_footprint opening, ?_⟩
    intro textual
    cases textual _ rfl
  | ok f =>
    refine ⟨[request expand (operator, target)], (openFile_footprint opening).then_none (fill_footprint f slots s middle), ?_⟩
    intro textual
    refine ⟨rfl, ?_⟩
    dsimp only at textual ⊢
    cases filled : (fill f slots s middle).1 with
    | ok done => rfl
    | error fault =>
      have parse := textual fault filled
      rw [fill_fault f slots s middle filled] at parse
      cases parse

theorem Applying.footprint (run : Applying expand args s w result) :
    ∃ opened, Footprint w opened result.2.2 ∧
      (Textual result.1 → opened = (review args).1.map (request expand) ∧ result.1.toOption = (review args).2) := by
  induction run with
  | finished s w => exact ⟨[], Footprint.refl w, fun _ => ⟨rfl, rfl⟩⟩
  | duplicate rest s w => exact ⟨[], Footprint.refl w, fun _ => by rw [review_duplicate]; exact ⟨rfl, rfl⟩⟩
  | word token rest s w single plain result filled after later ih =>
    obtain ⟨opened, footprint, reviewed⟩ := ih
    refine ⟨opened, footprint, ?_⟩
    intro textual
    have before : Textual result := by
      rintro fault rfl
      exact textual fault rfl
    obtain ⟨requests, left⟩ := reviewed before
    rw [review_word single plain, ← left]
    cases result with
    | ok kept => exact ⟨requests, rfl⟩
    | error fault => exact ⟨requests, rfl⟩
  | unaimed token s w single slots found =>
    exact ⟨[], Footprint.refl w, fun _ => by simp [review, single, found, Except.toOption]⟩
  | operator token s w single slots found target rest operator =>
    exact ⟨[], Footprint.refl w, fun _ => by rw [review_operator single found, if_pos (.inl operator)]; exact ⟨rfl, rfl⟩⟩
  | refused token s w single slots found target rest plain fault refusal =>
    have asks : Line.Substitutes target := by
      apply Classical.byContradiction
      intro clean
      rw [(targetFault?_none target).mpr clean] at refusal
      cases refusal
    exact ⟨[], Footprint.refl w, fun _ => by rw [review_operator single found, if_pos (.inr asks)]; exact ⟨rfl, rfl⟩⟩
  | stuck token s w single slots found target rest plain clean fault filled after failed =>
    obtain ⟨opened, footprint, placed⟩ := place_footprint expand token target slots s w
    rw [failed] at footprint placed
    refine ⟨opened, footprint, ?_⟩
    intro textual
    cases (placed fun why same => textual why (congrArg _ (Except.error.inj same))).2
  | placed token s w single slots found target rest plain clean filled after done later ih =>
    obtain ⟨opened, footprint, placed⟩ := place_footprint expand token target slots s w
    rw [done] at footprint placed
    obtain ⟨rfl, _⟩ := placed (by rintro fault ⟨⟩)
    obtain ⟨more, following, reviewed⟩ := ih
    refine ⟨_, footprint.trans following, ?_⟩
    intro textual
    obtain ⟨rfl, left⟩ := reviewed textual
    have harmless : ¬Line.Substitutes target := (targetFault?_none target).mp clean
    rw [review_operator single found, if_neg (by simp [plain, harmless])]
    exact ⟨rfl, left⟩

theorem applyStage_footprint (expand : Bytes → Bytes) (stage : Stage) (w : World) :
    ∃ opened, Footprint w opened (applyStage expand stage w).2.2 ∧
      ((∀ fault, (applyStage expand stage w).1 = some fault → fault.isParse = true) →
        opened = (review (combine stage.args)).1.map (request expand) ∧
        ((applyStage expand stage w).1 = none ↔ ∃ first more, (review (combine stage.args)).2 = some (first :: more))) := by
  obtain ⟨opened, footprint, reviewed⟩ := (applying expand (combine stage.args) stage.stdio w).footprint
  unfold applyStage
  rcases applied : applyArgs expand (combine stage.args) stage.stdio w with ⟨result, slots, after⟩
  rw [applied] at footprint reviewed
  refine ⟨opened, ?_⟩
  cases result with
  | error fault =>
    refine ⟨footprint, ?_⟩
    intro textual
    obtain ⟨requests, left⟩ := reviewed (by rintro _ ⟨⟩; exact textual fault rfl)
    refine ⟨requests, ?_⟩
    rw [← left]
    simp [Except.toOption]
  | ok kept =>
    refine ⟨footprint, ?_⟩
    intro _
    obtain ⟨requests, left⟩ := reviewed (by rintro _ ⟨⟩)
    refine ⟨requests, ?_⟩
    rw [← left]
    cases kept with
    | nil => simp [Except.toOption]
    | cons first more => simp [Except.toOption]

theorem reviewStages_refused (unfinished : ¬∃ first more, (review (combine args)).2 = some (first :: more))
    (rest : List (List Bytes)) : reviewStages (args :: rest) = (review (combine args)).1 := by
  unfold reviewStages
  split
  · rename_i found first more reviewed
    exact absurd ⟨first, more, by rw [reviewed]⟩ unfinished
  · rename_i found left _ reviewed
    rw [reviewed]

theorem reviewStages_passed (finished : (review (combine args)).2 = some (first :: more)) (rest : List (List Bytes)) :
    reviewStages (args :: rest) = (review (combine args)).1 ++ reviewStages rest := by
  rcases reviewed : review (combine args) with ⟨found, left⟩
  rw [reviewed] at finished
  dsimp only at finished
  subst finished
  rw [reviewStages, reviewed]

theorem applyStages_footprint (expand : Bytes → Bytes) (stages : List Stage) (w : World) :
    ∃ opened, Footprint w opened (applyStages expand stages w).2.2 ∧
      ((∀ fault, (applyStages expand stages w).1 = some fault → fault.isParse = true) →
        opened = (reviewStages (stages.map (·.args))).map (request expand)) := by
  induction stages generalizing w with
  | nil => exact ⟨[], Footprint.refl w, fun _ => rfl⟩
  | cons stage others ih =>
    obtain ⟨opened, footprint, reviewed⟩ := applyStage_footprint expand stage w
    unfold applyStages
    rcases applied : applyStage expand stage w with ⟨failure, changed, after⟩
    rw [applied] at footprint reviewed
    cases failure with
    | some fault =>
      refine ⟨opened, footprint, ?_⟩
      intro textual
      obtain ⟨requests, finished⟩ := reviewed (by rintro _ ⟨⟩; exact textual fault rfl)
      rw [List.map_cons, reviewStages_refused (fun complete => by cases finished.mpr complete), requests]
    | none =>
      obtain ⟨requests, finished⟩ := reviewed (by rintro _ ⟨⟩)
      obtain ⟨first, more, complete⟩ := finished.mp rfl
      obtain ⟨later, following, reviewedLater⟩ := ih after
      refine ⟨opened ++ later, footprint.trans following, ?_⟩
      intro textual
      rw [List.map_cons, reviewStages_passed complete, List.map_append, requests, reviewedLater textual]

-- Every target of a stage that is read to its end has been accepted.
theorem targets_word (word : slots? token = none) (rest : List Bytes) : targets (token :: rest) = targets rest := by
  cases rest with
  | nil => simp [targets]
  | cons next others => simp [targets, word]

theorem review_targets (args : List Bytes) (finished : (review args).2 = some kept) :
    (review args).1.map (·.2) = targets args := by
  fun_induction review args generalizing kept with
  | case1 => rfl
  | case3 token rest single word ih =>
    obtain ⟨left, complete, _⟩ := Option.map_eq_some_iff.mp finished
    rw [targets_word word]
    exact ih complete
  | case6 token single slots found target rest plain ih =>
    simp [targets, found, ih finished]
  | _ => cases finished

theorem applyStages_targets (expand : Bytes → Bytes) (stages : List Stage) (w : World)
    (done : (applyStages expand stages w).1 = none) :
    (reviewStages (stages.map (·.args))).map (·.2) = stages.flatMap fun stage => targets (combine stage.args) := by
  induction stages generalizing w with
  | nil => rfl
  | cons stage others ih =>
    obtain ⟨_, _, reviewed⟩ := applyStage_footprint expand stage w
    unfold applyStages at done
    rcases applied : applyStage expand stage w with ⟨failure, changed, after⟩
    rw [applied] at reviewed done
    cases failure with
    | some fault => cases done
    | none =>
      obtain ⟨first, more, complete⟩ := (reviewed (by rintro _ ⟨⟩)).2.mp rfl
      rw [List.map_cons, reviewStages_passed complete, List.map_append, review_targets _ complete, ih after done]
      rfl

theorem applyStages_subshells (expand : Bytes → Bytes) (stages : List Stage) (w : World) :
    (applyStages expand stages w).2.1.map (·.subshells) = stages.map (·.subshells) := by
  induction stages generalizing w with
  | nil => rfl
  | cons stage others ih =>
    have first : (applyStage expand stage w).2.1.subshells = stage.subshells := by
      unfold applyStage
      split <;> rfl
    unfold applyStages
    split
    · rename_i failed
      rw [failed] at first
      exact congrArg (· :: _) first
    · rename_i done
      rw [done] at first
      exact List.cons_eq_cons.mpr ⟨first, ih _⟩

end Redirection

namespace Line

-- The targets of a line, one for each of its redirection operators.
def targets (line : Bytes) : List Bytes :=
  match split line with
  | .error _ => []
  | .ok tokens => (Pipeline.partition tokens).flatMap fun args => Redirection.targets (Redirection.combine args)

-- The redirections of a line that are carried out, if all calls are granted, before the line is refused.
-- A stage without words and command substitution are noticed first, the rest word by word.
def accepted (line : Bytes) : List (Bytes × Bytes) :=
  match split line with
  | .error _ => []
  | .ok tokens =>
    if (Pipeline.partition tokens).any (·.isEmpty) ∨ Substitutes line then []
    else Redirection.reviewStages (Pipeline.partition tokens)

end Line

namespace Pipeline

-- Connecting stages changes no arguments.
theorem connect_footprint (first : Stage) (others : List Stage) (w : World) :
    (connect first others w).2.1.map (·.args) = (first :: others).map (·.args) ∧
      Footprint w [] (connect first others w).2.2 := by
  induction others generalizing first w with
  | nil => exact ⟨rfl, Footprint.refl w⟩
  | cons next others ih =>
    unfold connect
    split
    · rename_i e after refused
      exact ⟨rfl, pipe_footprint refused⟩
    · rename_i reader writer after made
      obtain ⟨sameArgs, footprint⟩ := ih { next with stdio := next.stdio.set .input (some reader) } after
      exact ⟨congrArg (first.args :: ·) sameArgs, (pipe_footprint made).then_none footprint⟩

-- Building either fails for want of a pipe or is decided by the words.
theorem build_footprint (tokens : List Bytes) (w : World) :
    Footprint w [] (build tokens w).2 ∧
      (∀ fault, (build tokens w).1 = .error fault → fault.isParse = true → (partition tokens).any (·.isEmpty) = true) ∧
      ∀ p, (build tokens w).1 = .ok p →
        p.stages.map (·.args) = partition tokens ∧ (partition tokens).any (·.isEmpty) = false := by
  have given : ∀ {first others} {joined : List Stage}, unjoined tokens = first :: others →
      joined.map (·.args) = (first :: others).map (·.args) → joined.map (·.args) = partition tokens :=
    fun stages same => by rw [same, ← stages, unjoined_args]
  have lacking : ∀ {joined : List Stage}, joined.map (·.args) = partition tokens →
      joined.any (·.args.isEmpty) = (partition tokens).any (·.isEmpty) := by
    intro joined same
    rw [← same, List.any_map]
    rfl
  cases joining tokens w with
  | refused first others joined e after stages connected answer =>
    have footprint := (connect_footprint first others w).2
    rw [connected] at footprint
    rw [answer]
    refine ⟨footprint.then_none (close_footprint _ after), ?_, by rintro _ ⟨⟩⟩
    rintro _ ⟨⟩ wrong
    cases wrong
  | empty first others joined after stages connected lacks answer =>
    obtain ⟨sameArgs, footprint⟩ := connect_footprint first others w
    rw [connected] at sameArgs footprint
    rw [answer]
    exact ⟨footprint.then_none (close_footprint _ after), fun _ _ _ => lacking (given stages sameArgs) ▸ lacks, by rintro _ ⟨⟩⟩
  | done first others joined after stages connected full answer =>
    obtain ⟨sameArgs, footprint⟩ := connect_footprint first others w
    rw [connected] at sameArgs footprint
    rw [answer]
    refine ⟨footprint, by rintro _ ⟨⟩, ?_⟩
    rintro _ ⟨⟩
    exact ⟨given stages sameArgs, lacking (given stages sameArgs) ▸ full⟩

theorem detectStages_args (stages : List Stage) : (detectStages stages).2.map (·.args) = stages.map (·.args) := by
  induction stages with
  | nil => rfl
  | cons stage others ih =>
    unfold detectStages
    split
    · rfl
    · simpa using ih

-- Whether stages pass the check depends on the regions that were found in them, not on their arguments.
theorem rejectStages_none (stages : List Stage) :
    rejectStages stages = none ↔ ∀ regions ∈ stages.map (·.subshells), regions = [] := by
  induction stages with
  | nil => simp [rejectStages]
  | cons stage rest ih =>
    rw [List.map_cons, List.forall_mem_cons, ← ih, rejectStages]
    cases stage.subshells with
    | nil => simp
    | cons region others => simp

end Pipeline

namespace Session

-- Until the redirections are applied no file is opened, whatever becomes of the line.
theorem assemble_footprint (line : Bytes) (w : World) : Footprint w [] (assemble line w).2 := by
  cases assembling line w with
  | unsplit fault splits answer =>
    rw [answer]
    exact Footprint.refl w
  | unbuilt tokens fault after splits built answer =>
    obtain ⟨footprint, _⟩ := Pipeline.build_footprint tokens w
    rw [built] at footprint
    rw [answer]
    exact footprint
  | abandoned tokens p left fault after splits built detects refused answer =>
    obtain ⟨footprint, _⟩ := Pipeline.build_footprint tokens w
    rw [built] at footprint
    rw [answer]
    exact footprint.then_none (left.close_footprint after)
  | done tokens p left after splits built detects clean answer =>
    obtain ⟨footprint, _⟩ := Pipeline.build_footprint tokens w
    rw [built] at footprint
    rw [answer]
    exact footprint

-- The words of a pipeline ask for command substitution if and only if the line does.
theorem built_substitutes (splits : Line.split line = .ok tokens) {p : Pipeline}
    (args : p.stages.map (·.args) = Pipeline.partition tokens) :
    (p.detectSubshells.1 = none ∧ p.detectSubshells.2.rejectSubshells = none) ↔ ¬Line.Substitutes line := by
  refine (Pipeline.detectStages_passes p.stages).trans ?_
  rw [← Line.split_substitutes splits, ← Pipeline.partition_substitutes, ← args]
  simp

theorem assemble_ok (assembled : assemble line w = (.ok p, after)) :
    (∃ tokens, Line.split line = .ok tokens ∧ p.stages.map (·.args) = Pipeline.partition tokens ∧
      (Pipeline.partition tokens).any (·.isEmpty) = false) ∧ ¬Line.Substitutes line ∧ p.rejectSubshells = none := by
  obtain ⟨tokens, q, splits, built, detects, clean⟩ := assemble_done assembled
  obtain ⟨args, full⟩ := (Pipeline.build_footprint tokens w).2.2 q (by rw [built])
  have passes := built_substitutes splits args
  rw [detects] at passes
  have kept : p.stages = (Pipeline.detectStages q.stages).2 := congrArg (·.2.stages) detects.symm
  exact ⟨⟨tokens, splits, by rw [kept, Pipeline.detectStages_args, args], full⟩, passes.mp ⟨rfl, clean⟩, clean⟩

theorem assemble_refused (refused : assemble line w = (.error fault, after)) (parse : fault.isParse = true) :
    Line.accepted line = [] := by
  unfold Line.accepted
  cases assembling line w with
  | unsplit why splits answer => rw [splits]
  | unbuilt tokens why after splits built answer =>
    rw [answer] at refused
    cases refused
    rw [splits]
    exact if_pos (.inl ((Pipeline.build_footprint tokens w).2.1 fault (by rw [built]) parse))
  | abandoned tokens p left why after splits built detects stopped answer =>
    rw [splits]
    refine if_pos (.inr (Classical.byContradiction fun clean => ?_))
    obtain ⟨args, _⟩ := (Pipeline.build_footprint tokens w).2.2 p (by rw [built])
    obtain ⟨none, passed⟩ := (built_substitutes splits args).mpr clean
    rw [detects] at none passed
    cases none
    rw [Option.none_or, passed] at stopped
    cases stopped
  | done tokens p left after splits built detects clean answer =>
    rw [answer] at refused
    cases refused

theorem accepted_reviewed (splits : Line.split line = .ok tokens) (full : (Pipeline.partition tokens).any (·.isEmpty) = false)
    (clean : ¬Line.Substitutes line) : Line.accepted line = Redirection.reviewStages (Pipeline.partition tokens) := by
  unfold Line.accepted
  rw [splits]
  exact if_neg (by simp [full, clean])

theorem compile_footprint (expand : Bytes → Bytes) (line : Bytes) (w : World) :
    ∃ opened, Footprint w opened (compile expand line w).2 ∧
      (Redirection.Textual (compile expand line w).1 →
        opened = (Line.accepted line).map (Redirection.request expand)) := by
  have assembling := assemble_footprint line w
  cases compiling expand line w with
  | unassembled fault after assembled answer =>
    rw [assembled] at assembling
    rw [answer]
    refine ⟨[], assembling, ?_⟩
    intro textual
    rw [assemble_refused assembled (textual fault rfl)]
    rfl
  | abandoned p middle after fault stages assembled applied answer =>
    obtain ⟨⟨tokens, splits, args, full⟩, clean, _⟩ := assemble_ok assembled
    obtain ⟨opened, footprint, reviewed⟩ := Redirection.applyStages_footprint expand p.stages middle
    rw [assembled] at assembling
    rw [args, ← accepted_reviewed splits full clean] at reviewed
    rw [applied] at footprint reviewed
    rw [answer]
    refine ⟨opened, (assembling.after_none footprint).then_none (Pipeline.close_footprint _ after), ?_⟩
    intro textual
    exact reviewed (by rintro _ ⟨⟩; exact textual fault rfl)
  | done p middle after stages assembled applied answer =>
    obtain ⟨⟨tokens, splits, args, full⟩, clean, _⟩ := assemble_ok assembled
    obtain ⟨opened, footprint, reviewed⟩ := Redirection.applyStages_footprint expand p.stages middle
    rw [assembled] at assembling
    rw [args, ← accepted_reviewed splits full clean] at reviewed
    rw [applied] at footprint reviewed
    rw [answer]
    exact ⟨opened, assembling.after_none footprint, fun _ => reviewed (by rintro _ ⟨⟩)⟩

-- A line that compiles has had all its targets opened, and would pass the check once more.
theorem compile_ok (expand : Bytes → Bytes) (compiled : compile expand line w = (.ok p, after)) :
    (Line.accepted line).map (·.2) = Line.targets line ∧ p.rejectSubshells = none := by
  obtain ⟨q, middle, stages, assembled, applied, rfl⟩ := compile_done compiled
  obtain ⟨⟨tokens, splits, args, full⟩, clean, passed⟩ := assemble_ok assembled
  have targets := Redirection.applyStages_targets expand q.stages middle
  have kept := Redirection.applyStages_subshells expand q.stages middle
  rw [applied] at targets kept
  constructor
  · rw [accepted_reviewed splits full clean, ← args, targets rfl]
    unfold Line.targets
    rw [splits]
    dsimp only
    rw [← args, List.flatMap_map]
  · refine (Pipeline.rejectStages_none _).mpr ?_
    rw [show (Pipeline.substitute ⟨stages⟩ expand).stages.map (·.subshells) = q.stages.map (·.subshells) by
      rw [← kept]; simp [Pipeline.substitute]]
    exact (Pipeline.rejectStages_none q.stages).mp passed

end Session
end
end LineShell
