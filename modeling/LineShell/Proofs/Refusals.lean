import LineShell.Proofs.Compiling

namespace LineShell

-- The reasons for which the text of a line is refused.
def Cause.reasons : List Cause :=
  [unterminatedQuote, unterminatedSubshell, emptyStage, missingTarget, unsupportedDuplication, substitution]

def Refusal (fault : Fault) : Prop := ∃ cause token, cause ∈ Cause.reasons ∧ fault = .parse cause token

theorem refusal_of (reason : cause ∈ Cause.reasons) (token : Bytes) : Refusal (.parse cause token) :=
  ⟨cause, token, reason, rfl⟩

theorem Refusal.isParse (refusal : Refusal fault) : fault.isParse = true := by
  obtain ⟨_, _, _, rfl⟩ := refusal
  rfl

namespace Line

theorem map_error {result : Except Fault α} (failed : f <$> result = .error fault) : result = .error fault := by
  cases result with
  | ok a => cases failed
  | error e => cases failed; rfl

theorem quoteSpansFrom_refusal (quote : UInt8) (i : Nat) (unpaired : Option (Nat × Bytes)) (text : Bytes)
    (failed : quoteSpansFrom quote i unpaired text = .error fault) : Refusal fault := by
  fun_induction quoteSpansFrom quote i unpaired text
  case case1 => cases failed
  case case2 =>
    cases failed
    exact refusal_of (by decide) _
  case case6 ih => exact ih (map_error failed)
  all_goals
    rename_i ih
    exact ih failed

theorem subshellSpansFrom_refusal (i : Nat) (scan : SubshellScan) (text : Bytes)
    (failed : subshellSpansFrom i scan text = .error fault) : Refusal fault := by
  fun_induction subshellSpansFrom i scan text
  case case1 => cases failed
  case case2 =>
    cases failed
    exact refusal_of (by decide) _
  case case11 ih => exact ih (map_error failed)
  all_goals
    rename_i ih
    exact ih failed

theorem split_refusal (failed : split line = .error fault) : Refusal fault := by
  unfold split protectedSpans at failed
  rcases single : quoteSpans line Bytes.singleQuote with e | spans
  · rw [single] at failed
    cases failed
    exact quoteSpansFrom_refusal _ _ _ _ single
  · rcases double : quoteSpans line Bytes.doubleQuote with e | more
    · rw [single, double] at failed
      cases failed
      exact quoteSpansFrom_refusal _ _ _ _ double
    · rcases regions : subshellSpans line with e | others
      · rw [single, double, regions] at failed
        cases failed
        exact subshellSpansFrom_refusal _ _ _ regions
      · rw [single, double, regions] at failed
        cases failed

end Line

theorem Redirection.targetFault?_refusal (found : targetFault? target = some fault) : Refusal fault := by
  unfold targetFault? at found
  split at found
  · rename_i e refused
    cases found
    exact Line.subshellSpansFrom_refusal _ _ _ refused
  · cases found
  · cases found
    exact refusal_of (by decide) _

namespace Pipeline

theorem detectArgs_refusal (i : Nat) (args : List Bytes) (failed : (detectArgs i args).1 = some fault) :
    Refusal fault := by
  induction args generalizing i with
  | nil => cases failed
  | cons arg others ih =>
    unfold detectArgs at failed
    split at failed
    · rename_i e refused
      cases failed
      exact Line.subshellSpansFrom_refusal _ _ _ refused
    · exact ih (i + 1) failed

theorem detectStages_refusal (stages : List Stage) (failed : (detectStages stages).1 = some fault) :
    Refusal fault := by
  induction stages with
  | nil => cases failed
  | cons stage others ih =>
    unfold detectStages at failed
    split at failed
    · rename_i e found refused
      cases failed
      exact detectArgs_refusal 0 stage.args (by rw [refused])
    · exact ih failed

theorem rejectStages_refusal (stages : List Stage) (refused : rejectStages stages = some fault) :
    Refusal fault := by
  induction stages with
  | nil => cases refused
  | cons stage others ih =>
    unfold rejectStages at refused
    split at refused
    · exact ih refused
    · cases refused
      exact refusal_of (by decide) _

theorem build_fault (failed : build tokens w = (.error fault, after)) :
    Refusal fault ∨ ∃ e, fault = .resource (ascii "pipe") [] (.onCall (ascii "pipe2") (.errno e)) := by
  cases joining tokens w with
  | refused first others joined e after stages connected answer =>
    rw [answer] at failed
    cases failed
    exact .inr ⟨e, rfl⟩
  | empty first others joined after stages connected lacks answer =>
    rw [answer] at failed
    cases failed
    exact .inl (refusal_of (by decide) _)
  | done first others joined after stages connected full answer =>
    rw [answer] at failed
    cases failed

end Pipeline

theorem Session.assemble_fault (failed : assemble line w = (.error fault, after)) :
    Refusal fault ∨ ∃ e tokens, fault = .resource (ascii "pipe") [] (.onCall (ascii "pipe2") (.errno e)) ∧ Line.split line = .ok tokens ∧
      Pipeline.build tokens w = (.error fault, after) := by
  cases assembling line w with
  | unsplit why splits answer =>
    rw [answer] at failed
    cases failed
    exact .inl (Line.split_refusal splits)
  | unbuilt tokens why left splits built answer =>
    rw [answer] at failed
    cases failed
    rcases Pipeline.build_fault built with refusal | ⟨e, same⟩
    · exact .inl refusal
    · exact .inr ⟨e, tokens, same, splits, built⟩
  | @abandoned found tokens p left why middle splits built detects refused answer =>
    rw [answer] at failed
    cases failed
    cases found with
    | some why =>
      cases refused
      exact .inl (Pipeline.detectStages_refusal _ (congrArg Prod.fst detects))
    | none => exact .inl (Pipeline.rejectStages_refusal _ refused)
  | done tokens p left middle splits built detects clean answer =>
    rw [answer] at failed
    cases failed

end LineShell
