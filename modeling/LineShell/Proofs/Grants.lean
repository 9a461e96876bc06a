import LineShell.Session.Interpreter
import LineShell.Proofs.Descriptors
import LineShell.Proofs.Refusals

-- What a stage holds is open, so a close call has nothing to complain about.
namespace LineShell
open World

-- No call is refused from here on.
def Granted (w : World) : Prop := ∀ fault ∈ w.faults, fault = none

theorem refused_of_not_granted (refused : ¬Granted w) : ∃ e, some e ∈ w.faults := by
  refine Classical.byContradiction fun none => refused ?_
  intro fault member
  cases fault with
  | none => rfl
  | some e => exact absurd ⟨e, member⟩ none

-- A fault of the text or of a redirection target, not one of a refused pipe or close call.
def Ordinary (fault : Fault) : Prop :=
  fault.isParse = true ∨ ∃ path cause, fault = .resource (ascii "open") path cause

section
variable {start w after : World} {rest : FileId → Nat}

namespace World

theorem nextFault_granted (granted : Granted w) (asked : w.nextFault = (fault, after)) :
    fault = none ∧ Granted after := by
  unfold nextFault at asked
  split at asked
  · cases asked
    exact ⟨rfl, granted⟩
  · rename_i first others faults
    cases asked
    unfold Granted at granted
    rw [faults] at granted
    exact ⟨granted _ (by simp), fun fault later => granted fault (by simp [later])⟩

theorem isClosed_present (known : w.isClosed f = some flag) : f < w.files.size := by
  obtain ⟨file, found, _⟩ := Option.map_eq_some_iff.mp known
  exact (Array.getElem?_eq_some_iff.mp found).1

theorem close_granted (granted : Granted w) (isOpen : w.isClosed f = some false) :
    (w.close f).1 = .ok () ∧ Granted (w.close f).2 := by
  obtain ⟨file, found, unclosed⟩ : ∃ file, w.file? f = some file ∧ file.closed = false := by
    simpa [isClosed] using isOpen
  have shut : Granted (w.shut f file) := granted
  rw [close_open found unclosed]
  split
  · rename_i e after asked
    cases (nextFault_granted shut asked).1
  · rename_i after asked
    exact ⟨rfl, (nextFault_granted shut asked).2⟩

theorem pipe_granted (granted : Granted w) (made : w.pipe = (result, after)) :
    (∃ ends, result = .ok ends) ∧ Granted after := by
  unfold pipe at made
  split at made
  · rename_i asked
    cases (nextFault_granted granted asked).1
  · rename_i asked
    cases made
    exact ⟨⟨_, rfl⟩, (nextFault_granted granted asked).2⟩

theorem openFile_keeps_granted (granted : Granted w) (opened : w.openFile path mode = (result, after)) :
    Granted after := by
  unfold openFile at opened
  split at opened
  · rename_i asked
    cases (nextFault_granted granted asked).1
  · rename_i asked
    have grantedLater := (nextFault_granted granted asked).2
    split at opened
    · cases opened
      exact grantedLater
    · cases opened
      exact grantedLater

end World

namespace Stdio

theorem drop_granted (s : Stdio) (granted : Granted w) (isOpen : w.isClosed f = some false) :
    (s.drop f w).1 = .ok () ∧ Granted (s.drop f w).2 := by
  have closed := close_granted granted isOpen
  unfold drop
  split
  · exact ⟨rfl, granted⟩
  · revert closed
    rcases w.close f with ⟨result, after⟩
    rintro ⟨fine, grantedLater⟩
    cases fine
    exact ⟨rfl, grantedLater⟩

-- A file that is still in a slot is not closed.
theorem drop_keeps_open (s : Stdio) (f : FileId) (held : s.refers g = true) (isOpen : w.isClosed g = some false) :
    (s.drop f w).2.isClosed g = some false := by
  obtain ⟨⟨calls, reached, _, count⟩, _⟩ := s.drop_closing f w
  have untouched : Call.closed g ∉ calls := by
    apply List.count_eq_zero.mp
    rw [count g, if_neg]
    rintro ⟨rfl, free⟩
    rw [held] at free
    cases free
  rw [reached.flags g (isClosed_present isOpen), if_neg untouched]
  exact isOpen

theorem replace_granted (s : Stdio) (slot : Slot) (granted : Granted w)
    (allOpen : ∀ g, s.refers g = true → w.isClosed g = some false) (new : w.isClosed f = some false) :
    (s.replace slot (some f) w).1 = .ok () ∧ Granted (s.replace slot (some f) w).2.2 ∧
      ∀ g, refers (s.set slot (some f)) g = true → (s.replace slot (some f) w).2.2.isClosed g = some false := by
  have covered : ∀ g, refers (s.set slot (some f)) g = true → w.isClosed g = some false := by
    intro g held
    rcases (refers_set s slot (some f) g).mp (.inl held) with old | same
    · exact allOpen g old
    · cases same
      exact new
  unfold replace
  dsimp only
  split
  · exact ⟨rfl, granted, covered⟩
  · rename_i old filled
    have oldOpen := allOpen old ((refers_iff s old).mpr ⟨slot, filled⟩)
    obtain ⟨fine, grantedLater⟩ := drop_granted (s.set slot (some f)) granted oldOpen
    exact ⟨fine, grantedLater, fun g held => drop_keeps_open _ old held (covered g held)⟩

end Stdio

namespace Redirection

theorem fill_granted (slots : List Slot) (s : Stdio) (granted : Granted w)
    (allOpen : ∀ g, s.refers g = true → w.isClosed g = some false) (new : w.isClosed f = some false) :
    (fill f slots s w).1 = .ok () ∧ Granted (fill f slots s w).2.2 := by
  induction slots generalizing s w with
  | nil => exact ⟨rfl, granted⟩
  | cons slot others ih =>
    have filled := (s.replace_closing slot (some f) w).1
    have replaced := s.replace_granted slot granted allOpen new
    unfold fill
    revert filled replaced
    rcases s.replace slot (some f) w with ⟨result, next, after⟩
    rintro filled ⟨fine, grantedLater, stillOpen⟩
    cases fine
    cases filled
    have there : Stdio.refers (s.set slot (some f)) f = true :=
      (Stdio.refers_iff _ f).mpr ⟨slot, Triple.get_set_self s slot (some f)⟩
    exact ih _ grantedLater stillOpen (stillOpen f there)

theorem place_granted (operator path : Bytes) (slots : List Slot) (s : Stdio) (granted : Granted w)
    (owes : Owes start (fun f => rest f + s.holds f) w) :
    Granted (place operator path slots s w).2.2 ∧
      ∀ fault, (place operator path slots s w).1 = .error fault → Ordinary fault := by
  have allOpen : ∀ g, s.refers g = true → w.isClosed g = some false := by
    intro g held
    obtain ⟨calls, account⟩ := owes
    exact (account.open_of_owed (f := g) (by simp [Stdio.holds, held])).2
  unfold place
  rcases opening : openTarget operator path w with ⟨result, after⟩
  cases result with
  | error fault =>
    obtain ⟨mode, e, refused, rfl⟩ := openTarget_error opening
    refine ⟨openFile_keeps_granted granted refused, ?_⟩
    rintro fault ⟨⟩
    exact .inr ⟨path, .errno e, rfl⟩
  | ok f =>
    obtain ⟨mode, opened⟩ := openTarget_ok opening
    obtain ⟨reached, _, _, new⟩ := openFile_reaches opened
    have stillOpen : ∀ g, s.refers g = true → after.isClosed g = some false := by
      intro g held
      rw [reached.flags g (isClosed_present (allOpen g held)), if_neg (by simp)]
      exact allOpen g held
    obtain ⟨fine, grantedLater⟩ := fill_granted slots s (openFile_keeps_granted granted opened) stillOpen new
    refine ⟨grantedLater, ?_⟩
    intro fault failed
    rw [fine] at failed
    cases failed

theorem Applying.granted (run : Applying expand args s w result) (granted : Granted w)
    (owes : Owes start (fun f => rest f + s.holds f) w) :
    Granted result.2.2 ∧ ∀ fault, result.1 = .error fault → Ordinary fault := by
  induction run with
  | finished => exact ⟨granted, by rintro _ ⟨⟩⟩
  | duplicate => exact ⟨granted, by rintro _ ⟨⟩; exact .inl rfl⟩
  | word token others s w single plain result filled after later ih =>
    obtain ⟨still, ordinary⟩ := ih granted owes
    refine ⟨still, ?_⟩
    cases result with
    | ok kept => rintro _ ⟨⟩
    | error fault =>
      rintro _ ⟨⟩
      exact ordinary fault rfl
  | unaimed => exact ⟨granted, by rintro _ ⟨⟩; exact .inl rfl⟩
  | operator => exact ⟨granted, by rintro _ ⟨⟩; exact .inl rfl⟩
  | refused token s w single slots found target others plain fault refusal =>
    exact ⟨granted, by rintro _ ⟨⟩; exact .inl (targetFault?_refusal refusal).isParse⟩
  | stuck token s w single slots found target others plain clean fault filled after failed =>
    have placed := place_granted token (expand target) slots s granted owes
    rw [failed] at placed
    exact ⟨placed.1, by rintro _ ⟨⟩; exact placed.2 fault rfl⟩
  | placed token s w single slots found target others plain clean filled after done later ih =>
    have placed := place_granted token (expand target) slots s granted owes
    have owesLater := place_owes (expand target) owes found
    rw [done] at placed owesLater
    exact ih placed.1 owesLater

theorem applyStage_granted (expand : Bytes → Bytes) (stage : Stage) (granted : Granted w)
    (owes : Owes start (fun f => rest f + stage.stdio.holds f) w) :
    Granted (applyStage expand stage w).2.2 ∧ ∀ fault, (applyStage expand stage w).1 = some fault → Ordinary fault := by
  have applied := (applying expand (combine stage.args) stage.stdio w).granted granted owes
  unfold applyStage
  revert applied
  rcases applyArgs expand (combine stage.args) stage.stdio w with ⟨result, slots, after⟩
  rintro ⟨grantedLater, ordinary⟩
  cases result with
  | error why => exact ⟨grantedLater, by rintro _ ⟨⟩; exact ordinary why rfl⟩
  | ok kept =>
    refine ⟨grantedLater, ?_⟩
    intro fault
    dsimp only
    split
    · rintro ⟨⟩
      exact .inl rfl
    · rintro ⟨⟩

theorem applyStages_granted (expand : Bytes → Bytes) (stages : List Stage) (granted : Granted w)
    (owes : Owes start (fun f => rest f + held stages f) w) :
    ∀ fault, (applyStages expand stages w).1 = some fault → Ordinary fault := by
  induction stages generalizing w rest with
  | nil => rintro _ ⟨⟩
  | cons stage others ih =>
    have apart := owes.uncons stage others
    have applied := applyStage_granted expand stage granted apart
    have owesLater := applyStage_owes expand stage w apart
    unfold applyStages
    revert applied owesLater
    rcases applyStage expand stage w with ⟨result, changed, after⟩
    rintro ⟨grantedLater, ordinary⟩ owesLater
    cases result with
    | some fault => exact ordinary
    | none => exact ih grantedLater (owesLater.congr (fun _ => Nat.add_right_comm _ _ _))

end Redirection

namespace Pipeline

theorem connect_granted (first : Stage) (others : List Stage) (granted : Granted w) :
    (connect first others w).1 = none ∧ Granted (connect first others w).2.2 := by
  induction others generalizing first w with
  | nil => exact ⟨rfl, granted⟩
  | cons next others ih =>
    rcases made : w.pipe with ⟨result, after⟩
    obtain ⟨⟨⟨reader, writer⟩, rfl⟩, grantedLater⟩ := pipe_granted granted made
    rw [connect, made]
    exact ih _ grantedLater

theorem build_granted (tokens : List Bytes) (granted : Granted w) :
    (∀ fault, (build tokens w).1 = .error fault → fault.isParse = true) ∧
      ∀ p, (build tokens w).1 = .ok p → Granted (build tokens w).2 := by
  cases joining tokens w with
  | refused first others joined e after stages connected answer =>
    have fine := (connect_granted first others granted).1
    rw [connected] at fine
    cases fine
  | empty first others joined after stages connected lacks answer =>
    rw [answer]
    exact ⟨by rintro _ ⟨⟩; rfl, by rintro _ ⟨⟩⟩
  | done first others joined after stages connected full answer =>
    have later := (connect_granted first others granted).2
    rw [connected] at later
    rw [answer]
    exact ⟨by rintro _ ⟨⟩, fun _ _ => later⟩

end Pipeline

namespace Session

theorem assemble_granted (line : Bytes) (granted : Granted w) :
    (∀ {fault after}, assemble line w = (.error fault, after) → fault.isParse = true) ∧
      ∀ {p after}, assemble line w = (.ok p, after) → Granted after := by
  constructor
  · intro fault after failed
    rcases assemble_fault failed with refusal | ⟨e, tokens, _, _, built⟩
    · exact refusal.isParse
    · exact (Pipeline.build_granted tokens granted).1 fault (by rw [built])
  · intro p after assembled
    obtain ⟨tokens, q, _, built, _, _⟩ := assemble_done assembled
    have later := (Pipeline.build_granted tokens granted).2
    rw [built] at later
    exact later q rfl

-- Where everything is granted, a line that fails has itself or a target of its own to blame.
theorem compile_granted (expand : Bytes → Bytes) (line : Bytes) (granted : Granted w)
    (failed : (compile expand line w).1 = .error fault) : Ordinary fault := by
  obtain ⟨parse, grantedLater⟩ := assemble_granted line granted
  cases compiling expand line w with
  | unassembled why after assembled answer =>
    rw [answer] at failed
    cases failed
    exact .inl (parse assembled)
  | abandoned p middle after why stages assembled applied answer =>
    rw [answer] at failed
    cases failed
    have owes := assemble_owes line w
    rw [assembled] at owes
    exact Redirection.applyStages_granted expand p.stages (grantedLater assembled) (owes.congr fun _ => (Nat.zero_add _).symm)
      fault (congrArg Prod.fst applied)
  | done p middle after stages assembled applied answer =>
    rw [answer] at failed
    cases failed

end Session
end
end LineShell
