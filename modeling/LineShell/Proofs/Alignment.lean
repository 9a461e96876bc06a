import LineShell.Session.Interpreter
import LineShell.Proofs.Ownership
import LineShell.Proofs.Refusals

-- As long as neither run is refused a file, every step does the same to the descriptors of both.
namespace LineShell
open World

-- Worlds that no operation on descriptors tells apart, except by the names of files.
structure Alike (w v : World) : Prop where
  trace : w.trace = v.trace
  faults : w.faults = v.faults
  files : w.files.size = v.files.size
  flags : ∀ f, w.isClosed f = v.isClosed f

-- Faults that differ in the names of files at most.
inductive SameFault : Fault → Fault → Prop where
  | parse (cause : Cause) (token : Bytes) : SameFault (.parse cause token) (.parse cause token)
  | resource (call path other : Bytes) (cause why : Cause) :
      SameFault (.resource call path cause) (.resource call other why)

theorem sameFault_of_parse (parse : fault.isParse = true) : SameFault fault fault := by
  cases fault with
  | parse cause token => exact .parse cause token
  | resource call path cause => cases parse
  | spawn path cause => cases parse

inductive Agree : Except Fault α → Except Fault α → Prop where
  | ok (a : α) : Agree (.ok a) (.ok a)
  | error (same : SameFault fault other) : Agree (.error fault) (.error other)

namespace World
variable {w v after later : World}

theorem alike_refl (w : World) : Alike w w := ⟨rfl, rfl, rfl, fun _ => rfl⟩

theorem nextFault_alike (alike : Alike w v) :
    w.nextFault.1 = v.nextFault.1 ∧ Alike w.nextFault.2 v.nextFault.2 := by
  have same := alike.faults
  unfold nextFault
  rw [same]
  cases v.faults with
  | nil => exact ⟨rfl, alike⟩
  | cons fault rest => exact ⟨rfl, alike.trace, rfl, alike.files, alike.flags⟩

theorem note_alike (alike : Alike w v) (call : Call) : Alike (w.note call) (v.note call) :=
  ⟨congrArg (call :: ·) alike.trace, alike.faults, alike.files, alike.flags⟩

theorem close_alike (alike : Alike w v) (f : FileId) :
    ((w.close f).1.isOk = (v.close f).1.isOk) ∧ Alike (w.close f).2 (v.close f).2 := by
  have noted := note_alike alike (.closed f)
  have flag : (w.file? f).map (·.closed) = (v.file? f).map (·.closed) := alike.flags f
  rcases found : w.file? f with _ | file
  · have missing : v.file? f = none := by simpa [found] using flag.symm
    rw [close_missing found, close_missing missing]
    exact ⟨rfl, noted⟩
  · obtain ⟨other, foundOther, sameFlag⟩ : ∃ other, v.file? f = some other ∧ other.closed = file.closed := by
      simpa [found] using flag.symm
    cases closed : file.closed with
    | true =>
      rw [close_again found closed, close_again foundOther (sameFlag.trans closed)]
      exact ⟨rfl, noted⟩
    | false =>
      rw [close_open found closed, close_open foundOther (sameFlag.trans closed)]
      have shut : Alike (w.shut f file) (v.shut f other) := by
        refine ⟨noted.trace, noted.faults, by simpa [World.shut] using alike.files, fun g => ?_⟩
        have first : (w.shut f file).isClosed g = _ := isClosed_shut found w.faults g
        have second : (v.shut f other).isClosed g = _ := isClosed_shut foundOther v.faults g
        rw [first, second, alike.flags g]
      obtain ⟨sameFault, asked⟩ := nextFault_alike shut
      revert sameFault asked
      rcases nextFault _ with ⟨fault, after⟩
      rcases nextFault _ with ⟨otherFault, later⟩
      intro sameFault asked
      cases sameFault
      cases fault with
      | none => exact ⟨rfl, asked⟩
      | some e => exact ⟨rfl, asked⟩

theorem openFile_added (opened : w.openFile path mode = (.ok f, after)) :
    ∃ granted file, w.nextFault = (none, granted) ∧ file.name = path ∧ file.closed = false ∧ f = w.files.size ∧
      (∃ id, file.channel = .node id) ∧ after.trace = .opened f :: w.trace ∧ after.faults = granted.faults ∧ after.files = w.files.push file := by
  unfold openFile at opened
  split at opened
  · cases opened
  · rename_i granted asked
    have sameFiles := nextFault_files asked
    have sameTrace := (nextFault_of_eq asked).trace
    split at opened
    · cases opened
    · rename_i id tree found
      cases opened
      refine ⟨granted, { name := path, channel := .node id, writable := mode.writes, appending := mode.appends },
        asked, rfl, rfl, by rw [sameFiles], ⟨id, rfl⟩, ?_, rfl, ?_⟩
      · exact congrArg (Call.opened granted.files.size :: ·) sameTrace
      · exact congrArg (Array.push · _) sameFiles

theorem openFile_alike (alike : Alike w v) (opened : w.openFile path mode = (.ok f, after))
    (openedOther : v.openFile other mode = (.ok g, later)) : f = g ∧ Alike after later := by
  obtain ⟨granted, file, asked, _, fileOpen, number, _, trace, faults, files⟩ := openFile_added opened
  obtain ⟨grantedOther, fileOther, askedOther, _, otherOpen, numberOther, _, traceOther, faultsOther, filesOther⟩ :=
    openFile_added openedOther
  have asking := (nextFault_alike alike).2.faults
  rw [asked, askedOther] at asking
  have sameNumber : f = g := by rw [number, numberOther, alike.files]
  subst sameNumber
  refine ⟨rfl, by rw [trace, traceOther, alike.trace], by rw [faults, faultsOther]; exact asking, ?_, ?_⟩
  · rw [files, filesOther, Array.size_push, Array.size_push, alike.files]
  · intro h
    have old := alike.flags h
    unfold isClosed file? at old ⊢
    rw [files, filesOther, Array.getElem?_push, Array.getElem?_push, alike.files]
    split
    · simp [fileOpen, otherOpen]
    · exact old

end World

-- What two runs of a step on the slots of a stage have in common.
structure Aligned (first second : Except Fault α × Stdio × World) : Prop where
  result : Agree first.1 second.1
  slots : first.2.1 = second.2.1
  worlds : Alike first.2.2 second.2.2

-- No redirection target was refused.
def Opens (result : Except Fault α) : Prop := ∀ path cause, result ≠ .error (.resource (ascii "open") path cause)

theorem opens_ok (a : α) : Opens (.ok a) := by
  intro path cause refused
  cases refused

theorem opens_error (opens : Opens (.error fault : Except Fault α)) : Opens (.error fault : Except Fault β) := by
  intro path cause refused
  cases refused
  exact opens _ _ rfl

section
variable {w v after later : World}

namespace Stdio

theorem drop_alike (alike : Alike w v) (s : Stdio) (f : FileId) :
    Agree (s.drop f w).1 (s.drop f v).1 ∧ Alike (s.drop f w).2 (s.drop f v).2 := by
  unfold drop
  split
  · exact ⟨.ok (), alike⟩
  · obtain ⟨sameResult, worlds⟩ := close_alike alike f
    revert sameResult worlds
    rcases w.close f with ⟨first, after⟩
    rcases v.close f with ⟨second, later⟩
    intro sameResult worlds
    cases first with
    | ok _ =>
      cases second with
      | ok _ => exact ⟨.ok (), worlds⟩
      | error why => cases sameResult
    | error cause =>
      cases second with
      | ok _ => cases sameResult
      | error why => exact ⟨.error (.resource _ _ _ _ _), worlds⟩

theorem replace_aligned (alike : Alike w v) (s : Stdio) (slot : Slot) (handle : Option FileId) :
    Aligned (s.replace slot handle w) (s.replace slot handle v) := by
  unfold replace
  dsimp only
  split
  · exact ⟨.ok (), rfl, alike⟩
  · rename_i f _
    obtain ⟨sameResult, worlds⟩ := drop_alike alike (s.set slot handle) f
    exact ⟨sameResult, rfl, worlds⟩

end Stdio

namespace Redirection

theorem fill_aligned (alike : Alike w v) (f : FileId) (slots : List Slot) (s : Stdio) :
    Aligned (fill f slots s w) (fill f slots s v) := by
  induction slots generalizing s w v with
  | nil => exact ⟨.ok (), rfl, alike⟩
  | cons slot others ih =>
    have replaced := Stdio.replace_aligned alike s slot (some f)
    unfold fill
    revert replaced
    rcases s.replace slot (some f) w with ⟨first, filled, after⟩
    rcases s.replace slot (some f) v with ⟨second, filledOther, later⟩
    rintro ⟨sameResult, sameSlots, worlds⟩
    cases sameSlots
    cases sameResult with
    | ok _ => exact ih worlds filled
    | error same => exact ⟨.error same, rfl, worlds⟩

theorem openTarget_alike (alike : Alike w v) (operator : Bytes) (opened : openTarget operator path w = (.ok f, after))
    (openedOther : openTarget operator other v = (.ok g, later)) : f = g ∧ Alike after later := by
  unfold openTarget at opened openedOther
  split at opened
  · rename_i done
    cases opened
    split at openedOther
    · rename_i doneOther
      cases openedOther
      exact openFile_alike alike done doneOther
    · cases openedOther
  · cases opened

theorem place_aligned (alike : Alike w v) (operator path other : Bytes) (slots : List Slot) (s : Stdio)
    (opens : Opens (place operator path slots s w).1) (opensOther : Opens (place operator other slots s v).1) :
    Aligned (place operator path slots s w) (place operator other slots s v) := by
  unfold place at opens opensOther ⊢
  rcases first : openTarget operator path w with ⟨result, after⟩
  rcases second : openTarget operator other v with ⟨resultOther, later⟩
  rw [first] at opens
  rw [second] at opensOther
  cases result with
  | error fault =>
    obtain ⟨_, e, _, rfl⟩ := openTarget_error first
    exact absurd rfl (opens _ _)
  | ok f =>
    cases resultOther with
    | error fault =>
      obtain ⟨_, e, _, rfl⟩ := openTarget_error second
      exact absurd rfl (opensOther _ _)
    | ok g =>
      obtain ⟨rfl, worlds⟩ := openTarget_alike alike operator first second
      exact fill_aligned worlds f slots s

-- The words decide alone what happens to them: the first run is followed through its cases, and in
-- each the second one goes the same way.
theorem Applying.aligned (run : Applying expand args s w result) (other : Bytes → Bytes) (alike : Alike w v)
    (opens : Opens result.1) (opensOther : Opens (applyArgs other args s v).1) :
    Aligned result (applyArgs other args s v) := by
  induction run generalizing v with
  | finished s w => exact ⟨.ok [], rfl, alike⟩
  | duplicate rest s w =>
    rw [applyArgs, if_pos rfl]
    exact ⟨.error (.parse _ _), rfl, alike⟩
  | word token rest s w single plain result filled after later ih =>
    rw [applyArgs, if_neg single, plain] at opensOther ⊢
    rcases second : applyArgs other rest s v with ⟨resultOther, filledOther, late⟩
    have following := ih alike
    rw [second] at following opensOther
    cases result with
    | error fault =>
      cases resultOther with
      | ok kept => cases (following opens (opens_ok _)).result
      | error why => exact following opens opensOther
    | ok kept =>
      cases resultOther with
      | error fault => cases (following (opens_ok _) opensOther).result
      | ok keptOther =>
        obtain ⟨sameResult, sameSlots, worlds⟩ := following (opens_ok _) (opens_ok _)
        cases sameResult
        exact ⟨.ok _, sameSlots, worlds⟩
  | unaimed token s w single slots found =>
    rw [applyArgs, if_neg single, found]
    exact ⟨.error (.parse _ _), rfl, alike⟩
  | operator token s w single slots found target rest operator =>
    rw [applyArgs, if_neg single, found]
    dsimp only
    rw [if_pos operator]
    exact ⟨.error (.parse _ _), rfl, alike⟩
  | refused token s w single slots found target rest plain fault refusal =>
    rw [applyArgs, if_neg single, found]
    dsimp only
    rw [if_neg plain, refusal]
    exact ⟨.error (sameFault_of_parse (targetFault?_refusal refusal).isParse), rfl, alike⟩
  | stuck token s w single slots found target rest plain clean fault filled after failed =>
    rw [applyArgs, if_neg single, found] at opensOther ⊢
    dsimp only at opensOther ⊢
    rw [if_neg plain, clean] at opensOther ⊢
    rcases second : place token (other target) slots s v with ⟨result, filledOther, later⟩
    have aligned := place_aligned alike token (expand target) (other target) slots s
    rw [failed, second] at aligned
    rw [second] at opensOther
    cases result with
    | error why =>
      obtain ⟨sameResult, sameSlots, worlds⟩ := aligned (opens_error opens) (opens_error opensOther)
      cases sameResult with
      | error same => exact ⟨.error same, sameSlots, worlds⟩
    | ok _ => cases (aligned (opens_error opens) (opens_ok _)).result
  | placed token s w single slots found target rest plain clean filled after done later ih =>
    rw [applyArgs, if_neg single, found] at opensOther ⊢
    dsimp only at opensOther ⊢
    rw [if_neg plain, clean] at opensOther ⊢
    rcases second : place token (other target) slots s v with ⟨result, filledOther, late⟩
    have aligned := place_aligned alike token (expand target) (other target) slots s
    rw [done, second] at aligned
    rw [second] at opensOther
    cases result with
    | error fault => cases (aligned (opens_ok _) (opens_error opensOther)).result
    | ok _ =>
      obtain ⟨_, sameSlots, worlds⟩ := aligned (opens_ok _) (opens_ok _)
      cases sameSlots
      exact ih worlds opens opensOther

-- The same for steps that return no more than a fault, if there was one, and stages.
structure Parallel (first second : Option Fault × α × World) : Prop where
  result : Option.Rel SameFault first.1 second.1
  stages : first.2.1 = second.2.1
  worlds : Alike first.2.2 second.2.2

def OpensAll (fault : Option Fault) : Prop := ∀ path cause, fault ≠ some (.resource (ascii "open") path cause)

theorem opensAll_none : OpensAll none := by
  intro path cause refused
  cases refused

theorem applyStage_parallel (expand other : Bytes → Bytes) (stage : Stage) (alike : Alike w v)
    (opens : OpensAll (applyStage expand stage w).1) (opensOther : OpensAll (applyStage other stage v).1) :
    Parallel (applyStage expand stage w) (applyStage other stage v) := by
  have aligned := (applying expand (combine stage.args) stage.stdio w).aligned other alike
  unfold applyStage at opens opensOther ⊢
  revert opens opensOther aligned
  rcases applyArgs expand (combine stage.args) stage.stdio w with ⟨first, slots, after⟩
  rcases applyArgs other (combine stage.args) stage.stdio v with ⟨second, slotsOther, later⟩
  intro opens opensOther aligned
  have clean : Opens first := by
    intro path cause refused
    subst refused
    exact opens path cause rfl
  have cleanOther : Opens second := by
    intro path cause refused
    subst refused
    exact opensOther path cause rfl
  obtain ⟨sameResult, sameSlots, worlds⟩ := aligned clean cleanOther
  cases sameSlots
  cases sameResult with
  | error same => exact ⟨.some same, rfl, worlds⟩
  | ok kept =>
    refine ⟨?_, rfl, worlds⟩
    dsimp only
    split
    · exact .some (.parse _ _)
    · exact .none

theorem applyStages_parallel (expand other : Bytes → Bytes) (stages : List Stage) (alike : Alike w v)
    (opens : OpensAll (applyStages expand stages w).1) (opensOther : OpensAll (applyStages other stages v).1) :
    Parallel (applyStages expand stages w) (applyStages other stages v) := by
  induction stages generalizing w v with
  | nil => exact ⟨.none, rfl, alike⟩
  | cons stage others ih =>
    have parallel := applyStage_parallel expand other stage alike
    unfold applyStages at opens opensOther ⊢
    revert opens opensOther parallel
    rcases applyStage expand stage w with ⟨first, changed, after⟩
    rcases applyStage other stage v with ⟨second, changedOther, later⟩
    intro parallel opens opensOther
    cases first with
    | some fault =>
      cases second with
      | some why =>
        obtain ⟨sameResult, sameStage, worlds⟩ := parallel opens opensOther
        exact ⟨sameResult, congrArg (· :: others) sameStage, worlds⟩
      | none => cases (parallel opens opensAll_none).result
    | none =>
      cases second with
      | some why => cases (parallel opensAll_none opensOther).result
      | none =>
        obtain ⟨_, sameStage, worlds⟩ := parallel opensAll_none opensAll_none
        cases sameStage
        obtain ⟨sameResult, sameStages, worlds⟩ := ih worlds opens opensOther
        exact ⟨sameResult, congrArg (changed :: ·) sameStages, worlds⟩

end Redirection

theorem Pipeline.redirect_parallel (expand other : Bytes → Bytes) (p : Pipeline) (w : World)
    (opens : Redirection.OpensAll (p.redirect expand w).1) (opensOther : Redirection.OpensAll (p.redirect other w).1) :
    Redirection.Parallel (p.redirect expand w) (p.redirect other w) := by
  obtain ⟨sameResult, sameStages, worlds⟩ :=
    Redirection.applyStages_parallel expand other p.stages (alike_refl w) opens opensOther
  exact ⟨sameResult, congrArg Pipeline.mk sameStages, worlds⟩

-- Up to the redirections the two runs are one; from there on they go side by side, and the pipelines
-- they end with differ in the values of the words that are left.
theorem Session.compile_aligned (expand other : Bytes → Bytes) (line : Bytes) (w : World)
    (opens : Opens (compile expand line w).1) (opensOther : Opens (compile other line w).1) :
    (∃ fault why, (compile expand line w).1 = .error fault ∧ (compile other line w).1 = .error why ∧
      SameFault fault why) ∨
    ∃ p : Pipeline, (compile expand line w).1 = .ok (p.substitute expand) ∧
      (compile other line w).1 = .ok (p.substitute other) ∧
      Alike (compile expand line w).2 (compile other line w).2 := by
  unfold compile at opens opensOther ⊢
  rcases assembling : assemble line w with ⟨assembled, middle⟩
  rw [assembling] at opens opensOther
  cases assembled with
  | error fault =>
    refine .inl ⟨fault, fault, rfl, rfl, ?_⟩
    rcases assemble_fault assembling with refusal | ⟨_, _, rfl, _⟩
    · exact sameFault_of_parse refusal.isParse
    · exact .resource _ _ _ _ _
  | ok p =>
    have parallel := p.redirect_parallel expand other middle
    dsimp only at opens opensOther ⊢
    rcases redirecting : p.redirect expand middle with ⟨first, left, after⟩
    rcases redirectingOther : p.redirect other middle with ⟨second, leftOther, later⟩
    rw [redirecting, redirectingOther] at parallel
    rw [redirecting] at opens
    rw [redirectingOther] at opensOther
    have clean : Redirection.OpensAll first := by
      intro path cause refused
      subst refused
      exact opens path cause rfl
    have cleanOther : Redirection.OpensAll second := by
      intro path cause refused
      subst refused
      exact opensOther path cause rfl
    obtain ⟨sameResult, sameStages, worlds⟩ := parallel clean cleanOther
    cases sameStages
    cases sameResult with
    | none => exact .inr ⟨left, rfl, rfl, worlds⟩
    | some same => exact .inl ⟨_, _, rfl, rfl, same⟩

end
end LineShell
