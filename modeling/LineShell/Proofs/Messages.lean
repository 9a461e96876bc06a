import LineShell.Proofs.Failures
import LineShell.Proofs.Refusals
import LineShell.Proofs.Texts

namespace LineShell
open Utf8 World

-- The message is well-formed, and that of a line is not empty.
def Cause.Legible (cause : Cause) : Prop := WellFormed cause.message

structure Fault.Legible (fault : Fault) : Prop where
  wellFormed : WellFormed fault.message
  stated : fault.message ≠ []

theorem Cause.reasons_legible (reason : cause ∈ Cause.reasons) : cause.Legible ∧ cause.message ≠ [] := by
  have stated : ∀ cause ∈ Cause.reasons, cause.message.isEmpty = false := by decide
  refine ⟨?_, by simpa using stated cause reason⟩
  simp only [reasons, List.mem_cons, List.not_mem_nil, or_false] at reason
  rcases reason with rfl | rfl | rfl | rfl | rfl | rfl
  · exact .ascii "unterminated quote" (by decide)
  · exact .ascii "unterminated subshell" (by decide)
  · exact .ascii "syntax error: empty command" (by decide)
  · exact .ascii "syntax error: missing redirection target" (by decide)
  · exact .ascii "syntax error: unsupported descriptor duplication" (by decide)
  · exact .ascii "command substitution is not supported" (by decide)

theorem Refusal.legible (refusal : Refusal fault) : fault.Legible := by
  obtain ⟨cause, token, reason, rfl⟩ := refusal
  obtain ⟨wellFormed, stated⟩ := Cause.reasons_legible reason
  cases empty : token.isEmpty with
  | true =>
    have message : (Fault.parse cause token).message = cause.message := if_pos empty
    exact ⟨message ▸ wellFormed, message ▸ stated⟩
  | false =>
    have message : (Fault.parse cause token).message = cause.message ++ ascii " near " ++ Quoted.encode token := by
      simp [Fault.message, empty]
    refine ⟨?_, by simp [message, stated]⟩
    rw [message]
    exact (wellFormed.append (.ascii " near " (by decide))).append (Quoted.encode_wellFormed token)

theorem Cause.errno_legible (code : Errno) : (Cause.errno code).Legible := Errno.message_wellFormed code

theorem Cause.onPath_legible (call : WellFormed name) (path : WellFormed file) (inner : cause.Legible) :
    (Cause.onPath name file cause).Legible :=
  (((call.append (.ascii " " (by decide))).append path).append (.ascii ": " (by decide))).append inner

theorem Cause.onCall_legible (call : WellFormed name) (inner : cause.Legible) : (Cause.onCall name cause).Legible :=
  (call.append (.ascii ": " (by decide))).append inner

theorem Fault.resource_legible (call : WellFormed name) (path : WellFormed file) (cause : why.Legible) :
    (Fault.resource name file why).Legible := by
  cases empty : file.isEmpty with
  | true =>
    have message : (Fault.resource name file why).message = name ++ ascii ": " ++ why.message := if_pos empty
    refine ⟨?_, by simp [message, ascii]⟩
    rw [message]
    exact (call.append (.ascii ": " (by decide))).append cause
  | false =>
    have message : (Fault.resource name file why).message = name ++ ascii " " ++ file ++ ascii ": " ++ why.message := by
      simp [Fault.message, empty]
    refine ⟨?_, by simp [message, ascii]⟩
    rw [message]
    exact (((call.append (.ascii " " (by decide))).append path).append (.ascii ": " (by decide))).append cause

theorem Fault.spawn_legible (path : WellFormed file) (cause : why.Legible) : (Fault.spawn file why).Legible :=
  ⟨(((WellFormed.ascii "cannot start " (by decide)).append path).append (.ascii ": " (by decide))).append cause,
    by simp [message, ascii]⟩

section
variable {w after : World} {s : Stdio}

-- The words of every stage.
def Pipeline.Spelled (stages : List Stage) : Prop := ∀ stage ∈ stages, ∀ word ∈ stage.args, WellFormed word

namespace Stdio

-- A file that is there, by a well-formed name.
def Named (w : World) (f : FileId) : Prop := f < w.files.size ∧ WellFormed (w.fileName f)

-- The files of a stage.
def AllNamed (w : World) (s : Stdio) : Prop := ∀ f, s.refers f = true → Named w f

theorem Named.later (named : Named w f) (footprint : Footprint w opened after) : Named after f := by
  obtain ⟨calls, reached, _⟩ := footprint.calls
  refine ⟨Nat.lt_of_lt_of_le named.1 reached.files, ?_⟩
  rw [footprint.names f named.1]
  exact named.2

theorem AllNamed.later (all : AllNamed w s) (footprint : Footprint w opened after) : AllNamed after s :=
  fun f held => (all f held).later footprint

theorem inherit_named (w : World) : AllNamed w inherit := by
  intro f held
  obtain ⟨slot, filled⟩ := (refers_iff inherit f).mp held
  cases slot <;> cases filled

theorem AllNamed.set (all : AllNamed w s) (new : Named w f) (slot : Slot) : AllNamed w (s.set slot (some f)) := by
  intro g held
  rcases (refers_set s slot (some f) g).mp (.inl held) with old | same
  · exact all g old
  · cases same
    exact new

theorem close_legible (named : WellFormed (w.fileName f)) (failed : (w.close f).1 = .error cause) : cause.Legible := by
  have closing : WellFormed (ascii "close") := .ascii "close" (by decide)
  cases found : w.file? f with
  | none =>
    rw [close_missing found] at failed
    cases failed
    exact .ascii "file already closed" (by decide)
  | some file =>
    have name : WellFormed file.name := by
      have here : w.fileName f = file.name := by
        unfold fileName
        rw [found]
      rwa [here] at named
    cases closed : file.closed with
    | true =>
      rw [close_again found closed] at failed
      cases failed
      exact Cause.onPath_legible closing name (.ascii "file already closed" (by decide))
    | false =>
      rw [close_open found closed] at failed
      split at failed
      · cases failed
        exact Cause.onPath_legible closing name (Cause.errno_legible _)
      · cases failed

theorem replace_legible (all : AllNamed w s) (slot : Slot) (failed : (s.replace slot (some f) w).1 = .error fault) :
    fault.Legible := by
  unfold replace at failed
  dsimp only at failed
  split at failed
  · cases failed
  · rename_i old filled
    have named := (all old ((refers_iff s old).mpr ⟨slot, filled⟩)).2
    unfold drop at failed
    split at failed
    · cases failed
    · split at failed
      · cases failed
      · rename_i cause later closed
        cases failed
        exact Fault.resource_legible (.ascii "close" (by decide)) named (close_legible named (congrArg Prod.fst closed))

end Stdio

namespace Redirection
open Stdio

theorem fill_legible (slots : List Slot) (all : AllNamed w s) (new : Named w f) :
    (∀ fault, (fill f slots s w).1 = .error fault → fault.Legible) ∧
      AllNamed (fill f slots s w).2.2 (fill f slots s w).2.1 := by
  induction slots generalizing s w with
  | nil => exact ⟨by rintro _ ⟨⟩, all⟩
  | cons slot others ih =>
    have legible : ∀ fault, (s.replace slot (some f) w).1 = .error fault → fault.Legible := fun _ => replace_legible all slot
    have footprint := s.replace_footprint slot (some f) w
    have filled := (s.replace_closing slot (some f) w).1
    unfold fill
    rcases replaced : s.replace slot (some f) w with ⟨result, next, later⟩
    rw [replaced] at legible footprint filled
    cases filled
    have following := (all.set new slot).later footprint
    cases result with
    | error why => exact ⟨by rintro _ ⟨⟩; exact legible why rfl, following⟩
    | ok done => exact ih following (new.later footprint)

theorem openTarget_named (path : WellFormed file) (opened : openTarget operator file w = (.ok f, after)) :
    Named after f ∧ ∃ requests, Footprint w requests after := by
  obtain ⟨mode, opened⟩ := openTarget_ok opened
  obtain ⟨_, entry, _, named, _, number, _, _, _, files⟩ := openFile_added opened
  have here : after.file? f = some entry := by
    unfold file?
    rw [files, number, Array.getElem?_push_size]
  refine ⟨⟨?_, ?_⟩, _, openFile_footprint opened⟩
  · rw [number, files, Array.size_push]
    exact Nat.lt_succ_self _
  · unfold fileName
    rw [here]
    dsimp only
    rwa [named]

theorem place_legible (operator : Bytes) (path : WellFormed file) (slots : List Slot) (all : AllNamed w s) :
    (∀ fault, (place operator file slots s w).1 = .error fault → fault.Legible) ∧
      AllNamed (place operator file slots s w).2.2 (place operator file slots s w).2.1 := by
  unfold place
  split
  · rename_i why later refused
    obtain ⟨mode, e, denied, rfl⟩ := openTarget_error refused
    refine ⟨?_, all.later (openFile_refused_footprint denied)⟩
    rintro _ ⟨⟩
    exact Fault.resource_legible (.ascii "open" (by decide)) path (Cause.errno_legible e)
  · rename_i f later opened
    obtain ⟨new, _, footprint⟩ := openTarget_named path opened
    exact fill_legible slots (all.later footprint) new

variable {expand : Bytes → Bytes}

-- The arguments that are left are some of those there were.
theorem Applying.legible (run : Applying expand args s w result)
    (expands : ∀ word, WellFormed word → WellFormed (expand word)) (words : ∀ word ∈ args, WellFormed word)
    (all : AllNamed w s) :
    (∀ fault, result.1 = .error fault → fault.Legible) ∧ (∀ kept, result.1 = .ok kept → ∀ word ∈ kept, WellFormed word) ∧
      AllNamed result.2.2 result.2.1 := by
  have refused {cause : Cause} {token : Bytes} {s : Stdio} {w : World} (reason : cause ∈ Cause.reasons) (all : AllNamed w s) :
      (∀ fault, (.error (.parse cause token) : Except Fault (List Bytes)) = .error fault → fault.Legible) ∧
        (∀ kept, (.error (.parse cause token) : Except Fault (List Bytes)) = .ok kept → ∀ word ∈ kept, WellFormed word) ∧
        AllNamed w s :=
    ⟨by rintro _ ⟨⟩; exact (refusal_of reason token).legible, by rintro _ ⟨⟩, all⟩
  induction run with
  | finished => exact ⟨by rintro _ ⟨⟩, by rintro _ ⟨⟩; simp, all⟩
  | duplicate => exact refused (by decide) all
  | word token others s w single plain result filled after later ih =>
    rw [List.forall_mem_cons] at words
    obtain ⟨legible, kept, named⟩ := ih words.2 all
    cases result with
    | ok left =>
      refine ⟨by rintro _ ⟨⟩, ?_, named⟩
      rintro _ ⟨⟩
      exact List.forall_mem_cons.mpr ⟨words.1, kept _ rfl⟩
    | error fault => exact ⟨by rintro _ ⟨⟩; exact legible fault rfl, by rintro _ ⟨⟩, named⟩
  | unaimed => exact refused (by decide) all
  | operator => exact refused (by decide) all
  | refused token s w single slots found target others plain fault refusal =>
    exact ⟨by rintro _ ⟨⟩; exact (targetFault?_refusal refusal).legible, by rintro _ ⟨⟩, all⟩
  | stuck token s w single slots found target others plain clean fault filled after failed =>
    simp only [List.forall_mem_cons] at words
    obtain ⟨legible, named⟩ := place_legible token (expands target words.2.1) slots all
    rw [failed] at legible named
    exact ⟨by rintro _ ⟨⟩; exact legible fault rfl, by rintro _ ⟨⟩, named⟩
  | placed token s w single slots found target others plain clean filled after done later ih =>
    simp only [List.forall_mem_cons] at words
    obtain ⟨_, named⟩ := place_legible token (expands target words.2.1) slots all
    rw [done] at named
    exact ih words.2.2 named

theorem applyStages_legible (expands : ∀ word, WellFormed word → WellFormed (expand word)) (stages : List Stage)
    (w : World) (words : Pipeline.Spelled stages) (all : ∀ stage ∈ stages, AllNamed w stage.stdio) :
    (∀ fault, (applyStages expand stages w).1 = some fault → fault.Legible) ∧
      ((applyStages expand stages w).1 = none → Pipeline.Spelled (applyStages expand stages w).2.1) := by
  have both : WellFormed bothToken := .ascii "&>" (by decide)
  induction stages generalizing w with
  | nil => exact ⟨by rintro _ ⟨⟩, fun _ => words⟩
  | cons stage others ih =>
    unfold Pipeline.Spelled at words
    rw [List.forall_mem_cons] at words all
    obtain ⟨opened, footprint, _⟩ := (applying expand (combine stage.args) stage.stdio w).footprint
    have combined : ∀ word ∈ combine stage.args, WellFormed word := by
      intro word member
      rcases mem_combine stage.args member with old | rfl
      · exact words.1 word old
      · exact both
    obtain ⟨legible, spelled, _⟩ := (applying expand (combine stage.args) stage.stdio w).legible expands combined all.1
    unfold applyStages applyStage
    rcases applied : applyArgs expand (combine stage.args) stage.stdio w with ⟨result, slots, later⟩
    rw [applied] at footprint legible spelled
    cases result with
    | error why => exact ⟨by rintro _ ⟨⟩; exact legible why rfl, by rintro ⟨⟩⟩
    | ok kept =>
      dsimp only
      cases full : kept.isEmpty with
      | true => exact ⟨by rintro _ ⟨⟩; exact (refusal_of (by decide) []).legible, by rintro ⟨⟩⟩
      | false =>
        obtain ⟨faults, following⟩ := ih later words.2 fun stage member => (all.2 stage member).later footprint
        refine ⟨faults, fun fine => ?_⟩
        exact List.forall_mem_cons.mpr ⟨spelled kept rfl, following fine⟩

end Redirection

namespace Pipeline
open Stdio

theorem pipe_names (made : w.pipe = (.ok (reader, writer), after)) :
    after.fileName reader = ascii "|0" ∧ after.fileName writer = ascii "|1" := by
  unfold World.pipe at made
  split at made
  · cases made
  · cases made
    have first : ∀ (files : Array OpenFile) (a b : OpenFile), ((files.push a).push b)[files.size]? = some a := by
      intro files a b
      rw [Array.getElem?_push, if_neg (by simp), Array.getElem?_push_size]
    constructor
    · simp only [fileName, file?, note, first]
    · simp [fileName, file?, note, Array.getElem_push]

theorem pipe_named (made : w.pipe = (.ok (reader, writer), after)) : Named after reader ∧ Named after writer := by
  obtain ⟨_, first, second, size, _⟩ := pipe_reaches made
  obtain ⟨reading, writing⟩ := pipe_names made
  have one : reader < after.files.size := by rw [first, size]; exact Nat.lt_add_of_pos_right (by decide)
  have two : writer < after.files.size := by rw [second, size]; exact Nat.lt_succ_self _
  unfold Named
  rw [reading, writing]
  exact ⟨⟨one, .ascii "|0" (by decide)⟩, two, .ascii "|1" (by decide)⟩

theorem connect_named (first : Stage) (others : List Stage) (w : World) (here : AllNamed w first.stdio)
    (all : ∀ stage ∈ others, AllNamed w stage.stdio) :
    ∀ stage ∈ (connect first others w).2.1, AllNamed (connect first others w).2.2 stage.stdio := by
  induction others generalizing first w with
  | nil => simpa [connect] using here
  | cons next others ih =>
    rw [List.forall_mem_cons] at all
    unfold connect
    rcases made : w.pipe with ⟨result, after⟩
    have footprint := pipe_footprint made
    have later := fun stage member => (all.2 stage member).later footprint
    cases result with
    | error e =>
      dsimp only
      simp only [List.forall_mem_cons]
      exact ⟨here.later footprint, all.1.later footprint, later⟩
    | ok ends =>
      obtain ⟨reader, writer⟩ := ends
      obtain ⟨reading, writing⟩ := pipe_named made
      have connected := ih { next with stdio := next.stdio.set .input (some reader) } after
        ((all.1.later footprint).set reading .input) later
      have kept := (connect_footprint { next with stdio := next.stdio.set .input (some reader) } others after).2
      dsimp only
      refine List.forall_mem_cons.mpr ⟨?_, connected⟩
      exact ((here.later footprint).set writing .output).later kept

theorem build_named (built : build tokens w = (.ok p, after)) : ∀ stage ∈ p.stages, AllNamed after stage.stdio := by
  obtain ⟨first, others, stages, connected, _⟩ := build_done built
  have plain : ∀ stage ∈ first :: others, AllNamed w stage.stdio := by
    rw [← stages]
    intro stage member
    rw [unjoined_inherit tokens stage member]
    exact inherit_named w
  rw [List.forall_mem_cons] at plain
  have named := connect_named first others w plain.1 plain.2
  rwa [connected] at named

theorem partition_words (stage : args ∈ partition tokens) (among : word ∈ args) : word ∈ tokens := by
  have member := List.mem_flatten.mpr ⟨args, stage, among⟩
  rw [partition_flatten] at member
  exact (List.mem_filter.mp member).1

end Pipeline

namespace Session
variable {expand : Bytes → Bytes} {scripts : ScriptRunner}

theorem assemble_spelled (line : WellFormed text) (assembled : assemble text w = (.ok p, after)) :
    Pipeline.Spelled p.stages ∧ ∀ stage ∈ p.stages, Stdio.AllNamed after stage.stdio := by
  constructor
  · obtain ⟨⟨tokens, splits, args, _⟩, _⟩ := assemble_ok assembled
    intro stage member word among
    have part : stage.args ∈ Pipeline.partition tokens := by
      rw [← args]
      exact List.mem_map_of_mem member
    exact Line.split_wellFormed line splits word (Pipeline.partition_words part among)
  · obtain ⟨tokens, q, _, built, detects, _⟩ := assemble_done assembled
    have kept : p.stages = (Pipeline.detectStages q.stages).2 := congrArg (·.2.stages) detects.symm
    intro stage member
    have files : stage.stdio ∈ q.stages.map (·.stdio) := by
      rw [← Pipeline.detectStages_stdio q.stages, ← kept]
      exact List.mem_map_of_mem member
    obtain ⟨other, among, same⟩ := List.mem_map.mp files
    rw [← same]
    exact Pipeline.build_named built other among

theorem assemble_legible (failed : assemble text w = (.error fault, after)) : fault.Legible := by
  rcases assemble_fault failed with refusal | ⟨e, _, rfl, _⟩
  · exact refusal.legible
  · exact Fault.resource_legible (.ascii "pipe" (by decide)) .nil
      (Cause.onCall_legible (.ascii "pipe2" (by decide)) (Cause.errno_legible e))

-- A line that is not compiled is refused with a well-formed message; one that is has well-formed words.
theorem compile_legible (expands : ∀ word, WellFormed word → WellFormed (expand word)) (line : WellFormed text) (w : World) :
    (∀ fault, (compile expand text w).1 = .error fault → fault.Legible) ∧
      ∀ p, (compile expand text w).1 = .ok p → Pipeline.Spelled p.stages := by
  cases compiling expand text w with
  | unassembled why after assembled answer =>
    rw [answer]
    refine ⟨?_, by rintro _ ⟨⟩⟩
    rintro _ ⟨⟩
    exact assemble_legible assembled
  | abandoned p middle after why stages assembled applied answer =>
    obtain ⟨spelled, named⟩ := assemble_spelled line assembled
    rw [answer]
    refine ⟨?_, by rintro _ ⟨⟩⟩
    rintro _ ⟨⟩
    exact (Redirection.applyStages_legible expands p.stages middle spelled named).1 why (congrArg Prod.fst applied)
  | done p middle after stages assembled applied answer =>
    obtain ⟨spelled, named⟩ := assemble_spelled line assembled
    have words := (Redirection.applyStages_legible expands p.stages middle spelled named).2
    rw [applied] at words
    rw [answer]
    refine ⟨by rintro _ ⟨⟩, ?_⟩
    rintro _ ⟨⟩ stage member word among
    obtain ⟨before, inside, rfl⟩ := List.mem_map.mp member
    obtain ⟨plain, written, rfl⟩ := List.mem_map.mp among
    exact expands plain (words rfl before inside plain written)

end Session

-- Programs.

-- The directories programs are searched for in: those of the session, and those of the shell's own environment, which
-- count for a path without a slash.
structure World.Searches (w : World) (directories : List Bytes) : Prop where
  session : ∀ directory ∈ directories, WellFormed directory
  own : ∀ list, w.environValue? (ascii "PATH") = some list → WellFormed list

variable {directories : List Bytes}

theorem World.Searches.still (searches : Searches w directories) (still : Still w after) : Searches after directories := by
  refine ⟨searches.session, fun list found => searches.own list ?_⟩
  unfold environValue? at found ⊢
  rwa [still.environ] at found

theorem lookPath?_wellFormed (searches : World.Searches w directories) (name : WellFormed text)
    (found : lookPath? w directories text = some path) : WellFormed path := by
  unfold lookPath? at found
  split at found
  · split at found
    · cases found
      exact name
    · cases found
  · exact Path.inside_wellFormed searches.session name path (List.mem_of_find?_eq_some found)

namespace World

theorem programPath_legible (searches : Searches w directories) (path : WellFormed text) :
    (∀ cause, w.programPath text = .error cause → cause.Legible) ∧
      ∀ found, w.programPath text = .ok found → WellFormed found := by
  have quoted : ∀ message, WellFormed (ascii message) →
      (Cause.plain (ascii "exec: " ++ Quoted.encode text ++ ascii message)).Legible := fun message stated =>
    ((WellFormed.ascii "exec: " (by decide)).append (Quoted.encode_wellFormed text)).append stated
  unfold programPath
  split
  · exact ⟨by rintro _ ⟨⟩, by rintro _ ⟨⟩; exact path⟩
  · rename_i plain
    have list : WellFormed ((w.environValue? (ascii "PATH")).getD []) := by
      cases known : w.environValue? (ascii "PATH") with
      | none => exact .nil
      | some list => exact searches.own list known
    dsimp only
    split
    · exact ⟨by rintro _ ⟨⟩; exact quoted _ (.ascii ": executable file not found in $PATH" (by decide)), by rintro _ ⟨⟩⟩
    · rename_i found hit
      have inside : WellFormed found := by
        unfold Tree.findExecutable? at hit
        rw [if_neg plain] at hit
        exact Path.inside_wellFormed (Path.splitList_wellFormed list) path found (List.mem_of_find?_eq_some hit)
      split
      · exact ⟨by rintro _ ⟨⟩, by rintro _ ⟨⟩; exact inside⟩
      · exact ⟨by rintro _ ⟨⟩; exact quoted _ (.ascii ": cannot run executable found relative to current directory" (by decide)),
          by rintro _ ⟨⟩⟩

theorem start_legible (searches : Searches w directories) (path : WellFormed text)
    (refused : (w.start text arguments table given).1 = .error cause) : cause.Legible := by
  obtain ⟨legible, wellFormed⟩ := programPath_legible searches path
  unfold start at refused
  cases located : w.programPath text with
  | error why =>
    rw [located] at refused
    cases refused
    exact legible _ located
  | ok found =>
    rw [located] at refused wellFormed
    have denied : ∀ e, (Cause.onPath (ascii "fork/exec") found (.errno e)).Legible := fun e =>
      Cause.onPath_legible (.ascii "fork/exec" (by decide)) (wellFormed found rfl) (Cause.errno_legible e)
    dsimp only at refused
    split at refused
    · cases refused
      exact .ascii "exec: environment variable contains NUL" (by decide)
    · split at refused
      · cases refused
        exact denied _
      · split at refused
        · cases refused
          exact denied _
        · split at refused
          · cases refused
            exact denied _
          · cases refused

end World

namespace Engine
variable {e : Engine} {table : Option (List Bytes)}

theorem stripBackground_words (args : List Bytes) (member : word ∈ (stripBackground args).1) : word ∈ args := by
  unfold stripBackground at member
  split at member
  · exact List.dropLast_subset args member
  · exact member

theorem launch_legible (searches : World.Searches w e.searchPath) (words : ∀ word ∈ stage.args, WellFormed word)
    (failed : (e.launch table stage w).1 = .error fault) : fault.Legible := by
  unfold launch at failed
  dsimp only at failed
  split at failed
  · cases failed
  · rename_i name others given
    have word : WellFormed name := words name (stripBackground_words stage.args (by rw [given]; exact List.mem_cons_self))
    split at failed
    · cases failed
    · rename_i path found
      have inside := lookPath?_wellFormed searches word found
      split at failed
      · rename_i cause later refused
        cases failed
        exact Fault.spawn_legible inside (World.start_legible searches inside (congrArg Prod.fst refused))
      · cases failed

theorem launchAll_legible (i : Nat) (stages : List Stage) (searches : World.Searches w e.searchPath)
    (words : Pipeline.Spelled stages) (failed : (e.launchAll table i stages w).1 = some fault) : fault.Legible := by
  induction stages generalizing i w with
  | nil => cases failed
  | cons stage others ih =>
    unfold Pipeline.Spelled at words
    rw [List.forall_mem_cons] at words
    by_cases external : stage.kind = .external
    · rcases launched : e.launch table stage w with ⟨result, middle⟩
      cases result with
      | error why =>
        rw [launchAll_failing others external launched] at failed
        cases failed
        exact launch_legible searches words.1 (congrArg Prod.fst launched)
      | ok progress =>
        obtain ⟨_, launching, _⟩ := dispatch_launching launched i
        rw [launchAll_starting others external launched rfl] at failed
        exact ih (i + 1) (searches.still launching.still) words.2 failed
    · rw [launchAll_passing others external rfl] at failed
      exact ih (i + 1) searches words.2 failed

end Engine

end

namespace Session
variable {scripts : ScriptRunner}

-- The command of a line that is run, and the message of whatever stops it.
theorem runLine_legible (line : WellFormed text) (expands : ∀ word, WellFormed word → WellFormed (expand s word))
    (searches : World.Searches w s.searchPath) :
    (∀ word ∈ (runLine scripts text s w).1.command, WellFormed word) ∧
      ∀ fault, (runLine scripts text s w).1.fault = some fault → fault.Legible := by
  obtain ⟨legible, spelled⟩ := compile_legible expands line w
  obtain ⟨_, footprint, _⟩ := compile_footprint s.expand text w
  have words : ∀ {p opened}, compile s.expand text w = (.ok p, opened) →
      Pipeline.Spelled (p.classify Builtin.isBuiltin).stages := by
    intro p opened compiled stage member
    obtain ⟨plain, among, rfl⟩ := List.mem_map.mp member
    exact spelled p (congrArg Prod.fst compiled) plain among
  have command : ∀ {p opened}, compile s.expand text w = (.ok p, opened) →
      ∀ word ∈ leading (p.classify Builtin.isBuiltin), WellFormed word := by
    intro p opened compiled word among
    unfold leading at among
    split at among
    · rename_i stage others stages
      exact words compiled stage (by rw [stages]; exact List.mem_cons_self) word among
    · cases among
  cases line_course text s w with
  | refused compiled =>
    rw [runLine_refused compiled]
    refine ⟨by simp, ?_⟩
    rintro _ ⟨⟩
    exact legible _ (congrArg Prod.fst compiled)
  | stopped compiled launched =>
    rw [runLine_stopped compiled launched]
    refine ⟨command compiled, ?_⟩
    rintro _ ⟨⟩
    rw [compiled] at footprint
    have opened := searches.still footprint.still
    exact Engine.launchAll_legible (e := s.engine) 0 _ (opened.still (Engine.dump_quiet s.engine _ _).still) (words compiled)
      (congrArg Prod.fst launched)
  | launched compiled launched =>
    rw [runLine_launched compiled launched rfl]
    refine ⟨command compiled, ?_⟩
    rintro _ ⟨⟩

end Session
end LineShell
