import LineShell.Proofs.Alignment

namespace LineShell
open World

def Call.opens : Call → List FileId
  | .opened f => [f]
  | _ => []

-- The files that calls opened by name, the first one first.
def openings (calls : List Call) : List FileId := calls.reverse.flatMap Call.opens

theorem openings_append (later earlier : List Call) :
    openings (later ++ earlier) = openings earlier ++ openings later := by
  simp [openings]

-- A call that makes or closes files. No program is started by it and no stage run.
def Call.onFiles : Call → Bool
  | .piped .. => true
  | .opened _ => true
  | .closed _ => true
  | _ => false

-- A file asked for by name.
structure Request where
  mode : Mode
  path : Bytes
  deriving DecidableEq, Repr

-- The tree once the file has been opened.
def Request.grant (cwd : NodeId) (t : Tree) (r : Request) : Tree :=
  match openNode t cwd r.path r.mode with
  | .ok (_, opened) => opened
  | .error _ => t

theorem Request.grant_read (cwd : NodeId) (t : Tree) (path : Bytes) : grant cwd t ⟨.read, path⟩ = t := by
  unfold grant openNode
  rcases t.find cwd path with e | id
  · rfl
  · rfl

-- Requests that only read leave the tree as it is.
theorem Request.grant_reads (cwd : NodeId) (t : Tree) (requests : List Request)
    (reads : ∀ r ∈ requests, r.mode = .read) : requests.foldl (grant cwd) t = t := by
  induction requests with
  | nil => rfl
  | cons r rest ih =>
    obtain ⟨mode, path⟩ := r
    cases reads ⟨mode, path⟩ (by simp)
    rw [List.foldl_cons, grant_read]
    exact ih (fun later member => reads later (by simp [member]))

-- Into a pipe made on the way there is one end for writing, with the one for reading recorded beside it.
def Coupled (w : World) (calls : List Call) (after : World) : Prop :=
  ∀ f file p, after.file? f = some file → w.files.size ≤ f → file.channel = .writer p →
    p < after.pipes.size ∧ ∃ reader, .piped reader f ∈ calls ∧
      ∀ g other, after.file? g = some other → other.channel = .reader p → g = reader

-- These files have been opened in this order. Files keep their names; programs, the directory and what
-- is kept in memory stay as they were.
structure Footprint (w : World) (opened : List Request) (after : World) : Prop where
  calls : ∃ calls, w.Reaches calls after ∧ (∀ call ∈ calls, call.onFiles = true) ∧
    (∀ f ∈ openings calls, f < after.files.size) ∧ (openings calls).map after.fileName = opened.map (·.path)
  names : ∀ f, f < w.files.size → after.fileName f = w.fileName f
  tree : after.tree = opened.foldl (Request.grant w.cwd) w.tree
  memory : after.memory = w.memory
  children : after.children = w.children
  still : Still w after
  flows : Flows w after
  coupled : Sound w → ∀ calls, after.trace = calls ++ w.trace → Coupled w calls after

section
variable {w middle after : World}

theorem coupled_of_size (same : after.files.size ≤ w.files.size) : Coupled w calls after := by
  intro f file p found new _
  exact absurd (Array.getElem?_eq_some_iff.mp found).1 (Nat.not_lt.mpr (Nat.le_trans same new))

-- Nobody else comes to read from a pipe of the first part.
theorem Coupled.trans (first : Coupled w earlier middle) (endures : Endures middle after) (second : Coupled middle later after) :
    Coupled w (later ++ earlier) after := by
  intro f file p found new writes
  by_cases old : f < middle.files.size
  · have there : middle.file? f = some middle.files[f] := Array.getElem?_eq_getElem old
    obtain ⟨same, again, stays⟩ := endures.files f _ there
    cases found.symm.trans again
    obtain ⟨made, reader, recorded, only⟩ := first f _ p there new (stays.channel.symm.trans writes)
    refine ⟨Nat.lt_of_lt_of_le made endures.pipes, reader, List.mem_append_right _ recorded, fun g other here reads => ?_⟩
    rcases endures.reader here reads with ⟨before, known, still, _⟩ | ⟨fresh, _⟩
    · exact only g before known still
    · exact absurd made (Nat.not_lt.mpr fresh)
  · obtain ⟨made, reader, recorded, only⟩ := second f file p found (Nat.le_of_not_lt old) writes
    exact ⟨made, reader, List.mem_append_left _ recorded, only⟩

theorem Footprint.refl (w : World) : Footprint w [] w where
  calls := ⟨[], Reaches.refl w, by simp, by simp [openings], rfl⟩
  names _ _ := rfl
  tree := rfl
  memory := rfl
  children := rfl
  still := Still.refl w
  flows := Flows.refl w
  coupled _ _ _ := coupled_of_size (Nat.le_refl _)

theorem Footprint.trans (first : Footprint w earlier middle) (second : Footprint middle later after) :
    Footprint w (earlier ++ later) after where
  calls := by
    obtain ⟨before, reachedFirst, onlyFirst, oldFiles, namesFirst⟩ := first.calls
    obtain ⟨next, reachedSecond, onlySecond, newFiles, namesSecond⟩ := second.calls
    refine ⟨next ++ before, reachedFirst.trans reachedSecond, ?_, ?_, ?_⟩
    · intro call member
      rcases List.mem_append.mp member with late | early
      · exact onlySecond call late
      · exact onlyFirst call early
    · intro f present
      rw [openings_append, List.mem_append] at present
      rcases present with old | new
      · exact Nat.lt_of_lt_of_le (oldFiles f old) reachedSecond.files
      · exact newFiles f new
    · rw [openings_append, List.map_append, List.map_append, namesSecond, ← namesFirst]
      congr 1
      exact List.map_congr_left fun f present => second.names f (oldFiles f present)
  names f present := by
    obtain ⟨_, reachedFirst, _⟩ := first.calls
    rw [second.names f (Nat.lt_of_lt_of_le present reachedFirst.files), first.names f present]
  tree := by rw [second.tree, first.tree, first.still.cwd, List.foldl_append]
  memory := second.memory.trans first.memory
  children := second.children.trans first.children
  still := first.still.trans second.still
  flows := first.flows.trans second.flows
  coupled sound calls traced := by
    obtain ⟨before, reachedFirst, _⟩ := first.calls
    obtain ⟨next, reachedSecond, _⟩ := second.calls
    have whole : calls = next ++ before := by
      rw [reachedSecond.trace, reachedFirst.trace, ← List.append_assoc] at traced
      exact (List.append_cancel_right traced).symm
    rw [whole]
    exact (first.coupled sound _ reachedFirst.trace).trans second.flows.endures
      (second.coupled (first.flows.endures.sound sound) _ reachedSecond.trace)

theorem Footprint.then_none (first : Footprint w opened middle) (second : Footprint middle [] after) :
    Footprint w opened after := by
  simpa using first.trans second

theorem Footprint.after_none (first : Footprint w [] middle) (second : Footprint middle opened after) :
    Footprint w opened after :=
  first.trans second

-- Calls that open nothing by name: only descriptors change.
theorem footprint_none (reached : w.Reaches calls after) (only : ∀ call ∈ calls, call.onFiles = true)
    (none : openings calls = []) (names : ∀ f, f < w.files.size → after.fileName f = w.fileName f) (endures : Endures w after)
    (coupled : Sound w → Coupled w calls after)
    (same : ∃ files pipes trace faults, after = { w with files := files, pipes := pipes, trace := trace, faults := faults }) :
    Footprint w [] after := by
  obtain ⟨files, pipes, trace, faults, rfl⟩ := same
  refine ⟨⟨calls, reached, only, by simp [none], by simp [none]⟩, names, rfl, rfl, rfl, ⟨rfl, rfl, rfl⟩, endures.flows rfl, ?_⟩
  intro sound others traced
  rw [List.append_cancel_right (traced.symm.trans reached.trace)]
  exact coupled sound

namespace World

theorem nextFault_footprint (asked : w.nextFault = (fault, after)) : Footprint w [] after := by
  obtain ⟨faults, same⟩ := nextFault_same asked
  refine footprint_none (nextFault_of_eq asked) (by simp) rfl ?_ (nextFault_endures asked)
    (fun _ => coupled_of_size (Nat.le_of_eq (congrArg Array.size (nextFault_files asked)))) ⟨_, _, _, _, same⟩
  intro f _
  rw [same]
  rfl

theorem fileName_push (f : FileId) (present : f < w.files.size) (pushed : after.files = w.files.push file) :
    after.fileName f = w.fileName f := by
  unfold fileName file?
  rw [pushed, Array.getElem?_push, if_neg (Nat.ne_of_lt present)]

theorem fileName_shut (g : FileId) (found : w.files[f]? = some file)
    (shut : after.files = w.files.setIfInBounds f { file with closed := true }) : after.fileName g = w.fileName g := by
  unfold fileName file?
  rw [shut, Array.getElem?_setIfInBounds]
  by_cases same : f = g
  · subst same
    rw [if_pos rfl, if_pos (Array.getElem?_eq_some_iff.mp found).1, found]
  · rw [if_neg same]

theorem close_footprint (w : World) (f : FileId) : Footprint w [] (w.close f).2 := by
  rcases close_left w f with ⟨left, _⟩ | ⟨file, faults, found, left⟩
  · refine footprint_none (close_reaches w f) (by simp [Call.onFiles]) rfl ?_ (close_endures w f)
      (fun _ => coupled_of_size (by simp [left, World.note])) ?_
    · intro g _
      rw [left]
      rfl
    · rw [left]
      exact ⟨_, _, _, _, rfl⟩
  · refine footprint_none (close_reaches w f) (by simp [Call.onFiles]) rfl ?_ (close_endures w f)
      (fun _ => coupled_of_size (by simp [left, shut])) ?_
    · intro g _
      rw [left]
      exact fileName_shut g found rfl
    · rw [left]
      exact ⟨_, _, _, _, rfl⟩

-- The ends of a new pipe are the last two files there are.
theorem pushed_coupled (sound : Sound w) (reads : reader.channel = .reader w.pipes.size) (writes : writer.channel = .writer w.pipes.size) :
    Coupled w [.piped w.files.size (w.files.push reader).size]
      { w with pipes := w.pipes.push [], files := (w.files.push reader).push writer, trace := calls } := by
  intro f file p found new into
  have last : f = w.files.size + 1 ∧ file = writer := by
    simp only [file?, Array.getElem?_push, Array.size_push] at found
    split at found
    · rename_i same
      exact ⟨same, (Option.some.inj found).symm⟩
    · split at found
      · cases found
        rw [reads] at into
        cases into
      · exact absurd (Array.getElem?_eq_some_iff.mp found).1 (Nat.not_lt.mpr new)
  obtain ⟨rfl, rfl⟩ := last
  rw [writes] at into
  cases into
  refine ⟨by simp, w.files.size, by simp, fun g other here from_pipe => ?_⟩
  simp only [file?, Array.getElem?_push, Array.size_push] at here
  split at here
  · cases here
    rw [writes] at from_pipe
    cases from_pipe
  · split at here
    · assumption
    · exact absurd (sound g other _ here from_pipe) (Nat.lt_irrefl _)

theorem pipe_footprint (made : w.pipe = (result, after)) : Footprint w [] after := by
  unfold pipe at made
  split at made
  · rename_i asked
    cases made
    exact nextFault_footprint asked
  · rename_i granted asked
    cases made
    refine (nextFault_footprint asked).then_none ?_
    have pipes : Reaches granted [] { granted with pipes := granted.pipes.push [] } := reaches_of_same rfl rfl rfl
    refine footprint_none (pipes.before_quiet ((attach_reaches _ _).before_quiet (attach_note_reaches _ _ _ (by simp))))
      (by simp [Call.onFiles]) rfl ?_ ((piped_endures granted _ rfl).trans ((attach_endures _ (by simp)).trans (note_endures _ _)))
      (fun sound => pushed_coupled sound rfl rfl) ⟨_, _, _, _, rfl⟩
    intro f present
    have one : (attach { granted with pipes := granted.pipes.push [] }
        { name := ascii "|0", channel := .reader granted.pipes.size }).2.fileName f = granted.fileName f :=
      fileName_push f present rfl
    rw [← one]
    exact fileName_push f (by simpa [attach] using Nat.lt_succ_of_lt present) rfl

theorem openFile_footprint (opened : w.openFile path mode = (.ok f, after)) : Footprint w [⟨mode, path⟩] after := by
  obtain ⟨reached, _, size, _⟩ := openFile_reaches opened
  obtain ⟨_, file, _, named, _, rfl, ⟨id, channel⟩, _, _, files⟩ := openFile_added opened
  have endures := openFile_endures w path mode
  rw [opened] at endures
  have effect : after.tree = Request.grant w.cwd w.tree ⟨mode, path⟩ ∧ after.memory = w.memory ∧
      after.children = w.children ∧ Still w after ∧ after.halted = w.halted := by
    unfold openFile at opened
    split at opened
    · cases opened
    · rename_i granted asked
      obtain ⟨faults, rfl⟩ := nextFault_same asked
      split at opened
      · cases opened
      · rename_i id tree found
        cases opened
        refine ⟨?_, rfl, rfl, ⟨rfl, rfl, rfl⟩, rfl⟩
        unfold Request.grant
        rw [show openNode w.tree w.cwd path mode = .ok (id, tree) from found]
        rfl
  obtain ⟨tree, memory, children, still, halted⟩ := effect
  refine ⟨⟨_, reached, by simp [Call.onFiles], ?_, ?_⟩, fun g present => fileName_push g present files, tree, memory,
    children, still, endures.flows halted, fun _ _ _ => ?_⟩
  · intro g new
    have same : g = w.files.size := by simpa [openings, Call.opens] using new
    subst same
    rw [size]
    exact Nat.lt_succ_self _
  · simp [openings, Call.opens, fileName, file?, files, named]
  · intro g opened p found new writes
    rw [file?, files, Array.getElem?_push] at found
    split at found
    · cases found
      rw [channel] at writes
      cases writes
    · exact absurd (Array.getElem?_eq_some_iff.mp found).1 (Nat.not_lt.mpr new)

theorem openFile_refused_footprint (refused : w.openFile path mode = (.error e, after)) : Footprint w [] after := by
  unfold openFile at refused
  split at refused
  · rename_i asked
    cases refused
    exact nextFault_footprint asked
  · rename_i asked
    split at refused
    · cases refused
      exact nextFault_footprint asked
    · cases refused

end World

namespace Stdio

theorem drop_footprint (s : Stdio) (f : FileId) (w : World) : Footprint w [] (s.drop f w).2 := by
  have closed := close_footprint w f
  unfold drop
  split
  · exact Footprint.refl w
  · split
    · rename_i after done
      rwa [done] at closed
    · rename_i cause after done
      rwa [done] at closed

theorem replace_footprint (s : Stdio) (slot : Slot) (handle : Option FileId) (w : World) :
    Footprint w [] (s.replace slot handle w).2.2 := by
  unfold replace
  dsimp only
  split
  · exact Footprint.refl w
  · exact drop_footprint _ _ w

theorem release_footprint (s : Stdio) (w : World) : Footprint w [] (s.release w).2.2 := by
  unfold release
  induction Slot.all generalizing s w with
  | nil => exact Footprint.refl w
  | cons slot others ih => exact (s.replace_footprint slot none w).then_none (ih _ _)

-- What can go wrong with descriptors is a failed call, never the text of the line.
theorem drop_fault (s : Stdio) (f : FileId) (w : World) (failed : (s.drop f w).1 = .error fault) : fault.isParse = false := by
  unfold drop at failed
  split at failed
  · cases failed
  · split at failed
    · cases failed
    · cases failed
      rfl

theorem replace_fault (s : Stdio) (slot : Slot) (handle : Option FileId) (w : World)
    (failed : (s.replace slot handle w).1 = .error fault) : fault.isParse = false := by
  unfold replace at failed
  dsimp only at failed
  split at failed
  · cases failed
  · exact drop_fault _ _ w failed

end Stdio

namespace Pipeline

theorem close_footprint (p : Pipeline) (w : World) : Footprint w [] (p.close w).2.2 := by
  have released : ∀ (stages : List Stage) (w : World), Footprint w [] (releaseStages stages w).2.2 := by
    intro stages
    induction stages with
    | nil => exact Footprint.refl
    | cons stage others ih => exact fun w => (stage.stdio.release_footprint w).then_none (ih _)
  exact released p.stages w

end Pipeline

end
end LineShell
