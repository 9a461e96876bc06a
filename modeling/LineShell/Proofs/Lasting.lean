import LineShell.Proofs.Registering
import LineShell.World.Basic

-- What lasts of a world whatever goes on in it: files stay what they are, nobody else comes to read from a pipe, no
-- file grows beyond the limit, and a shell that is stuck stays so.
namespace LineShell

namespace Tree
variable {t middle later : Tree}

-- How long a file is, by what stands at its place.
def sizeOf? : Option Node → Nat
  | some (.file data _) => data.length
  | _ => 0

theorem data_length (t : Tree) (id : NodeId) : ((t.data id).toOption.getD []).length = sizeOf? (t.node? id) := by
  unfold data
  rcases t.node? id with _ | (_ | _ | _ | _ | _) <;> rfl

def Within (t later : Tree) : Prop := ∀ id, sizeOf? (later.node? id) ≤ max (sizeOf? (t.node? id)) World.fileLimit

theorem Within.refl (t : Tree) : Within t t := fun _ => Nat.le_max_left _ _

theorem Within.trans (first : Within t middle) (second : Within middle later) : Within t later := by
  intro id
  have before := first id
  have after := second id
  omega

theorem within_set (short : sizeOf? (some new) ≤ max (sizeOf? (t.node? place)) World.fileLimit) :
    Within t ⟨t.nodes.setIfInBounds place new⟩ := by
  intro id
  by_cases here : place = id ∧ place < t.nodes.size
  · obtain ⟨rfl, inside⟩ := here
    simpa [node?, inside] using short
  · have same : node? ⟨t.nodes.setIfInBounds place new⟩ id = t.node? id := by
      unfold node?
      rw [Array.getElem?_setIfInBounds]
      by_cases at_place : place = id
      · subst at_place
        have outside : ¬place < t.nodes.size := fun inside => here ⟨rfl, inside⟩
        simp [outside]
      · rw [if_neg at_place]
    rw [same]
    exact Nat.le_max_left _ _

theorem within_push (short : sizeOf? (some new) ≤ World.fileLimit) : Within t ⟨t.nodes.push new⟩ := by
  intro id
  by_cases last : id = t.nodes.size
  · subst last
    refine Nat.le_trans ?_ (Nat.le_max_right _ _)
    simpa [node?] using short
  · have same : node? ⟨t.nodes.push new⟩ id = t.node? id := by
      unfold node?
      rw [Array.getElem?_push, if_neg last]
    rw [same]
    exact Nat.le_max_left _ _

theorem add_within (t : Tree) (directory : NodeId) (name : Bytes) (short : sizeOf? (some node) ≤ World.fileLimit) :
    Within t (t.add directory name node) := by
  unfold add
  split
  · exact (within_set (Nat.zero_le _)).trans (within_push short)
  · exact .refl t

theorem setData_within (short : text.length ≤ max (sizeOf? (t.node? place)) World.fileLimit) :
    Within t (t.setData place text) := by
  unfold setData
  split
  · exact within_set short
  · exact .refl t

theorem removeEntry_within (t : Tree) (directory : NodeId) (name : Bytes) : Within t (t.removeEntry directory name) := by
  unfold removeEntry
  split
  · exact within_set (Nat.zero_le _)
  · exact .refl t

end Tree

namespace World
variable {w middle after : World}

-- What a file stays, whoever has it.
structure Stays (file later : OpenFile) : Prop where
  channel : later.channel = file.channel
  closed : file.closed = true → later.closed = true
  attended : file.attended = true → later.attended = true

structure Endures (w after : World) : Prop where
  files : ∀ f file, w.file? f = some file → ∃ later, after.file? f = some later ∧ Stays file later
  pipes : w.pipes.size ≤ after.pipes.size
  readers : ∀ f file p, after.file? f = some file → file.channel = .reader p →
    (w.file? f).isSome ∨ w.pipes.size ≤ p ∧ p < after.pipes.size
  extents : ∀ channel, after.extent channel ≤ max (w.extent channel) fileLimit
  log : after.log = w.log
  halted : ∀ halt, w.halted = some halt → ∃ later, after.halted = some later ∧ later.cause = halt.cause

theorem Stays.refl (file : OpenFile) : Stays file file := ⟨rfl, id, id⟩

theorem Stays.trans (first : Stays file between) (second : Stays between later) : Stays file later :=
  ⟨second.channel.trans first.channel, second.closed ∘ first.closed, second.attended ∘ first.attended⟩

-- Who reads from a pipe afterwards did so before, or the pipe is new.
theorem Endures.reader (endures : Endures w after) (found : after.file? f = some file) (reads : file.channel = .reader p) :
    (∃ before, w.file? f = some before ∧ before.channel = .reader p ∧ Stays before file) ∨
      w.pipes.size ≤ p ∧ p < after.pipes.size := by
  refine (endures.readers f file p found reads).imp_left fun present => ?_
  obtain ⟨before, known⟩ := Option.isSome_iff_exists.mp present
  obtain ⟨later, there, stays⟩ := endures.files f before known
  cases found.symm.trans there
  exact ⟨before, known, stays.channel.symm.trans reads, stays⟩

theorem Endures.trans (first : Endures w middle) (second : Endures middle after) : Endures w after where
  files f file found := by
    obtain ⟨between, there, stays⟩ := first.files f file found
    obtain ⟨later, last, further⟩ := second.files f between there
    exact ⟨later, last, stays.trans further⟩
  pipes := Nat.le_trans first.pipes second.pipes
  readers f file p found reads := by
    rcases second.reader found reads with ⟨between, there, still, _⟩ | ⟨fresh, made⟩
    · exact (first.readers f between p there still).imp_right fun ⟨fresh, made⟩ => ⟨fresh, Nat.lt_of_lt_of_le made second.pipes⟩
    · exact .inr ⟨Nat.le_trans first.pipes fresh, made⟩
  extents channel := by
    have before := first.extents channel
    have later := second.extents channel
    omega
  log := second.log.trans first.log
  halted halt stuck := by
    obtain ⟨between, there, cause⟩ := first.halted halt stuck
    obtain ⟨later, last, same⟩ := second.halted between there
    exact ⟨later, last, same.trans cause⟩

-- No file is touched but by what is written to the tree or kept in memory.
theorem endures_of_extents (sameFiles : after.files = w.files) (samePipes : after.pipes.size = w.pipes.size)
    (extents : ∀ channel, after.extent channel ≤ max (w.extent channel) fileLimit) (sameLog : after.log = w.log)
    (sameHalt : after.halted = w.halted) : Endures w after where
  files f file found := ⟨file, by rwa [file?, sameFiles], .refl file⟩
  pipes := Nat.le_of_eq samePipes.symm
  readers f file p found _ := by
    rw [file?, sameFiles] at found
    exact .inl (Option.isSome_iff_exists.mpr ⟨file, found⟩)
  extents := extents
  log := sameLog
  halted halt stuck := ⟨halt, sameHalt.trans stuck, rfl⟩

theorem endures_of_same (sameFiles : after.files = w.files) (samePipes : after.pipes.size = w.pipes.size)
    (sameTree : after.tree = w.tree) (sameMemory : after.memory = w.memory) (sameLog : after.log = w.log)
    (sameHalt : after.halted = w.halted) : Endures w after := by
  refine endures_of_extents sameFiles samePipes (fun channel => ?_) sameLog sameHalt
  have same : after.extent channel = w.extent channel := by
    unfold extent
    rw [sameTree, sameMemory]
  rw [same]
  exact Nat.le_max_left _ _

theorem Endures.refl (w : World) : Endures w w := endures_of_same rfl rfl rfl rfl rfl rfl

theorem endures_of_tree (within : Tree.Within w.tree changed) : Endures w { w with tree := changed } := by
  refine endures_of_extents rfl rfl (fun channel => ?_) rfl rfl
  cases channel with
  | node id =>
    simp only [extent, Tree.data_length]
    exact within id
  | _ => exact Nat.le_max_left _ _

theorem note_endures (w : World) (call : Call) : Endures w (w.note call) := endures_of_same rfl rfl rfl rfl rfl rfl

theorem nextFault_same (asked : w.nextFault = (fault, after)) : ∃ faults, after = { w with faults := faults } := by
  unfold nextFault at asked
  split at asked
  · cases asked
    exact ⟨_, rfl⟩
  · cases asked
    exact ⟨_, rfl⟩

theorem nextFault_endures (asked : w.nextFault = (fault, after)) : Endures w after := by
  obtain ⟨faults, rfl⟩ := nextFault_same asked
  exact endures_of_same rfl rfl rfl rfl rfl rfl

-- Files that are replaced where they are.
theorem endures_of_files (each : ∀ f file, w.file? f = some file → ∃ new, changed[f]? = some new ∧ Stays file new)
    (known : ∀ f file, changed[f]? = some file → (w.file? f).isSome) : Endures w { w with files := changed } :=
  ⟨each, Nat.le_refl _, fun f file _ found _ => .inl (known f file found), fun _ => Nat.le_max_left _ _, rfl,
    fun halt stuck => ⟨halt, stuck, rfl⟩⟩

theorem modify_endures (w : World) (f : FileId) (stays : ∀ file, Stays file (change file)) :
    Endures w { w with files := w.files.modify f change } := by
  refine endures_of_files (fun g file found => ?_) fun g file found => ?_
  · rw [file?] at found
    rw [Array.getElem?_modify, found]
    split
    · exact ⟨_, rfl, stays file⟩
    · exact ⟨file, rfl, .refl file⟩
  · have inside : g < w.files.size := by simpa using (Array.getElem?_eq_some_iff.mp found).1
    simp [file?, inside]

theorem setFile_endures (found : w.file? f = some file) (stays : Stays file new) : Endures w (w.setFile f new) := by
  have inside : f < w.files.size := (Array.getElem?_eq_some_iff.mp found).1
  refine endures_of_files (fun g other there => ?_) fun g other there => ?_
  · by_cases same : f = g
    · subst same
      cases found.symm.trans there
      exact ⟨new, by simp [inside], stays⟩
    · exact ⟨other, by simpa [same, file?] using there, .refl other⟩
  · have present : g < w.files.size := by simpa using (Array.getElem?_eq_some_iff.mp there).1
    simp [file?, present]

theorem attach_kept (w : World) (new : OpenFile) (found : w.file? f = some file) : (w.attach new).2.file? f = some file := by
  have inside : f < w.files.size := (Array.getElem?_eq_some_iff.mp found).1
  simpa [file?, attach, Array.getElem?_push, Nat.ne_of_lt inside] using found

theorem attach_known (found : (w.attach new).2.file? f = some file) : file = new ∨ (w.file? f).isSome := by
  by_cases last : f = w.files.size
  · left
    simpa [file?, attach, last, eq_comm] using found
  · right
    have before : w.file? f = some file := by simpa [file?, attach, Array.getElem?_push, last] using found
    rw [before]
    rfl

theorem attach_endures (w : World) (plain : ∀ p, new.channel ≠ .reader p) : Endures w (w.attach new).2 := by
  refine ⟨fun f file found => ⟨file, attach_kept w new found, .refl file⟩, Nat.le_refl _, ?_, fun _ => Nat.le_max_left _ _,
    rfl, fun halt stuck => ⟨halt, stuck, rfl⟩⟩
  intro f file p found reads
  rcases attach_known found with rfl | present
  · exact absurd reads (plain p)
  · exact .inl present

-- A pipe is made together with the file that reads from it.
theorem piped_endures (w : World) (new : OpenFile) (reads : new.channel = .reader w.pipes.size) :
    Endures w (attach { w with pipes := w.pipes.push [] } new).2 := by
  refine ⟨fun f file found => ⟨file, attach_kept { w with pipes := w.pipes.push [] } new found, .refl file⟩, by simp [attach], ?_,
    fun _ => Nat.le_max_left _ _, rfl, fun halt stuck => ⟨halt, stuck, rfl⟩⟩
  intro f file p found channel
  rcases attach_known found with rfl | present
  · rw [reads] at channel
    cases channel
    exact .inr ⟨Nat.le_refl _, by simp [attach]⟩
  · exact .inl present

theorem endures_of_halt (later : ∀ halt, w.halted = some halt → ∃ new, stop = some new ∧ new.cause = halt.cause) :
    Endures w { w with halted := stop } :=
  ⟨fun _ file found => ⟨file, found, .refl file⟩, Nat.le_refl _,
    fun _ file _ found _ => .inl (Option.isSome_iff_exists.mpr ⟨file, found⟩), fun _ => Nat.le_max_left _ _, rfl, later⟩

theorem halt_endures (w : World) (cause : Stop) : Endures w (w.halt cause) := by
  unfold halt
  split
  · exact .refl w
  · rename_i free
    refine endures_of_halt fun halt stuck => ?_
    rw [free] at stuck
    cases stuck

theorem kill_endures (w : World) (signal : Nat) : Endures w (w.kill signal) := by
  unfold kill
  split
  · rename_i halt stuck
    refine endures_of_halt fun old before => ?_
    rw [stuck] at before
    cases before
    exact ⟨_, rfl, rfl⟩
  · rename_i free
    refine endures_of_halt fun old before => ?_
    rw [free] at before
    cases before

theorem halt_same (w : World) (cause : Stop) : ∃ halted, w.halt cause = { w with halted := halted } := by
  unfold halt
  split
  · exact ⟨w.halted, rfl⟩
  · exact ⟨_, rfl⟩

theorem kill_same (w : World) (signal : Nat) : ∃ halted, w.kill signal = { w with halted := halted } := by
  unfold kill
  split <;> exact ⟨_, rfl⟩

-- What a write comes to: nothing is changed, a pipe takes the data and may be what the shell is stuck with, or a file
-- takes them, in memory or in the tree.
inductive Writing (w : World) (f : FileId) (data : Bytes) : Option Errno × World → Prop where
  | unchanged (error : Option Errno) : Writing w f data (error, w)
  | piped (found : w.file? f = some file) (channel : file.channel = .writer p) (filled : World)
    (taken : filled = { w with pipes := w.pipes.modify p (· ++ data) }) : Writing w f data (none, filled)
  | stuck (found : w.file? f = some file) (channel : file.channel = .writer p) (ready : w.hasEnd (.reader p) = true)
    (alone : w.isServed p = false) (filled : World) (taken : filled = { w with pipes := w.pipes.modify p (· ++ data) }) :
    Writing w f data (none, filled.halt (.writing f))
  | kept (name : Bytes) (short : ((w.memory.read? name).getD []).length + data.length ≤ fileLimit) :
    Writing w f data
      (none, { w with memory := w.memory.put name (.file ((w.memory.read? name).getD [] ++ data)) })
  | placed (place : NodeId) (runs : Bool) (found : w.file? f = some file) (node : w.tree.node? place = some (.file old runs))
    (offset : Nat) (short : offset + data.length ≤ fileLimit) :
    Writing w f data
      (none, { w with tree := w.tree.setData place (if offset = old.length then old ++ data else splice old offset data) }.setFile f
        { file with offset := offset + data.length })

theorem writing (w : World) (f : FileId) (data : Bytes) : Writing w f data (w.write f data) := by
  unfold write
  split
  · exact .unchanged _
  · rename_i file found
    split
    · exact .unchanged _
    · split
      · exact .unchanged _
      · rename_i p channel
        split
        · exact .unchanged _
        · rename_i ready
          dsimp only
          split
          · exact .piped found channel _ rfl
          · rename_i alone
            simp only [Bool.or_eq_true, not_or, Bool.not_eq_true] at alone
            exact .stuck found channel (by simpa using ready) alone.2 _ rfl
      · dsimp only
        split
        · exact .unchanged _
        · rename_i short
          exact .kept _ (Nat.le_of_not_lt short)
      · split
        · rename_i old runs node
          dsimp only
          generalize (if file.appending then old.length else file.offset) = offset
          split
          · exact .unchanged _
          · rename_i short
            exact .placed _ runs found node offset (Nat.le_of_not_lt short)
        · exact .unchanged _
        · split <;> exact .unchanged _
        · exact .unchanged _

theorem splice_length (contents data : Bytes) (offset : Nat) :
    (splice contents offset data).length = max contents.length (offset + data.length) := by
  unfold splice
  simp only [List.length_append, List.length_take, List.length_replicate, List.length_drop]
  omega

theorem Writing.endures (writing : Writing w f data result) : Endures w result.2 := by
  cases writing with
  | unchanged => exact .refl w
  | piped _ _ _ taken => exact taken ▸ endures_of_same rfl (by simp) rfl rfl rfl rfl
  | stuck _ _ _ _ filled taken =>
    have piped : Endures w filled := taken ▸ endures_of_same rfl (by simp) rfl rfl rfl rfl
    exact piped.trans (halt_endures _ _)
  | kept name short =>
    refine endures_of_extents rfl rfl (fun channel => ?_) rfl rfl
    cases channel with
    | memory other =>
      simp only [extent, Memory.read?, Memory.find_put]
      split
      · exact Nat.le_trans (by simpa [Memory.read?] using short) (Nat.le_max_right _ _)
      · exact Nat.le_max_left _ _
    | _ => exact Nat.le_max_left _ _
  | placed place runs found node offset short =>
    refine (endures_of_tree (Tree.setData_within ?_)).trans (setFile_endures found ⟨rfl, id, id⟩)
    rw [node]
    dsimp only [Tree.sizeOf?]
    split
    · rw [List.length_append]
      omega
    · rw [splice_length]
      omega

theorem write_endures (w : World) (f : FileId) (data : Bytes) : Endures w (w.write f data).2 := (writing w f data).endures

theorem take_endures (w : World) (f : FileId) (limit : Option Nat) : Endures w (w.take f limit).2 := by
  unfold take
  dsimp only
  split
  · exact .refl w
  · rename_i file found
    split
    · exact .refl w
    · split
      · exact .refl w
      · exact endures_of_same rfl (by simp) rfl rfl rfl rfl
      · exact .refl w
      · split
        · exact .refl w
        · exact setFile_endures found ⟨rfl, id, id⟩

theorem emit_endures (w : World) (f : Option FileId) (data : Bytes) : Endures w (w.emit f data) := by
  unfold emit
  split
  · exact .refl w
  · split
    · split
      · exact .refl w
      · exact write_endures w _ data
    · exact .refl w

-- Opening a file by name leaves the tree alone, puts an empty file down or empties the one there is.
theorem openNode_left {t later : Tree} {start place : NodeId} (opened : openNode t start path mode = .ok (place, later)) :
    later = t ∨ (∃ directory name, later = t.add directory name (.file [] false)) ∨ later = t.setData place [] := by
  unfold openNode at opened
  split at opened
  · cases found : t.find start path <;> rw [found] at opened <;> cases opened
    exact .inl rfl
  · dsimp only at opened
    split at opened
    · cases above : t.locate start true (path.reverse.dropWhile (· = Bytes.slash)).reverse <;> rw [above] at opened <;>
        cases opened
    · cases located : t.locate start true path with
      | error e =>
        rw [located] at opened
        cases opened
      | ok found =>
        rw [located] at opened
        cases found with
        | missing directory name =>
          change (if t.isLinked directory then _ else _) = _ at opened
          split at opened
          · cases opened
            exact .inr (.inl ⟨directory, name, rfl⟩)
          · cases opened
        | found id =>
          change (if t.isDirectory id then _ else _) = _ at opened
          split at opened
          · cases opened
          · cases opened
            split
            · exact .inr (.inr rfl)
            · exact .inl rfl

theorem openNode_within {t later : Tree} {start place : NodeId} (opened : openNode t start path mode = .ok (place, later)) :
    Tree.Within t later := by
  rcases openNode_left opened with rfl | ⟨directory, name, rfl⟩ | rfl
  · exact .refl later
  · exact Tree.add_within t directory name (Nat.zero_le _)
  · exact Tree.setData_within (Nat.zero_le _)

theorem openFile_endures (w : World) (path : Bytes) (mode : Mode) : Endures w (w.openFile path mode).2 := by
  unfold openFile
  split
  · rename_i asked
    exact nextFault_endures asked
  · rename_i granted asked
    split
    · exact nextFault_endures asked
    · rename_i id tree opened
      refine (nextFault_endures asked).trans ((endures_of_tree (openNode_within opened)).trans ?_)
      exact (attach_endures _ (by simp)).trans (note_endures _ _)

theorem close_endures (w : World) (f : FileId) : Endures w (w.close f).2 := by
  unfold close
  dsimp only
  have noted := note_endures w (.closed f)
  split
  · exact noted
  · rename_i file found
    split
    · exact noted
    · have stays : Stays file { file with closed := true } := ⟨rfl, fun _ => rfl, id⟩
      have shut := noted.trans (setFile_endures found stays)
      split
      · rename_i asked
        exact shut.trans (nextFault_endures asked)
      · rename_i asked
        exact shut.trans (nextFault_endures asked)

-- Somebody has an end of a pipe: the shell, or a program that holds it.
theorem isHeld_iff : w.isHeld channel counts = true ↔
    ∃ f file, w.file? f = some file ∧ file.channel = channel ∧ (counts file || w.heldByChild f) = true := by
  unfold isHeld
  simp only [List.any_eq_true, List.mem_range]
  constructor
  · rintro ⟨f, _, held⟩
    split at held
    · rename_i file found
      simp only [Bool.and_eq_true, decide_eq_true_eq] at held
      exact ⟨f, file, found, held⟩
    · cases held
  · rintro ⟨f, file, found, channel, held⟩
    refine ⟨f, (Array.getElem?_eq_some_iff.mp found).1, ?_⟩
    rw [found]
    simp [channel, held]

-- Each end for reading belongs to a pipe there is.
def Sound (w : World) : Prop := ∀ f file p, w.file? f = some file → file.channel = .reader p → p < w.pipes.size

theorem Endures.sound (endures : Endures w after) (sound : Sound w) : Sound after := by
  intro f file p found reads
  rcases endures.reader found reads with ⟨before, known, still, _⟩ | ⟨_, made⟩
  · exact Nat.lt_of_lt_of_le (sound f before p known still) endures.pipes
  · exact made

-- A file, if there is one, that takes all that is written to it: if it leads into a pipe, whoever reads from there goes on
-- reading, or the shell has no end of its own for it.
structure Drains (w : World) (file : Option FileId) : Prop where
  sound : Sound w
  takes : ∀ f, file = some f → ∃ opened, w.file? f = some opened ∧ ∀ p, opened.channel = .writer p → p < w.pipes.size ∧
    ∀ g reader, w.file? g = some reader → reader.channel = .reader p → reader.closed = true ∨ reader.attended = true

theorem Endures.drains (endures : Endures w after) (drains : Drains w file) : Drains after file := by
  refine ⟨endures.sound drains.sound, fun f given => ?_⟩
  obtain ⟨opened, found, takes⟩ := drains.takes f given
  obtain ⟨later, there, stays⟩ := endures.files f opened found
  refine ⟨later, there, fun p writes => ?_⟩
  obtain ⟨old, readers⟩ := takes p (stays.channel.symm.trans writes)
  refine ⟨Nat.lt_of_lt_of_le old endures.pipes, fun g reader here reads => ?_⟩
  rcases endures.reader here reads with ⟨before, known, still, kept⟩ | ⟨fresh, _⟩
  · exact (readers g before known still).imp kept.closed kept.attended
  · exact absurd old (Nat.not_lt.mpr fresh)

-- What is done without a write on which the shell gets stuck.
structure Flows (w after : World) : Prop where
  endures : Endures w after
  free : w.isBlocked = false → after.isBlocked = false

theorem Flows.refl (w : World) : Flows w w := ⟨.refl w, id⟩

theorem Flows.trans (first : Flows w middle) (second : Flows middle after) : Flows w after :=
  ⟨first.endures.trans second.endures, second.free ∘ first.free⟩

theorem Endures.flows (endures : Endures w after) (same : after.halted = w.halted) : Flows w after := by
  refine ⟨endures, fun free => ?_⟩
  unfold isBlocked at free ⊢
  rwa [same]

-- Whoever has an end of such a pipe takes what comes in.
theorem Writing.halted (writing : Writing w f data result) (drains : Drains w (some f)) : result.2.halted = w.halted := by
  cases writing with
  | unchanged => rfl
  | piped _ _ _ taken => exact taken ▸ rfl
  | @stuck file p found channel ready alone =>
    obtain ⟨same, there, takes⟩ := drains.takes f rfl
    cases found.symm.trans there
    obtain ⟨g, reader, known, reads, has⟩ := isHeld_iff.mp ready
    have served : w.isServed p = true := by
      refine isHeld_iff.mpr ⟨g, reader, known, reads, ?_⟩
      rcases (takes p channel).2 g reader known reads with closed | attended
      · simpa [closed] using has
      · simpa [attended] using has
    rw [alone] at served
    cases served
  | kept => rfl
  | placed => rfl

end World
end LineShell
