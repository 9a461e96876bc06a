import LineShell.Proofs.Registering
import LineShell.Proofs.Walking
import LineShell.Settings.Load

namespace LineShell.Settings
open Bytes

variable {d : Bytes} {storage : Storage} {tell : Bytes → World → World}

-- The settings file of a directory, by its name.
def fileIn (directory : Bytes) : Bytes := directory ++ slash :: fileName

-- Lines for the maintainer go to an open file, and to none that is kept in memory.
structure Tells (tell : Bytes → World → World) : Prop where
  written : ∀ text w, ∃ f data, tell text w = w.emit f data
  outside : ∀ text w, (tell text w).memory = w.memory

-- The name of the file, taken apart.

theorem plain_fileName : slash ∉ fileName := by decide

theorem kept_fileIn (present : d ≠ []) : Path.kept (fileIn d) = fileName :: Path.kept d :=
  Path.kept_part present plain_fileName ⟨by decide, by decide⟩ (by decide)

theorem fileIn_present (d : Bytes) : fileIn d ≠ [] := by simp [fileIn]

theorem base_fileIn (d : Bytes) : Path.base (fileIn d) = fileName := by
  have last : (fileIn d).reverse.dropWhile (· = slash) = fileName.reverse ++ slash :: d.reverse := by
    simp only [fileIn, List.reverse_append, List.reverse_cons, List.append_assoc]
    rfl
  unfold Path.base
  rw [if_neg (by simp [fileIn]), last]
  change ((fileName.reverse ++ slash :: d.reverse).takeWhile (· ≠ slash)).reverse = fileName
  rw [List.takeWhile_append_of_pos (Path.unslashed plain_fileName)]
  simp

theorem join_fileName (present : d ≠ []) : Path.join [d, fileName] = Path.clean (fileIn d) := Path.join_pair present fileName

theorem clean_fileIn (present : d ≠ []) : Path.clean (fileIn (Path.clean d)) = Path.clean (fileIn d) :=
  Path.clean_append present fileName

theorem directoryOf_fileIn (present : d ≠ []) : directoryOf (fileIn d) = Path.clean d := by
  rw [directoryOf, if_pos (base_fileIn d), fileIn, Path.directory_behind d plain_fileName, Path.clean_trailing present]

theorem directoryOf_plain (other : Path.base d ≠ fileName) : directoryOf d = d := if_neg other

-- Loading reads the same file under both names.

-- The settings a file holds, for a directory.
def readFrom (storage : Storage) (file directory : Bytes) (w : World) : Except SettingsFault Settings :=
  match storage.contents file w with
  | .error cause => .error (.unreadable cause)
  | .ok text => (parse text).map ({ · with storage := storage, directory := directory })

theorem readFrom_directory (storage : Storage) (file directory other : Bytes) (w : World) :
    readFrom storage file other w = (readFrom storage file directory w).map ({ · with directory := other }) := by
  unfold readFrom
  cases storage.contents file w with
  | error cause => rfl
  | ok text =>
    dsimp only
    cases parse text with
    | error fault => rfl
    | ok settings => rfl

theorem load_plain (present : d ≠ []) (other : Path.base d ≠ fileName) (storage : Storage) (w : World) :
    load storage d w = readFrom storage (Path.clean (fileIn d)) d w := by
  unfold load
  dsimp only
  rw [directoryOf_plain other, join_fileName present]
  rfl

theorem load_fileIn (present : d ≠ []) (storage : Storage) (w : World) :
    load storage (fileIn d) w = readFrom storage (Path.clean (fileIn d)) (Path.clean d) w := by
  unfold load
  dsimp only
  rw [directoryOf_fileIn present, join_fileName (Path.clean_present d), clean_fileIn present]
  rfl

theorem load_alike (present : d ≠ []) (other : Path.base d ≠ fileName) (storage : Storage) (w : World) :
    load storage (fileIn d) w = (load storage d w).map ({ · with directory := Path.clean d }) := by
  rw [load_plain present other, load_fileIn present, ← readFrom_directory]

-- The event log.

theorem resolve_clean (present : d ≠ []) (s : Settings) (name : Bytes) :
    ({ s with directory := Path.clean d }).resolve name = ({ s with directory := d }).resolve name := by
  have some : (Path.clean d).isEmpty = false := by simpa using Path.clean_present d
  have given : d.isEmpty = false := by simpa using present
  unfold resolve
  simp only [some, given, Bool.or_false]
  split
  · rfl
  · rw [Path.join_pair present, Path.join_pair (Path.clean_present d), Path.clean_append present]

theorem eventLogPath_clean (present : d ≠ []) (s : Settings) (here : s.directory = d) :
    ({ s with directory := Path.clean d }).eventLogPath = s.eventLogPath := by
  subst here
  exact resolve_clean present s _

-- Built-in settings for the name of the file keep their event log below that name.
theorem eventLogPath_default (present : d ≠ []) :
    ({ directory := fileIn d } : Settings).eventLogPath ≠ ({ directory := d } : Settings).eventLogPath := by
  have named (directory : Bytes) (given : directory ≠ []) :
      Path.kept ({ directory := directory } : Settings).eventLogPath = defaultEventLog :: Path.kept directory := by
    have absolute : Path.isAbsolute defaultEventLog = false := by decide
    have some : directory.isEmpty = false := by simpa using given
    simp only [eventLogPath, resolve, absolute, some, List.isEmpty_nil, ↓reduceIte, Bool.or_false, Bool.false_eq_true]
    rw [Path.join_pair given, Path.kept_clean]
    exact Path.kept_part given (by decide) ⟨by decide, by decide⟩ (by decide)
  intro same
  have kept := congrArg Path.kept same
  rw [named _ (fileIn_present d), named d present, kept_fileIn present] at kept
  simpa using congrArg List.length kept

-- In memory.

theorem parse_empty (settings : Settings) : parse [] ≠ .ok settings := by
  have refused : (parse []).toOption = none := by decide +kernel
  intro parsed
  rw [parsed] at refused
  cases refused

theorem readFrom_memory (file directory : Bytes) (w : World) (c : Settings) :
    readFrom .memory file directory w = .ok c ↔
      ∃ data, w.memory.find? file = some (.file data) ∧
        (parse data).map ({ · with storage := .memory, directory := directory }) = .ok c := by
  unfold readFrom Storage.contents Memory.read?
  dsimp only
  cases found : w.memory.find? file with
  | none => simp
  | some entry =>
    cases entry with
    | directory =>
      have refused : (parse []).map ({ · with storage := .memory, directory := directory }) ≠ .ok c := by
        cases parsed : parse [] with
        | error fault => exact fun same => by cases same
        | ok settings => exact absurd parsed (parse_empty settings)
      simpa using refused
    | file data => simp

theorem normalize_fileIn (present : d ≠ []) : Memory.normalize (fileIn d) = Path.clean (fileIn d) := by
  have stack : Path.kept (Path.clean (fileIn d)) = fileName :: Path.kept d := by rw [Path.kept_clean, kept_fileIn present]
  unfold Memory.normalize
  dsimp only
  rw [if_neg]
  rintro (same | same)
  · rw [same] at stack
    cases stack
  · rw [same] at stack
    exact absurd (List.cons.inj stack).1 (by decide)

-- What setting up comes to in memory: the file is there or has been written, and is read.
theorem setUp_memory (telling : Tells tell) (directory : Bytes) (w : World) :
    ∃ after, setUp .memory directory tell w = (load .memory directory after, after) ∧
      after.memory =
        if ((w.memory.makeDirectories directory).find? (Path.join [directory, fileName])).isSome then
          w.memory.makeDirectories directory
        else (w.memory.makeDirectories directory).write (Path.join [directory, fileName]) defaultDocument := by
  unfold setUp Storage.makeDirectories Storage.status
  dsimp only
  by_cases known : ((w.memory.makeDirectories directory).find? (Path.join [directory, fileName])).isSome = true
  · rw [if_pos known, if_pos known]
    exact ⟨_, rfl, telling.outside _ _⟩
  · rw [if_neg known, if_neg known]
    refine ⟨_, rfl, ?_⟩
    simp only [telling.outside]

-- By the name of the file only settings that are there are taken up, and a second file is left below the first.
theorem setUp_memory_fileIn (present : d ≠ []) (telling : Tells tell) (w : World) (c : Settings) :
    ((setUp .memory (fileIn d) tell w).1 = .ok c ↔ load .memory (fileIn d) w = .ok c) ∧
      ((setUp .memory (fileIn d) tell w).2.memory.find? (fileIn (fileIn d))).isSome := by
  obtain ⟨after, ran, left⟩ := setUp_memory telling (fileIn d) w
  rw [join_fileName (fileIn_present d), Memory.find_clean] at left
  have registered := Memory.makeDirectories_registers w.memory (fileIn d)
  have made := Memory.makeDirectories_present w.memory (fileIn d)
  have apart : Memory.normalize (fileIn d) ≠ Memory.normalize (Path.clean (fileIn (fileIn d))) := by
    rw [Memory.normalize_clean, normalize_fileIn present, normalize_fileIn (fileIn_present d)]
    intro same
    have kept := congrArg (fun path => (Path.kept path).length) same
    simp [kept_fileIn present, kept_fileIn (fileIn_present d)] at kept
  generalize w.memory.makeDirectories (fileIn d) = m at *
  have stays : after.memory.find? (fileIn d) = m.find? (fileIn d) := by
    rw [left]
    split
    · rfl
    · rcases Memory.write_registers m defaultDocument apart with same | ⟨free, -⟩
      · exact same
      · rw [free] at made
        cases made
  rw [ran, load_fileIn present, load_fileIn present, readFrom_memory, readFrom_memory]
  simp only [Memory.find_clean, stays]
  constructor
  · rcases registered (fileIn d) with same | ⟨free, marked⟩
    · rw [same]
    · simp [free, marked]
  · rw [left]
    split
    · assumption
    · rw [← Memory.find_clean, Memory.write_find, Option.isSome_some]

-- By the name of the directory, those that are there or the built-in ones.
theorem setUp_memory_plain (present : d ≠ []) (other : Path.base d ≠ fileName) (telling : Tells tell) (w : World) :
    (setUp .memory d tell w).1 =
      if (w.memory.find? (fileIn d)).isSome then load .memory d w
      else (parse defaultDocument).map ({ · with storage := .memory, directory := d }) := by
  obtain ⟨after, ran, left⟩ := setUp_memory telling d w
  have untouched := Memory.makeDirectories_apart w.memory d (normalize_fileIn present) (by simp [kept_fileIn present])
  rw [join_fileName present, Memory.find_clean, untouched] at left
  rw [ran, load_plain present other, load_plain present other]
  have congr : ∀ v : World, v.memory.find? (fileIn d) = w.memory.find? (fileIn d) →
      readFrom .memory (Path.clean (fileIn d)) d v = readFrom .memory (Path.clean (fileIn d)) d w := by
    intro v same
    simp only [readFrom, Storage.contents, Memory.read?, Memory.find_clean, same]
  split
  · rename_i known
    rw [if_pos known] at left
    exact congr after (by rw [left, untouched])
  · rename_i free
    rw [if_neg free] at left
    have written : after.memory.find? (Path.clean (fileIn d)) = some (.file defaultDocument) := by
      rw [left, Memory.write_find]
    simp only [readFrom, Storage.contents, Memory.read?, written, Option.map_some]

-- On disk.

theorem clean_inside (present : d ≠ []) :
    Path.clean (fileIn (fileIn d)) = Path.clean (fileIn d) ++ slash :: fileName := by
  rw [Path.clean_written (fileIn (fileIn d)), Path.clean_written (fileIn d), kept_fileIn (fileIn_present d),
    Path.written_behind _ (by simp [kept_fileIn present])]
  rw [fileIn, Path.isAbsolute_append (fileIn_present d)]

-- A second file below the first makes the first a directory.
theorem file_directory {t : Tree} {start : NodeId} (present : d ≠ [])
    (located : t.locate start true (Path.clean (fileIn (fileIn d))) = .ok place) :
    ∃ id, t.find start (Path.clean (fileIn d)) = .ok id ∧ t.isDirectory id = true := by
  have closed : (Path.clean (fileIn d)).getLast? ≠ some slash := by
    rw [Path.clean_written, kept_fileIn present]
    obtain ⟨front, split⟩ := Path.written_ends (Path.isAbsolute (fileIn d)) (Path.kept d) fileName
    have last : fileName.getLast? = some 0x6C := by decide
    rw [← split, List.getLast?_append, last]
    exact fun same => by cases same
  rw [clean_inside present] at located
  exact Tree.find_inner located (Path.clean_present _) closed plain_fileName (by decide)

theorem load_directory {w : World} {id : NodeId} (present : d ≠ []) (found : w.tree.find w.cwd (Path.clean (fileIn d)) = .ok id)
    (directory : w.tree.isDirectory id = true) (c : Settings) : load .disk (fileIn d) w ≠ .ok c := by
  rw [load_fileIn present, readFrom, Storage.contents_directory found directory]
  exact fun same => by cases same

-- By the name of the file nothing can be set up: what is made under that name is a directory.
theorem setUp_disk_fileIn (present : d ≠ []) (telling : Tells tell) (w : World) (c : Settings) :
    (setUp .disk (fileIn d) tell w).1 ≠ .ok c := by
  -- Nothing that is done after the second file has a place takes the directory away.
  have refused : ∀ (before after : World) (place : Tree.Place),
      before.tree.locate before.cwd true (Path.clean (fileIn (fileIn d))) = .ok place →
      before.tree.Keeps after.tree → after.cwd = before.cwd → load .disk (fileIn d) after ≠ .ok c := by
    intro before after place located keeps same
    obtain ⟨id, found, directory⟩ := file_directory present located
    have still : after.tree.find after.cwd (Path.clean (fileIn d)) = .ok id := by
      rw [same]
      exact keeps.find found directory
    exact load_directory present still (keeps.isDirectory directory) c
  have told : ∀ text v, v.tree.Keeps (tell text v).tree ∧ (tell text v).cwd = v.cwd := by
    intro text v
    obtain ⟨f, data, written⟩ := telling.written text v
    rw [written]
    exact ⟨World.emit_keeps v f data, (World.emit_still v f data).cwd⟩
  unfold setUp
  rw [join_fileName (fileIn_present d)]
  split
  · exact fun same => by cases same
  rename_i made _
  dsimp only
  split
  · rename_i known
    obtain ⟨place, located⟩ := Storage.status_located known
    exact refused _ _ place located (told _ _).1 (told _ _).2
  · split
    · split
      · exact fun same => by cases same
      · rename_i saved
        obtain ⟨⟨place, located⟩, keeps, same⟩ := Storage.save_keeps saved
        exact refused _ _ place located keeps same
    · exact fun same => by cases same

-- Built-in settings stand in for those that are missing, and for no others.

def Missing (path : Bytes) (w : World) : Prop := ∃ cause, load .disk path w = .error (.unreadable cause) ∧ cause.isMissing = true

theorem loadOrDefault_missing (missing : Missing path w) : loadOrDefault path w = .ok { directory := path } := by
  obtain ⟨cause, loaded, gone⟩ := missing
  simp only [loadOrDefault, loaded, if_pos gone]

theorem loadOrDefault_load (there : ¬Missing path w) : loadOrDefault path w = load .disk path w := by
  unfold loadOrDefault
  split
  · rename_i cause loaded
    rw [if_neg fun gone => there ⟨cause, loaded, gone⟩, loaded]
  · rfl

theorem missing_fileIn (present : d ≠ []) (other : Path.base d ≠ fileName) : Missing (fileIn d) w ↔ Missing d w := by
  unfold Missing
  rw [load_alike present other]
  cases load .disk d w with
  | error fault => simp [Except.map]
  | ok settings => simp [Except.map]

theorem loadOrDefault_alike (present : d ≠ []) (other : Path.base d ≠ fileName) (there : ¬Missing d w) :
    loadOrDefault (fileIn d) w = (loadOrDefault d w).map ({ · with directory := Path.clean d }) := by
  rw [loadOrDefault_load there, loadOrDefault_load (mt (missing_fileIn present other).mp there), load_alike present other]

theorem load_directory_given (present : d ≠ []) (other : Path.base d ≠ fileName) (loaded : load storage d w = .ok c) :
    c.directory = d := by
  rw [load_plain present other, readFrom] at loaded
  split at loaded
  · cases loaded
  · rename_i text _
    cases parsed : parse text with
    | error fault =>
      rw [parsed] at loaded
      cases loaded
    | ok settings =>
      rw [parsed] at loaded
      cases loaded
      rfl

-- A directory and the file in it are two names for the same settings as far as settings that are there are loaded. Where
-- there are none, the name of the file is taken for that of a directory: built-in settings look for their event log below
-- it, and setting up makes it a directory, whose settings cannot be read.
theorem named_by_file (present : d ≠ []) (other : Path.base d ≠ fileName) (telling : Tells tell) (w : World) :
    (∀ storage, load storage (fileIn d) w = (load storage d w).map ({ · with directory := Path.clean d })) ∧
    (∀ storage c, load storage d w = .ok c → ({ c with directory := Path.clean d }).eventLogPath = c.eventLogPath) ∧
    (¬Missing d w → loadOrDefault (fileIn d) w = (loadOrDefault d w).map ({ · with directory := Path.clean d })) ∧
    (Missing d w →
      loadOrDefault d w = .ok { directory := d } ∧ loadOrDefault (fileIn d) w = .ok { directory := fileIn d } ∧
        ({ directory := fileIn d } : Settings).eventLogPath ≠ ({ directory := d } : Settings).eventLogPath) ∧
    (∀ storage c, (setUp storage (fileIn d) tell w).1 = .ok c ↔ storage = .memory ∧ load .memory (fileIn d) w = .ok c) ∧
    ((setUp .memory (fileIn d) tell w).2.memory.find? (fileIn (fileIn d))).isSome ∧
    (setUp .memory d tell w).1 =
      (if (w.memory.find? (fileIn d)).isSome then load .memory d w
      else (parse defaultDocument).map ({ · with storage := .memory, directory := d })) := by
  refine ⟨fun storage => load_alike present other storage w, ?_, loadOrDefault_alike present other, ?_, ?_, ?_,
    setUp_memory_plain present other telling w⟩
  · exact fun storage c loaded => eventLogPath_clean present c (load_directory_given present other loaded)
  · exact fun missing => ⟨loadOrDefault_missing missing, loadOrDefault_missing ((missing_fileIn present other).mpr missing),
      eventLogPath_default present⟩
  · intro storage c
    cases storage with
    | disk => simpa using setUp_disk_fileIn present telling w c
    | memory => simpa using (setUp_memory_fileIn present telling w c).1
  · exact (setUp_memory_fileIn present telling w {}).2

-- A directory without settings.
def bare : World := { tree := Tree.empty.add Tree.root (ascii "d") (.directory Tree.root []) }

-- Nobody is told.
def silently (text : Bytes) (w : World) : World := w.emit none text

theorem bare_missing : Missing (ascii "d") bare := by
  have gone : bare.tree.find bare.cwd (Path.clean (fileIn (ascii "d"))) = .error Errno.noEntry := rfl
  refine ⟨.onPath (ascii "open") (Path.clean (fileIn (ascii "d"))) (.errno Errno.noEntry), ?_, rfl⟩
  rw [load_plain (by decide) (by decide), readFrom, Storage.contents, gone]

theorem named_by_file_bare :
    ascii "d" ≠ [] ∧ Path.base (ascii "d") ≠ fileName ∧ Tells silently ∧ Missing (ascii "d") bare ∧
      loadOrDefault (fileIn (ascii "d")) bare = .ok { directory := fileIn (ascii "d") } ∧
      ∀ c, (setUp .disk (fileIn (ascii "d")) silently bare).1 ≠ .ok c := by
  have silent : Tells silently := ⟨fun text _ => ⟨none, text, rfl⟩, fun _ _ => rfl⟩
  obtain ⟨-, -, -, missing, setting, -⟩ := named_by_file (d := ascii "d") (by decide) (by decide) silent bare
  refine ⟨by decide, by decide, silent, bare_missing, (missing bare_missing).2.1, fun c done => ?_⟩
  exact absurd ((setting .disk c).mp done).1 (by decide)

theorem named_by_file_missing :
    ∃ settings others, loadOrDefault (ascii "d") bare = .ok settings ∧ loadOrDefault (ascii "d/config.yaml") bare = .ok others ∧
      settings.eventLogPath = ascii "d/events.log" ∧ others.eventLogPath = ascii "d/config.yaml/events.log" := by
  have other : Missing (fileIn (ascii "d")) bare := (missing_fileIn (by decide) (by decide)).mpr bare_missing
  exact ⟨_, _, loadOrDefault_missing bare_missing, loadOrDefault_missing other, by decide, by decide⟩

end LineShell.Settings
