import LineShell.Proofs.Calls
import LineShell.Proofs.Cleaning
import LineShell.Settings.Load

-- Files that are put down and written leave every directory where it is.
namespace LineShell
open Bytes

-- What a node is like after files were put down and written: a directory has gained entries behind those it had.
inductive Node.Kept : Node → Node → Prop where
  | directory : Node.Kept (.directory parent entries) (.directory parent (entries ++ more))
  | file : Node.Kept (.file data executable) (.file new other)
  | same : Node.Kept node node

namespace Tree

variable {t later last : Tree}

def Keeps (t later : Tree) : Prop := ∀ (id : NodeId) (node : Node), t.node? id = some node → ∃ next, later.node? id = some next ∧ node.Kept next

theorem Keeps.refl (t : Tree) : Keeps t t := fun _ node found => ⟨node, found, .same⟩

theorem Keeps.trans (first : Keeps t later) (second : Keeps later last) : Keeps t last := by
  intro id node found
  obtain ⟨next, there, kept⟩ := first id node found
  obtain ⟨final, still, after⟩ := second id next there
  refine ⟨final, still, ?_⟩
  cases kept with
  | directory =>
    cases after with
    | directory => rw [List.append_assoc]; exact .directory
    | same => exact .directory
  | file =>
    cases after with
    | file => exact .file
    | same => exact .file
  | same => exact after

theorem Keeps.directory {id : NodeId} (keeps : Keeps t later) (found : t.node? id = some (.directory parent entries)) :
    ∃ more, later.node? id = some (.directory parent (entries ++ more)) := by
  obtain ⟨next, there, kept⟩ := keeps id _ found
  cases kept with
  | directory => exact ⟨_, there⟩
  | same => exact ⟨[], by simpa using there⟩

-- One node replaced by one that it may become.
theorem keeps_set (kept : ∀ node, t.node? place = some node → node.Kept new) : Keeps t ⟨t.nodes.setIfInBounds place new⟩ := by
  intro id node found
  by_cases same : place = id
  · subst same
    have inside : place < t.nodes.size := (Array.getElem?_eq_some_iff.mp found).1
    exact ⟨new, by simp [node?, inside], kept node found⟩
  · exact ⟨node, by simpa [node?, Array.getElem?_setIfInBounds, same] using found, .same⟩

theorem setData_keeps (t : Tree) (place : NodeId) (new : Bytes) : Keeps t (t.setData place new) := by
  unfold setData
  split
  · rename_i data executable here
    refine keeps_set fun node found => ?_
    rw [here] at found
    cases found
    exact .file
  · exact .refl t

theorem add_keeps (t : Tree) (directory : NodeId) (name : Bytes) (node : Node) : Keeps t (t.add directory name node) := by
  unfold add
  split
  · rename_i parent entries here
    have entered : Keeps t ⟨t.nodes.setIfInBounds directory (.directory parent (entries ++ [(name, t.nodes.size)]))⟩ := by
      refine keeps_set fun node found => ?_
      rw [here] at found
      cases found
      exact .directory
    intro id old found
    obtain ⟨next, there, kept⟩ := entered id old found
    refine ⟨next, ?_, kept⟩
    have inside := (Array.getElem?_eq_some_iff.mp there).1
    rw [node?, Array.getElem?_push, if_neg (Nat.ne_of_lt inside)]
    exact there
  · exact .refl t

-- Where a name in a directory leads.
inductive Lead where
  | moved (id : NodeId)
  | linked (target : Bytes)
  | absent

def enter (t : Tree) (place : NodeId) (name : Bytes) : Except Errno Lead :=
  match t.node? place with
  | some (.directory parent entries) =>
    if nameLimit < name.length then .error Errno.nameTooLong
    else if name = Path.current then .ok (.moved place)
    else if name = Path.parent then .ok (.moved parent)
    else
      match entry? name entries with
      | none => .ok .absent
      | some id =>
        match t.node? id with
        | some (.link target) => .ok (.linked target)
        | _ => .ok (.moved id)
  | _ => .error Errno.notDirectory

variable {onLink onLater : NodeId → List Bytes → Except Errno Place} {id place start : NodeId}

-- A walk that follows links is its first step and the rest.
theorem walkWith_cons (t : Tree) (onLink : NodeId → List Bytes → Except Errno Place) (place : NodeId) (name : Bytes)
    (rest : List Bytes) :
    t.walkWith true onLink place (name :: rest) =
      match t.enter place name with
      | .error e => .error e
      | .ok (.moved id) => t.walkWith true onLink id rest
      | .ok (.linked target) => onLink (if Path.isAbsolute target then root else place) (components target ++ rest)
      | .ok .absent => if rest.isEmpty then .ok (.missing place name) else .error Errno.noEntry := by
  rw [walkWith, enter]
  cases here : t.node? place with
  | none => rfl
  | some node =>
    cases node with
    | directory parent entries =>
      by_cases long : nameLimit < name.length
      · simp only [if_pos long]
      by_cases stays : name = Path.current
      · simp only [if_neg long, if_pos stays]
      by_cases up : name = Path.parent
      · simp only [if_neg long, if_neg stays, if_pos up]
      simp only [if_neg long, if_neg stays, if_neg up]
      cases entry? name entries with
      | none => rfl
      | some id =>
        cases target : t.node? id with
        | none => simp only [target]
        | some node => cases node <;> simp [target]
    | _ => rfl

-- What leads somewhere leads there still, unless it is a name without a node, which may get one.
theorem enter_keeps (keeps : Keeps t later) (entered : t.enter place name = .ok lead) (present : lead ≠ .absent)
    (alive : ∀ id, lead = .moved id → t.node? id ≠ none) : later.enter place name = .ok lead := by
  unfold enter at entered
  split at entered
  · rename_i parent entries here
    obtain ⟨more, there⟩ := keeps.directory here
    rw [enter, there]
    by_cases long : nameLimit < name.length
    · rw [if_pos long] at entered
      cases entered
    by_cases stays : name = Path.current
    · simpa only [if_neg long, if_pos stays] using entered
    by_cases up : name = Path.parent
    · simpa only [if_neg long, if_neg stays, if_pos up] using entered
    simp only [if_neg long, if_neg stays, if_neg up] at entered ⊢
    cases listed : entry? name entries with
    | none =>
      rw [listed] at entered
      cases entered
      exact absurd rfl present
    | some next =>
      have still : entry? name (entries ++ more) = some next := by
        obtain ⟨entry, found, rfl⟩ := Option.map_eq_some_iff.mp listed
        simp [ entry?, List.find?_append, found]
      rw [listed] at entered
      rw [still]
      dsimp only at entered ⊢
      cases target : t.node? next with
      | none =>
        rw [target] at entered
        cases entered
        exact absurd target (alive next rfl)
      | some node =>
        obtain ⟨after, found, kept⟩ := keeps next node target
        rw [target] at entered
        rw [found]
        cases kept <;> exact entered
  · cases entered

-- A walk that ends in a directory ends there still.

theorem walkWith_dangling (none : t.node? place = none) (walked : t.walkWith true onLink place parts = .ok (.found id)) :
    t.isDirectory id = false := by
  cases parts with
  | nil =>
    cases walked
    simp [isDirectory, none]
  | cons name rest =>
    rw [walkWith, none] at walked
    cases walked

theorem walkWith_keeps (keeps : Keeps t later) (final : t.isDirectory id = true)
    (links : ∀ place parts, onLink place parts = .ok (.found id) → onLater place parts = .ok (.found id))
    (parts : List Bytes) (walked : t.walkWith true onLink place parts = .ok (.found id)) :
    later.walkWith true onLater place parts = .ok (.found id) := by
  induction parts generalizing place with
  | nil => exact walked
  | cons name rest ih =>
    rw [walkWith_cons] at walked ⊢
    cases entered : t.enter place name with
    | error e =>
      rw [entered] at walked
      cases walked
    | ok lead =>
      rw [entered] at walked
      cases lead with
      | moved next =>
        have alive : t.node? next ≠ none := fun none => absurd final (by simp [walkWith_dangling none walked])
        rw [enter_keeps keeps entered (by simp) fun id same => by cases same; exact alive]
        exact ih walked
      | linked target =>
        rw [enter_keeps keeps entered (by simp) (by simp)]
        exact links _ _ walked
      | absent =>
        dsimp only at walked
        split at walked <;> cases walked

theorem walk_keeps (keeps : Keeps t later) (final : t.isDirectory id = true) (links : Nat) (parts : List Bytes)
    (walked : t.walk true links place parts = .ok (.found id)) : later.walk true links place parts = .ok (.found id) := by
  induction links generalizing place parts with
  | zero => exact walkWith_keeps keeps final (fun _ _ refused => by cases refused) parts walked
  | succ links ih => exact walkWith_keeps keeps final (fun _ parts found => ih parts found) parts walked

-- What is in a directory is reached through the directory.

theorem walkWith_inner
    (links : ∀ origin parts outcome, onLink origin (parts ++ [name]) = .ok outcome →
      ∃ id, onLink origin parts = .ok (.found id) ∧ t.isDirectory id = true)
    (parts : List Bytes) (walked : t.walkWith true onLink start (parts ++ [name]) = .ok outcome) :
    ∃ id, t.walkWith true onLink start parts = .ok (.found id) ∧ t.isDirectory id = true := by
  induction parts generalizing start with
  | nil =>
    refine ⟨start, rfl, ?_⟩
    rw [List.nil_append, walkWith] at walked
    split at walked
    · rename_i here
      simp [isDirectory, here]
    · cases walked
  | cons first rest ih =>
    rw [List.cons_append, walkWith_cons] at walked
    rw [walkWith_cons]
    cases entered : t.enter start first with
    | error e =>
      rw [entered] at walked
      cases walked
    | ok lead =>
      rw [entered] at walked
      cases lead with
      | moved next => exact ih walked
      | linked target => exact links _ _ _ (by rwa [List.append_assoc])
      | absent => simp at walked

theorem walk_inner (links : Nat) (parts : List Bytes) (walked : t.walk true links start (parts ++ [name]) = .ok outcome) :
    ∃ id, t.walk true links start parts = .ok (.found id) ∧ t.isDirectory id = true := by
  induction links generalizing start parts outcome with
  | zero => exact walkWith_inner (fun _ _ _ refused => by cases refused) parts walked
  | succ links ih =>
    have linked : ∀ origin parts outcome, t.walk true links origin (parts ++ [name]) = .ok outcome →
        ∃ id, t.walk true links origin parts = .ok (.found id) ∧ t.isDirectory id = true :=
      fun _ parts _ found => ih parts found
    exact walkWith_inner linked parts walked

-- Paths.

theorem locate_parts (located : t.locate start true path = .ok outcome) :
    (0 ∉ path ∧ path ≠ [] ∧ path.length ≤ pathLimit) ∧
      t.walk true linkLimit (if Path.isAbsolute path then root else start) (components path) = .ok outcome := by
  unfold locate at located
  split at located
  · cases located
  rename_i whole
  split at located
  · cases located
  rename_i present
  split at located
  · cases located
  rename_i short
  exact ⟨⟨by simpa using whole, by simpa using present, by omega⟩, located⟩

theorem locate_walk (whole : 0 ∉ path) (present : path ≠ []) (short : path.length ≤ pathLimit) :
    t.locate start true path =
      t.walk true linkLimit (if Path.isAbsolute path then root else start) (components path) := by
  rw [locate, if_neg (by simpa using whole), if_neg (by simpa using present), if_neg (by omega)]

theorem find_iff : t.find start path = .ok id ↔ t.locate start true path = .ok (.found id) := by
  unfold find
  cases t.locate start true path with
  | error e => constructor <;> intro found <;> cases found
  | ok place =>
    cases place with
    | found other => constructor <;> intro found <;> cases found <;> rfl
    | missing directory name => constructor <;> intro found <;> cases found

theorem Keeps.isDirectory (keeps : Keeps t later) (here : t.isDirectory id = true) : later.isDirectory id = true := by
  unfold Tree.isDirectory at here
  split at here
  · rename_i found
    obtain ⟨more, there⟩ := keeps.directory found
    simp [Tree.isDirectory, there]
  · cases here

theorem Keeps.find (keeps : Keeps t later) (found : t.find start path = .ok id) (final : t.isDirectory id = true) :
    later.find start path = .ok id := by
  obtain ⟨⟨whole, present, short⟩, walked⟩ := locate_parts (find_iff.mp found)
  rw [find_iff, locate_walk whole present short]
  exact walk_keeps keeps final _ _ walked

theorem components_behind (closed : path.getLast? ≠ some slash) (plain : slash ∉ name) (named : name ≠ []) :
    components (path ++ slash :: name) = components path ++ [name] := by
  have last : (path ++ slash :: name).getLast? ≠ some slash := by
    obtain ⟨front, b, rfl⟩ := List.eq_nil_or_concat name |>.resolve_left named
    have other : b ≠ slash := fun same => plain (by simp [same])
    rw [List.concat_eq_append, ← List.cons_append, ← List.append_assoc, List.getLast?_concat]
    simpa using other
  unfold components
  simp only [if_neg last, if_neg closed]
  rw [splitOn_append, List.filter_append, splitOn_plain plain]
  simp [named]

-- A name that has a place has a directory in front of it.
theorem find_inner (located : t.locate start true (path ++ slash :: name) = .ok outcome) (present : path ≠ [])
    (closed : path.getLast? ≠ some slash) (plain : slash ∉ name) (named : name ≠ []) :
    ∃ id, t.find start path = .ok id ∧ t.isDirectory id = true := by
  obtain ⟨⟨whole, -, short⟩, walked⟩ := locate_parts located
  rw [Path.isAbsolute_append present, components_behind closed plain named] at walked
  obtain ⟨id, found, directory⟩ := walk_inner _ _ walked
  refine ⟨id, find_iff.mpr ?_, directory⟩
  rw [locate_walk (fun member => whole (List.mem_append_left _ member)) present, found]
  rw [List.length_append] at short
  omega

end Tree

namespace World

theorem Writing.keeps {w : World} (writing : Writing w f data result) : Tree.Keeps w.tree result.2.tree := by
  cases writing with
  | unchanged => exact .refl _
  | piped _ _ _ taken => exact taken ▸ .refl _
  | stuck _ _ _ _ filled taken =>
    obtain ⟨halted, same⟩ := halt_same filled (.writing f)
    rw [same]
    exact taken ▸ .refl _
  | kept => exact .refl _
  | placed => exact Tree.setData_keeps _ _ _

theorem write_keeps (w : World) (f : FileId) (data : Bytes) : Tree.Keeps w.tree (w.write f data).2.tree :=
  (writing w f data).keeps

theorem emit_keeps (w : World) (f : Option FileId) (data : Bytes) : Tree.Keeps w.tree (w.emit f data).tree := by
  unfold emit
  repeat' split
  all_goals first | exact .refl _ | exact write_keeps w _ data

theorem nextFault_tree {w after : World} (asked : w.nextFault = (fault, after)) : after.tree = w.tree := by
  obtain ⟨faults, rfl⟩ := nextFault_same asked
  rfl

theorem close_tree (w : World) (f : FileId) : (w.close f).2.tree = w.tree := by
  rcases close_left w f with ⟨left, _⟩ | ⟨file, faults, _, left⟩
  · rw [left]
    rfl
  · rw [left]
    rfl

-- A file that can be opened for writing has a place, and opening it at most puts it down or empties it.
theorem openNode_keeps {t later : Tree} {start id : NodeId} (opened : openNode t start path .overwrite = .ok (id, later)) :
    (∃ place, t.locate start true path = .ok place) ∧ Tree.Keeps t later := by
  constructor
  · unfold openNode at opened
    dsimp only at opened
    split at opened
    · cases above : t.locate start true (path.reverse.dropWhile (· = slash)).reverse <;> rw [above] at opened <;> cases opened
    cases located : t.locate start true path with
    | error e =>
      rw [located] at opened
      cases opened
    | ok place => exact ⟨place, rfl⟩
  · rcases openNode_left opened with rfl | ⟨directory, name, rfl⟩ | rfl
    · exact .refl later
    · exact Tree.add_keeps t _ _ _
    · exact Tree.setData_keeps t _ _

theorem openFile_keeps {w after : World} (opened : w.openFile path .overwrite = (.ok f, after)) :
    (∃ place, w.tree.locate w.cwd true path = .ok place) ∧ Tree.Keeps w.tree after.tree ∧ after.cwd = w.cwd := by
  unfold openFile at opened
  split at opened
  · cases opened
  · rename_i granted asked
    have sameTree := nextFault_tree asked
    have samePlace := (nextFault_still asked).cwd
    split at opened
    · cases opened
    · rename_i id tree found
      obtain ⟨located, keeps⟩ := openNode_keeps found
      rw [sameTree, samePlace] at located
      rw [sameTree] at keeps
      cases opened
      exact ⟨located, keeps, samePlace⟩

end World

namespace Storage

theorem status_located {w : World} (known : Storage.disk.status path w = .ok ()) :
    ∃ place, w.tree.locate w.cwd true path = .ok place := by
  unfold status at known
  dsimp only at known
  split at known
  · rename_i id found
    exact ⟨.found id, Tree.find_iff.mp found⟩
  · cases known

-- A file that was put down has a place, and directories are where they were.
theorem save_keeps {w after : World} (saved : Storage.disk.save path data w = (none, after)) :
    (∃ place, w.tree.locate w.cwd true path = .ok place) ∧ Tree.Keeps w.tree after.tree ∧ after.cwd = w.cwd := by
  unfold save at saved
  dsimp only at saved
  split at saved
  · cases saved
  · rename_i f opened asked
    obtain ⟨located, keeps, samePlace⟩ := World.openFile_keeps asked
    split at saved
    · cases saved
    · rename_i wrote written
      have keepsWrite := World.write_keeps opened f data
      have stillWrite := World.write_still opened f data
      rw [written] at keepsWrite stillWrite
      split at saved
      · cases saved
      · rename_i closed closing
        have sameTree := World.close_tree wrote f
        have stillClose := World.close_still wrote f
        rw [closing] at sameTree stillClose
        cases saved
        refine ⟨located, keeps.trans (sameTree ▸ keepsWrite), ?_⟩
        exact stillClose.cwd.trans (stillWrite.cwd.trans samePlace)

-- A directory cannot be read.
theorem contents_directory {w : World} {id : NodeId} (found : w.tree.find w.cwd path = .ok id) (directory : w.tree.isDirectory id = true) :
    Storage.disk.contents path w = .error (.onPath (ascii "read") path (.errno Errno.isDirectory)) := by
  unfold Tree.isDirectory at directory
  split at directory
  · rename_i here
    simp only [contents, found, Tree.data, here]
  · cases directory

end Storage
end LineShell
