import LineShell.Proofs.Operators
import LineShell.Proofs.Sharing

namespace LineShell
open World

-- Something that is asked of the system.
inductive Demand where
  | opening (asked : Request)
  | closing (f : FileId)

-- Everything that is asked for is granted, one after the other.
inductive Met : List Demand → World → World → Prop where
  | none : Met [] w w
  | opening (opened : w.openFile asked.path asked.mode = (.ok f, middle)) (rest : Met wanted middle after) :
    Met (.opening asked :: wanted) w after
  | closing (closed : w.close f = (.ok (), middle)) (rest : Met wanted middle after) : Met (.closing f :: wanted) w after

section
variable {w middle after : World}

theorem met_nil : Met [] w after ↔ after = w := by
  constructor
  · rintro ⟨⟩
    rfl
  · rintro rfl
    exact .none

theorem met_opening : Met (.opening asked :: wanted) w after ↔
    ∃ f middle, w.openFile asked.path asked.mode = (.ok f, middle) ∧ Met wanted middle after := by
  constructor
  · rintro ⟨⟩
    exact ⟨_, _, ‹_›, ‹_›⟩
  · rintro ⟨f, middle, opened, rest⟩
    exact .opening opened rest

theorem met_closing : Met (.closing f :: wanted) w after ↔
    ∃ middle, w.close f = (.ok (), middle) ∧ Met wanted middle after := by
  constructor
  · rintro ⟨⟩
    exact ⟨_, ‹_›, ‹_›⟩
  · rintro ⟨middle, closed, rest⟩
    exact .closing closed rest

theorem met_append (first second : List Demand) :
    Met (first ++ second) w after ↔ ∃ middle, Met first w middle ∧ Met second middle after := by
  induction first generalizing w with
  | nil => simp [met_nil]
  | cons demand others ih =>
    rw [List.cons_append]
    cases demand with
    | opening asked =>
      simp only [met_opening, ih]
      constructor
      · rintro ⟨f, opened, opening, middle, before, behind⟩
        exact ⟨middle, ⟨f, opened, opening, before⟩, behind⟩
      · rintro ⟨middle, ⟨f, opened, opening, before⟩, behind⟩
        exact ⟨f, opened, opening, middle, before, behind⟩
    | closing f =>
      simp only [met_closing, ih]
      constructor
      · rintro ⟨closed, closing, middle, before, behind⟩
        exact ⟨middle, ⟨closed, closing, before⟩, behind⟩
      · rintro ⟨middle, ⟨closed, closing, before⟩, behind⟩
        exact ⟨closed, closing, middle, before, behind⟩

namespace Redirection

-- The slots an operator covers.
def covered (operator : Bytes) : List Slot := (slots? operator).getD []

def put (f : FileId) (slots : List Slot) (s : Stdio) : Stdio := slots.foldl (fun s slot => s.set slot (some f)) s

-- What redirections ask for, when the files they open get the numbers from `f` on.
def demands (expand : Bytes → Bytes) : FileId → List (Bytes × Bytes) → Stdio → List Demand
  | _, [], _ => []
  | f, r :: rest, s => .opening (request expand r) :: ((Stdio.letGo (some f) (covered r.1) s).map .closing ++
      demands expand (f + 1) rest (put f (covered r.1) s))

-- The slots afterwards.
def rewired : FileId → List (Bytes × Bytes) → Stdio → Stdio
  | _, [], s => s
  | f, r :: rest, s => rewired (f + 1) rest (put f (covered r.1) s)

-- Filling slots succeeds just if the files that are let go of can be closed.
theorem fill_met (f : FileId) (slots : List Slot) (s : Stdio) (w : World) :
    fill f slots s w = (.ok (), filled, after) ↔
      filled = put f slots s ∧ Met ((Stdio.letGo (some f) slots s).map .closing) w after := by
  induction slots generalizing s w with
  | nil => simp [fill, put, Stdio.letGo, met_nil, eq_comm]
  | cons slot others ih =>
    have next : put f (slot :: others) s = put f others (s.set slot (some f)) := rfl
    rw [next]
    unfold fill Stdio.replace Stdio.letGo
    dsimp only
    cases owned : s.get slot with
    | none => exact ih _ w
    | some g =>
      dsimp only
      rw [Stdio.drop_shut]
      by_cases held : Stdio.refers (s.set slot (some f)) g = true
      · rw [if_pos held, if_pos held]
        exact ih _ w
      · rw [if_neg held, if_neg held, List.map_cons, met_closing]
        unfold Stdio.shut
        rcases closed : w.close g with ⟨result, later⟩
        cases result with
        | ok done => simp [ih]
        | error cause => simp

theorem place_met (expand : Bytes → Bytes) (operator target : Bytes) (slots : List Slot) (s : Stdio) (w : World) :
    place operator (expand target) slots s w = (.ok (), filled, after) ↔ filled = put w.files.size slots s ∧
      Met (.opening (request expand (operator, target)) :: (Stdio.letGo (some w.files.size) slots s).map .closing) w after := by
  rw [met_opening]
  unfold place openTarget request
  dsimp only
  rcases opening : w.openFile (expand target) (if operator = inputToken then .read else .overwrite) with ⟨result, later⟩
  cases result with
  | error e => simp
  | ok f =>
    obtain ⟨_, rfl, _⟩ := openFile_reaches opening
    dsimp only
    rw [fill_met]
    constructor
    · rintro ⟨same, met⟩
      exact ⟨same, _, _, rfl, met⟩
    · rintro ⟨same, f, opened, made, met⟩
      cases made
      exact ⟨same, met⟩

theorem close_size (w : World) (f : FileId) : (w.close f).2.files.size = w.files.size := by
  rcases close_left w f with ⟨left, _⟩ | ⟨file, faults, _, left⟩
  · rw [left]
    rfl
  · rw [left]
    exact Array.size_setIfInBounds

def requested : Demand → Option Request
  | .opening asked => some asked
  | .closing _ => none

def requests (wanted : List Demand) : List Request := wanted.filterMap requested

-- What is granted leaves the files that were asked for, under the next numbers.
theorem met_opened (met : Met wanted w after) : after.files.size = w.files.size + (requests wanted).length ∧
    Footprint w (requests wanted) after ∧
    ∃ calls, w.Reaches calls after ∧ openings calls = List.range' w.files.size (requests wanted).length := by
  induction met with
  | none => exact ⟨rfl, Footprint.refl _, [], Reaches.refl _, rfl⟩
  | @opening middle wanted after asked w f opened rest ih =>
    obtain ⟨size, footprint, calls, reached, numbers⟩ := ih
    obtain ⟨first, rfl, grown, _⟩ := openFile_reaches opened
    refine ⟨?_, (openFile_footprint opened).trans footprint, _, first.trans reached, ?_⟩
    · rw [size, grown]
      simp [requests, requested]
      omega
    · rw [openings_append, numbers, grown]
      rfl
  | @closing middle wanted after f w closed rest ih =>
    obtain ⟨size, footprint, calls, reached, numbers⟩ := ih
    have shut := w.close_footprint f
    have first := w.close_reaches f
    have kept : (w.close f).2.files.size = w.files.size := close_size w f
    rw [closed] at shut first kept
    dsimp only at kept
    refine ⟨?_, shut.after_none footprint, _, first.trans reached, ?_⟩
    · rw [size, kept]
      rfl
    · rw [openings_append, numbers, kept]
      rfl

theorem requests_closings (files : List FileId) : requests (files.map .closing) = [] := by
  simp [requests, requested]

theorem requests_demands (expand : Bytes → Bytes) (f : FileId) (rs : List (Bytes × Bytes)) (s : Stdio) :
    requests (demands expand f rs s) = rs.map (request expand) := by
  induction rs generalizing f s with
  | nil => rfl
  | cons r rest ih =>
    have closings := requests_closings (Stdio.letGo (some f) (covered r.1) s)
    unfold requests at ih closings ⊢
    rw [demands, List.filterMap_cons, List.filterMap_append, closings, ih]
    rfl

theorem place_size (expand : Bytes → Bytes) (target : Bytes) (placed : place operator (expand target) slots s w = (.ok (), filled, after)) :
    after.files.size = w.files.size + 1 := by
  have count := congrArg List.length (requests_closings (Stdio.letGo (some w.files.size) slots s))
  rw [(met_opened ((place_met ..).mp placed).2).1]
  exact congrArg (w.files.size + ·.succ) count

-- The demands of the first redirection and those of the others.
theorem demands_cons (expand : Bytes → Bytes) (operator target : Bytes) (rest : List (Bytes × Bytes)) (s : Stdio) :
    Met (demands expand w.files.size ((operator, target) :: rest) s) w after ↔
      ∃ middle, place operator (expand target) (covered operator) s w = (.ok (), put w.files.size (covered operator) s, middle) ∧
        Met (demands expand (w.files.size + 1) rest (put w.files.size (covered operator) s)) middle after := by
  rw [demands, ← List.cons_append, met_append]
  simp only [place_met, true_and]

-- The pass over the words succeeds just if they are readable and everything they ask for is granted.
theorem Applying.met (run : Applying expand args s w result) :
    result = (.ok kept, filled, after) ↔ Readable args ∧ kept = remaining args ∧
      filled = rewired w.files.size (redirections args) s ∧
      Met (demands expand w.files.size (redirections args) s) w after := by
  induction run generalizing kept filled after with
  | finished s w =>
    have none : Readable [] := ⟨List.not_mem_nil, fun i operator found => by simp at found⟩
    simp [none, redirections, remaining, remainingAfter, rewired, demands, met_nil, eq_comm]
  | duplicate rest s w => simp [readable_duplicate]
  | word token rest s w single plain result slots last later ih =>
    rw [readable_word single plain, redirections_word plain, remaining_word plain]
    constructor
    · intro applied
      cases result with
      | error fault => cases applied
      | ok left =>
        cases applied
        obtain ⟨readable, rfl, rfl, met⟩ := ih.mp rfl
        exact ⟨readable, rfl, rfl, met⟩
    · rintro ⟨readable, rfl, rfl, met⟩
      cases ih.mpr ⟨readable, rfl, rfl, met⟩
      rfl
  | unaimed token s w single slots found => simp [readable_end found]
  | operator token s w single slots found target rest operator => simp [readable_operator single found, operator]
  | refused token s w single slots found target rest plain fault refusal =>
    simp [readable_operator single found, ← targetFault?_none_iff, refusal]
  | stuck token s w single slots found target rest plain clean fault stuckAt last failed =>
    obtain ⟨word, _⟩ := slots?_of_plain (Bool.eq_false_iff.mpr plain)
    constructor
    · rintro ⟨⟩
    · rw [redirections_operator found word, demands_cons, covered, found, Option.getD_some, failed]
      rintro ⟨_, _, _, middle, placed, _⟩
      cases placed
  | placed token s w single slots found target rest plain clean placedAt last done later ih =>
    replace plain := Bool.eq_false_iff.mpr plain
    have harmless := (targetFault?_none_iff target).mp clean
    have same := ((place_met ..).mp done).1
    obtain ⟨word, _⟩ := slots?_of_plain plain
    rw [readable_operator single found, redirections_operator found word, remaining_operator found word, demands_cons,
      covered, found, Option.getD_some, done, ih, place_size expand target done, ← same, rewired]
    simp [plain, harmless, covered, found, ← same]

theorem applyArgs_met (expand : Bytes → Bytes) (args : List Bytes) (s : Stdio) (w : World) :
    applyArgs expand args s w = (.ok kept, filled, after) ↔ Readable args ∧ kept = remaining args ∧
      filled = rewired w.files.size (redirections args) s ∧
      Met (demands expand w.files.size (redirections args) s) w after :=
  (applying expand args s w).met

theorem applyArgs_stuck (applied : applyArgs expand args s w = (.error fault, filled, after)) :
    ¬∃ granted, Readable args ∧ Met (demands expand w.files.size (redirections args) s) w granted := by
  rintro ⟨granted, readable, met⟩
  have wrong := (applyArgs_met expand args s w).mpr ⟨readable, rfl, rfl, met⟩
  rw [applied] at wrong
  cases wrong

end Redirection
end
end LineShell
