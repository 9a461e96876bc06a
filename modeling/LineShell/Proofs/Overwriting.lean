import LineShell.Proofs.Demands

namespace LineShell
open World

section
variable {w middle after : World} {rs : List (Bytes × Bytes)}

-- The stage's own files and those opened since are in slots or have been closed, in equal numbers.
structure Settled (s : Stdio) (w : World) (calls : List Call) (next : Stdio) (after : World) : Prop where
  reached : w.Reaches calls after
  fresh : ∀ f ∈ openings calls, w.files.size ≤ f ∧ f < after.files.size
  distinct : (openings calls).Nodup
  balance : ∀ f, s.holds f + (openings calls).count f = calls.count (.closed f) + next.holds f
  flags : ∀ f ∈ openings calls, after.isClosed f = some (decide (.closed f ∈ calls))

def Present (s : Stdio) (w : World) : Prop := ∀ f, s.refers f = true → f < w.files.size

namespace Settled

theorem refl (s : Stdio) (w : World) : Settled s w [] s w :=
  ⟨Reaches.refl w, by simp [openings], by simp [openings], by simp [openings], by simp [openings]⟩

theorem quiet (reached : w.Reaches [] after) : Settled s w [] s after :=
  ⟨reached, by simp [openings], by simp [openings], by simp [openings], by simp [openings]⟩

-- No file is closed or in a slot before it is there.
theorem unused (present : Present s w) (settled : Settled s w calls next after) (new : after.files.size ≤ f) :
    .closed f ∉ calls ∧ next.holds f = 0 := by
  have missing : f ∉ openings calls := fun member => Nat.lt_irrefl f (Nat.lt_of_lt_of_le (settled.fresh f member).2 new)
  have old : s.holds f = 0 := by
    refine if_neg fun held => ?_
    exact Nat.lt_irrefl f (Nat.lt_of_lt_of_le (present f held) (Nat.le_trans settled.reached.files new))
  have count := settled.balance f
  rw [old, List.count_eq_zero.mpr missing] at count
  exact ⟨List.count_eq_zero.mp (by omega), by omega⟩

theorem present (present : Present s w) (settled : Settled s w calls next after) : Present next after := by
  intro f held
  refine Nat.lt_of_not_le fun new => ?_
  have none := (settled.unused present new).2
  rw [Stdio.holds, if_pos held] at none
  cases none

theorem trans (present : Present s w) (first : Settled s w earlier next middle) (second : Settled next middle later last after) :
    Settled s w (later ++ earlier) last after where
  reached := first.reached.trans second.reached
  fresh f member := by
    rw [openings_append, List.mem_append] at member
    rcases member with old | new
    · exact ⟨(first.fresh f old).1, Nat.lt_of_lt_of_le (first.fresh f old).2 second.reached.files⟩
    · exact ⟨Nat.le_trans first.reached.files (second.fresh f new).1, (second.fresh f new).2⟩
  distinct := by
    rw [openings_append, List.nodup_append]
    refine ⟨first.distinct, second.distinct, ?_⟩
    rintro f old g new rfl
    exact Nat.lt_irrefl f (Nat.lt_of_lt_of_le (first.fresh f old).2 (second.fresh f new).1)
  balance f := by
    have one := first.balance f
    have two := second.balance f
    rw [openings_append, List.count_append, List.count_append]
    omega
  flags f member := by
    rw [openings_append, List.mem_append] at member
    rcases member with old | new
    · rw [second.reached.flags f (first.fresh f old).2, first.flags f old]
      by_cases closed : .closed f ∈ later
      · simp [closed]
      · simp [closed]
    · have unclosed := (first.unused present (second.fresh f new).1).1
      rw [second.flags f new]
      simp [unclosed]

end Settled

-- No file is lost: it is in a slot and open, or has been closed once. The others are left alone.
structure Accounted (s : Stdio) (calls : List Call) (next : Stdio) (after : World) : Prop where
  held : ∀ f, (∃ slot, next.get slot = some f) →
    (s.refers f = true ∨ f ∈ openings calls) ∧ .closed f ∉ calls ∧ after.isClosed f = some false
  gone : ∀ f, s.refers f = true ∨ f ∈ openings calls → (∀ slot, next.get slot ≠ some f) →
    calls.count (.closed f) = 1 ∧ after.isClosed f = some true
  untouched : ∀ f, s.refers f = false → f ∉ openings calls → .closed f ∉ calls

theorem Settled.accounted (settled : Settled s w calls next after)
    (known : ∀ f, s.refers f = true → w.isClosed f = some false) : Accounted s calls next after := by
  -- A file is either one of the first slots' or new.
  have once : ∀ f, s.refers f = true ∨ f ∈ openings calls → s.holds f + (openings calls).count f = 1 := by
    intro f mine
    have atMost := List.nodup_iff_count.mp settled.distinct f
    by_cases held : s.refers f = true
    · have old : f ∉ openings calls := by
        intro new
        exact Nat.lt_irrefl f (Nat.lt_of_lt_of_le (isClosed_present (known f held)) (settled.fresh f new).1)
      rw [Stdio.holds, if_pos held, List.count_eq_zero.mpr old]
    · have positive := List.count_pos_iff.mpr (mine.resolve_left held)
      rw [Stdio.holds, if_neg held]
      omega
  have flags : ∀ f, s.refers f = true ∨ f ∈ openings calls → after.isClosed f = some (decide (.closed f ∈ calls)) := by
    rintro f (old | new)
    · rw [settled.reached.flags f (isClosed_present (known f old)), known f old]
      by_cases closed : .closed f ∈ calls
      · simp [closed]
      · simp [closed]
    · exact settled.flags f new
  constructor
  · intro f here
    have holds : next.holds f = 1 := if_pos ((next.refers_iff f).mpr here)
    have count := settled.balance f
    have mine : s.refers f = true ∨ f ∈ openings calls := by
      by_contra neither
      rw [not_or] at neither
      rw [Stdio.holds, if_neg neither.1, List.count_eq_zero.mpr neither.2] at count
      omega
    rw [once f mine] at count
    have kept : .closed f ∉ calls := List.count_eq_zero.mp (by omega)
    exact ⟨mine, kept, by rw [flags f mine, decide_eq_false kept]⟩
  · intro f mine missing
    have holds : next.holds f = 0 := if_neg fun held => by
      obtain ⟨slot, here⟩ := (next.refers_iff f).mp held
      exact missing slot here
    have count := settled.balance f
    rw [once f mine, holds] at count
    have closed : .closed f ∈ calls := List.count_pos_iff.mp (by omega)
    exact ⟨by omega, by rw [flags f mine, decide_eq_true closed]⟩
  · intro f free missing
    have count := settled.balance f
    rw [Stdio.holds, if_neg (by simp [free]), List.count_eq_zero.mpr missing] at count
    exact List.count_eq_zero.mp (by omega)

namespace Redirection

-- A file goes from being opened into its slots, and what was in these is closed.
theorem place_settled (path : Bytes) (present : Present s w) (found : slots? operator = some slots) :
    ∃ calls, Settled s w calls (place operator path slots s w).2.1 (place operator path slots s w).2.2 := by
  unfold place
  split
  · rename_i fault after refused
    obtain ⟨mode, e, refused, _⟩ := openTarget_error refused
    exact ⟨[], Settled.quiet (openFile_refused refused)⟩
  · rename_i f after opening
    obtain ⟨mode, opened⟩ := openTarget_ok opening
    obtain ⟨reached, rfl, size, isOpen⟩ := openFile_reaches opened
    obtain ⟨paid, ⟨⟨closing, closed, only, count⟩, _⟩, balance⟩ :=
      fill_closing w.files.size slots s after (.inl (slots?_nonempty found))
    have none : openings closing = [] := by
      refine List.flatMap_eq_nil_iff.mpr fun call member => ?_
      obtain ⟨g, rfl⟩ := only call (List.mem_reverse.mp member)
      rfl
    have numbers : openings (closing ++ [.opened w.files.size]) = [w.files.size] := by
      rw [openings_append, none]
      rfl
    have new : s.holds w.files.size = 0 := if_neg fun held => Nat.lt_irrefl _ (present _ held)
    refine ⟨closing ++ [.opened w.files.size], reached.trans closed, ?_, ?_, ?_, ?_⟩
    · rw [numbers]
      intro f member
      cases List.mem_singleton.mp member
      exact ⟨Nat.le_refl _, Nat.lt_of_lt_of_le (by rw [size]; exact Nat.lt_succ_self _) closed.files⟩
    · simp [numbers]
    · intro f
      rw [numbers, ← s.holdsWith_new new f, balance f, List.count_append, count f]
      simp
    · rw [numbers]
      intro f member
      cases List.mem_singleton.mp member
      rw [closed.flags _ (by omega), isOpen]
      split
      · rename_i shut
        simp [shut]
      · rename_i kept
        simp [kept]

theorem Applying.settled (run : Applying expand args s w result) (present : Present s w) :
    ∃ calls, Settled s w calls result.2.1 result.2.2 := by
  induction run with
  | word token others s w single plain result filled after later ih => exact ih present
  | stuck token s w single slots found target others plain clean fault filled after failed =>
    have placed := place_settled (expand target) present found
    rwa [failed] at placed
  | placed token s w single slots found target others plain clean filled after done later ih =>
    obtain ⟨earlier, placed⟩ := place_settled (expand target) present found
    rw [done] at placed
    obtain ⟨later, applied⟩ := ih (placed.present present)
    exact ⟨_, placed.trans present applied⟩
  | _ => exact ⟨[], Settled.refl _ _⟩

-- A slot is taken over for the last time by number `k` of the redirections.
structure LastCovers (rs : List (Bytes × Bytes)) (slot : Slot) (k : Nat) : Prop where
  covers : ∃ r, rs[k]? = some r ∧ slot ∈ covered r.1
  last : ∀ j r, k < j → rs[j]? = some r → slot ∉ covered r.1

theorem put_get (f : FileId) (slots : List Slot) (s : Stdio) (slot : Slot) :
    (put f slots s).get slot = if slot ∈ slots then some f else s.get slot := by
  induction slots generalizing s with
  | nil => rfl
  | cons first others ih =>
    rw [show put f (first :: others) s = put f others (s.set first (some f)) from rfl, ih]
    by_cases same : slot = first
    · subst same
      simp [Triple.get_set_self]
    · simp [same, Triple.get_set_of_ne s (some f) same]

theorem rewired_kept (f : FileId) (s : Stdio) (free : ∀ r ∈ rs, slot ∉ covered r.1) :
    (rewired f rs s).get slot = s.get slot := by
  induction rs generalizing f s with
  | nil => rfl
  | cons r rest ih =>
    rw [rewired, ih _ _ fun other member => free other (List.mem_cons_of_mem _ member), put_get,
      if_neg (free r List.mem_cons_self)]

theorem rewired_last (f : Nat) (s : Stdio) (decides : LastCovers rs slot k) : (rewired f rs s).get slot = some (f + k) := by
  induction rs generalizing f s k with
  | nil =>
    obtain ⟨r, found, _⟩ := decides.covers
    cases found
  | cons r rest ih =>
    rw [rewired]
    obtain ⟨covering, found, member⟩ := decides.covers
    cases k with
    | zero =>
      cases found
      have free : ∀ other ∈ rest, slot ∉ covered other.1 := by
        intro other later
        obtain ⟨j, here⟩ := List.mem_iff_getElem?.mp later
        exact decides.last (j + 1) other (Nat.succ_pos j) here
      rw [rewired_kept _ _ free, put_get, if_pos member]
      rfl
    | succ k =>
      have others : LastCovers rest slot k := ⟨⟨covering, found, member⟩, fun j other later here =>
        decides.last (j + 1) other (Nat.succ_lt_succ later) here⟩
      rw [ih (f + 1) _ others, Nat.add_assoc, Nat.add_comm 1 k]

theorem covered_or_free (rs : List (Bytes × Bytes)) (slot : Slot) :
    (∃ k, LastCovers rs slot k) ∨ ∀ r ∈ rs, slot ∉ covered r.1 := by
  induction rs with
  | nil => exact .inr fun r member => nomatch member
  | cons r rest ih =>
    rcases ih with ⟨k, ⟨covering, found, member⟩, last⟩ | free
    · refine .inl ⟨k + 1, ⟨covering, found, member⟩, fun j other later here => ?_⟩
      cases j with
      | zero => cases later
      | succ j => exact last j other (Nat.lt_of_succ_lt_succ later) here
    · by_cases member : slot ∈ covered r.1
      · refine .inl ⟨0, ⟨r, rfl, member⟩, fun j other later here => ?_⟩
        cases j with
        | zero => cases later
        | succ j => exact free other (List.mem_of_getElem? here)
      · exact .inr (List.forall_mem_cons.mpr ⟨member, free⟩)

-- Files of different slots are still different when none has been put into both.
theorem rewired_shared (s : Stdio) (w : World) (present : Present s w)
    (apart : ∀ f, s.get .output = some f → s.get .error ≠ some f) :
    (∃ f, (rewired w.files.size rs s).get .output = some f ∧ (rewired w.files.size rs s).get .error = some f) ↔
      ∃ k, LastCovers rs .output k ∧ LastCovers rs .error k := by
  have older : ∀ slot f, s.get slot = some f → f < w.files.size :=
    fun slot f here => present f ((s.refers_iff f).mpr ⟨slot, here⟩)
  constructor
  · rintro ⟨f, output, error⟩
    rcases covered_or_free rs .output with ⟨k, first⟩ | freeOutput
    · rw [rewired_last _ _ first] at output
      cases output
      rcases covered_or_free rs .error with ⟨j, second⟩ | freeError
      · rw [rewired_last _ _ second] at error
        have same : j = k := by simpa using error
        exact ⟨k, first, same ▸ second⟩
      · rw [rewired_kept _ _ freeError] at error
        have wrong := older .error _ error
        exact absurd wrong (Nat.not_lt_of_le (Nat.le_add_right _ _))
    · rw [rewired_kept _ _ freeOutput] at output
      rcases covered_or_free rs .error with ⟨j, second⟩ | freeError
      · rw [rewired_last _ _ second] at error
        cases error
        have wrong := older .output _ output
        exact absurd wrong (Nat.not_lt_of_le (Nat.le_add_right _ _))
      · rw [rewired_kept _ _ freeError] at error
        exact absurd error (apart f output)
  · rintro ⟨k, output, error⟩
    exact ⟨_, rewired_last _ _ output, rewired_last _ _ error⟩

-- What becomes of a stage whose redirections are applied, by its words.
structure Applied (expand : Bytes → Bytes) (stage : Stage) (w : World) (words : List Bytes) (failure : Option Fault)
    (changed : Stage) (after : World) (calls : List Call) : Prop where
  reached : w.Reaches calls after
  succeeds : failure = none ↔ Readable words ∧ remaining words ≠ [] ∧
    ∃ granted, Met (demands expand w.files.size (redirections words) stage.stdio) w granted
  args : failure = none → changed.args = remaining words
  -- The targets are opened in the order of the words, and nothing else is.
  opened : failure = none → openings calls = List.range' w.files.size (redirections words).length ∧
    Footprint w ((redirections words).map (request expand)) after
  covered : failure = none → ∀ slot k, LastCovers (redirections words) slot k →
    changed.stdio.get slot = some (w.files.size + k)
  kept : failure = none → ∀ slot, (∀ r ∈ redirections words, slot ∉ Redirection.covered r.1) →
    changed.stdio.get slot = stage.stdio.get slot
  shared : failure = none → ((∃ f, changed.stdio.get .output = some f ∧ changed.stdio.get .error = some f) ↔
    ∃ k, LastCovers (redirections words) .output k ∧ LastCovers (redirections words) .error k)
  refused : ∀ fault, failure = some fault → changed.args = stage.args ∨
    changed.args = [] ∧ fault = .parse .emptyStage [] ∧ Readable words ∧ remaining words = [] ∧
      ∃ granted, Met (demands expand w.files.size (redirections words) stage.stdio) w granted
  -- This holds whether or not they succeed.
  files : Accounted stage.stdio calls changed.stdio after

theorem redirect_exact (expand : Bytes → Bytes) (stage : Stage) (w : World)
    (isOpen : ∀ slot f, stage.stdio.get slot = some f → w.isClosed f = some false)
    (apart : ∀ one other f, stage.stdio.get one = some f → stage.stdio.get other = some f → one = other) :
    ∃ words failure changed after calls, (∀ other, Rewritten stage.args other ↔ other = words) ∧
      applyStage expand stage w = (failure, changed, after) ∧
      Applied expand stage w words failure changed after calls := by
  have known : ∀ f, stage.stdio.refers f = true → w.isClosed f = some false := by
    intro f held
    obtain ⟨slot, here⟩ := (stage.stdio.refers_iff f).mp held
    exact isOpen slot f here
  have present : Present stage.stdio w := fun f held => isClosed_present (known f held)
  have different : ∀ f, stage.stdio.get .output = some f → stage.stdio.get .error ≠ some f :=
    fun f output error => nomatch apart .output .error f output error
  obtain ⟨calls, settled⟩ := (applying expand (combine stage.args) stage.stdio w).settled present
  refine ⟨combine stage.args, (applyStage expand stage w).1, (applyStage expand stage w).2.1,
    (applyStage expand stage w).2.2, calls, rewritten_iff stage.args, rfl, ?_⟩
  unfold applyStage
  rcases applied : applyArgs expand (combine stage.args) stage.stdio w with ⟨result, filled, after⟩
  rw [applied] at settled
  have books := settled.accounted known
  cases result with
  | error fault =>
    have stuck := applyArgs_stuck applied
    constructor
    case reached => exact settled.reached
    case succeeds => exact ⟨nofun, fun ⟨readable, _, granted, met⟩ => (stuck ⟨granted, readable, met⟩).elim⟩
    case refused => exact fun _ _ => .inl rfl
    case files => exact books
    all_goals exact nofun
  | ok kept =>
    obtain ⟨readable, rfl, rfl, met⟩ := (applyArgs_met expand _ _ w).mp applied
    obtain ⟨_, footprint, others, reached, numbers⟩ := met_opened met
    rw [requests_demands] at footprint numbers
    have same : others = calls := List.append_cancel_right (reached.trace.symm.trans settled.reached.trace)
    subst same
    rw [List.length_map] at numbers
    constructor
    case reached => exact reached
    case succeeds => simpa [readable] using fun _ => ⟨_, met⟩
    case refused =>
      intro fault failed
      dsimp only at failed
      split at failed
      · rename_i empty
        have none := List.isEmpty_iff.mp empty
        cases failed
        exact .inr ⟨none, rfl, readable, none, _, met⟩
      · cases failed
    case files => exact books
    case args => exact fun _ => rfl
    case opened => exact fun _ => ⟨numbers, footprint⟩
    case covered => exact fun _ slot k last => rewired_last _ _ last
    case kept => exact fun _ slot free => rewired_kept _ _ free
    case shared => exact fun _ => rewired_shared _ w present different

-- A stage whose output is a file already, run in the background. Its messages go to one file first and then,
-- together with the output, to another.
def takenOver : Stage where
  args := [ascii "x", ascii "2>", ascii "e", outputToken, ascii "f", duplicateToken, Pipeline.backgroundToken]
  stdio := ⟨none, some 1, none⟩

theorem redirect_exact_taken_over : ∃ changed after calls,
    applyStage id takenOver (Session.console []) = (none, changed, after) ∧ (Session.console []).Reaches calls after ∧
      changed.args = [ascii "x", Pipeline.backgroundToken] ∧ openings calls = [3, 4] ∧
      changed.stdio.get .output = some 4 ∧ changed.stdio.get .error = some 4 ∧ changed.stdio.get .input = none ∧
      calls.count (.closed 1) = 1 ∧ calls.count (.closed 3) = 1 := by
  obtain ⟨words, failure, changed, after, calls, only, applied, outcome⟩ :=
    redirect_exact id takenOver (Session.console [])
      (by intro slot f here; cases slot <;> cases here; decide)
      (by intro one other f here there; cases one <;> cases here; cases other <;> cases there; rfl)
  have written : words = combine takenOver.args := (rewritten_iff ..).mp ((only words).mpr rfl)
  have found : redirections words = [(ascii "2>", ascii "e"), (bothToken, ascii "f")] := by
    rw [written]
    decide
  have left : remaining words = [ascii "x", Pipeline.backgroundToken] := by
    rw [written]
    decide
  have done : failure = none := by
    rw [show failure = (applyStage id takenOver (Session.console [])).1 by rw [applied]]
    decide +kernel
  have last : ∀ slot, slot ≠ .input → LastCovers (redirections words) slot 1 := by
    intro slot other
    rw [found]
    refine ⟨⟨_, rfl, by revert other; cases slot <;> decide⟩, fun j r later here => ?_⟩
    match j with
    | 0 => cases later
    | 1 => cases later with | step wrong => cases wrong
    | j + 2 => cases here
  have output := outcome.covered done .output 1 (last .output (by decide))
  have error := outcome.covered done .error 1 (last .error (by decide))
  have input := outcome.kept done .input (by rw [found]; decide)
  have numbers := (outcome.opened done).1
  rw [found] at numbers
  have slots : ∀ slot f, changed.stdio.get slot = some f → f = 4 := by
    intro slot f here
    cases slot with
    | input =>
      rw [input] at here
      cases here
    | output => exact Option.some.inj (here.symm.trans output)
    | error => exact Option.some.inj (here.symm.trans error)
  refine ⟨changed, after, calls, by rw [applied, done], outcome.reached, by rw [outcome.args done, left], numbers, output,
    error, input, ?_, ?_⟩
  · exact (outcome.files.gone 1 (.inl (by decide)) (fun slot here => nomatch slots slot 1 here)).1
  · exact (outcome.files.gone 3 (.inr (by rw [numbers]; decide)) (fun slot here => nomatch slots slot 3 here)).1

end Redirection
end
end LineShell
