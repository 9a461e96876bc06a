import LineShell.Proofs.Calls

namespace LineShell

def Call.makes : Call → List FileId
  | .piped reader writer => [reader, writer]
  | .opened f => [f]
  | _ => []

-- The files made by calls, latest first.
def made (calls : List Call) : List FileId := calls.flatMap Call.makes

@[simp] theorem made_nil : made [] = [] := rfl

@[simp] theorem made_cons (call : Call) (calls : List Call) : made (call :: calls) = call.makes ++ made calls := rfl

@[simp] theorem made_append (later earlier : List Call) : made (later ++ earlier) = made later ++ made earlier :=
  List.flatMap_append

-- The account of the calls since `start`. A file is owed as many close calls as it has been made
-- more often than closed; the balance is an equation of numbers, so that a file closed twice or
-- closed without having been made would have to be owed a negative number.
structure Account (start : World) (calls : List Call) (owed : FileId → Nat) (w : World) : Prop where
  reached : start.Reaches calls w
  fresh : ∀ f : Nat, f ∈ made calls → start.files.size ≤ f ∧ f < w.files.size
  distinct : (made calls).Nodup
  balance : ∀ f, (made calls).count f = calls.count (.closed f) + owed f
  flags : ∀ f ∈ made calls, w.isClosed f = some (decide (Call.closed f ∈ calls))

namespace Account
variable {start w after : World} {calls more : List Call} {owed left : FileId → Nat}

theorem empty (w : World) : Account w [] (fun _ => 0) w :=
  ⟨World.Reaches.refl w, by simp, by simp, by simp, by simp⟩

theorem made_of_owed (account : Account start calls owed w) (owing : 0 < owed f) : f ∈ made calls := by
  have counted := account.balance f
  exact List.count_pos_iff.mp (by omega)

theorem made_once (account : Account start calls owed w) (present : f ∈ made calls) : (made calls).count f = 1 := by
  have atMost := List.nodup_iff_count.mp account.distinct f
  have atLeast := List.count_pos_iff.mpr present
  omega

theorem open_of_owed (account : Account start calls owed w) (owing : 0 < owed f) :
    Call.closed f ∉ calls ∧ w.isClosed f = some false := by
  have present := account.made_of_owed owing
  have once := account.made_once present
  have counted := account.balance f
  have never : Call.closed f ∉ calls := List.count_eq_zero.mp (by omega)
  exact ⟨never, by simpa [never] using account.flags f present⟩

-- A number that is not in use yet has neither been made nor closed.
theorem unused (account : Account start calls owed w) (new : w.files.size ≤ f) :
    f ∉ made calls ∧ Call.closed f ∉ calls ∧ owed f = 0 := by
  have missing : f ∉ made calls := fun present => by
    have bound := (account.fresh f present).2
    exact absurd (Nat.lt_of_lt_of_le bound new) (Nat.lt_irrefl f)
  have counted := account.balance f
  rw [List.count_eq_zero.mpr missing] at counted
  exact ⟨missing, List.count_eq_zero.mp (by omega), by omega⟩

-- The one step of all others: new files get new numbers, and every close call pays for a file
-- that is owed one.
theorem extend (account : Account start calls owed w) (reached : w.Reaches more after)
    (fresh : ∀ f : Nat, f ∈ made more → w.files.size ≤ f ∧ f < after.files.size) (distinct : (made more).Nodup)
    (flags : ∀ f ∈ made more, after.isClosed f = some (decide (Call.closed f ∈ more)))
    (balance : ∀ f, owed f + (made more).count f = more.count (.closed f) + left f) :
    Account start (more ++ calls) left after := by
  have older : ∀ f ∈ made calls, f < w.files.size := fun f present => (account.fresh f present).2
  refine ⟨account.reached.trans reached, ?_, ?_, ?_, ?_⟩
  · intro f present
    rw [made_append, List.mem_append] at present
    rcases present with new | old
    · have bounds := fresh f new
      exact ⟨Nat.le_trans account.reached.files bounds.1, bounds.2⟩
    · have bounds := account.fresh f old
      exact ⟨bounds.1, Nat.lt_of_lt_of_le bounds.2 reached.files⟩
  · rw [made_append, List.nodup_append]
    refine ⟨distinct, account.distinct, ?_⟩
    intro f new g old same
    have bound := older g old
    have lower := (fresh f new).1
    subst same
    exact absurd (Nat.lt_of_lt_of_le bound lower) (Nat.lt_irrefl f)
  · intro f
    have before := account.balance f
    have now := balance f
    rw [made_append, List.count_append, List.count_append]
    omega
  · intro f present
    rw [made_append, List.mem_append] at present
    rcases present with new | old
    · have unclosed := (account.unused (fresh f new).1).2.1
      rw [flags f new]
      simp [unclosed]
    · rw [reached.flags f (older f old), account.flags f old]
      by_cases now : Call.closed f ∈ more
      · simp [now]
      · simp [now]

-- Calls that make no files, such as marks and close calls.
theorem pay (account : Account start calls owed w) (reached : w.Reaches more after) (makesNone : made more = [])
    (balance : ∀ f, owed f = more.count (.closed f) + left f) : Account start (more ++ calls) left after :=
  account.extend reached (by simp [makesNone]) (by simp [makesNone]) (by simp [makesNone])
    (by simpa [makesNone] using balance)

theorem quiet (account : Account start calls owed w) (reached : w.Reaches [] after) :
    Account start calls owed after :=
  account.pay reached rfl (by simp)

-- A stretch that settles all it makes may stand anywhere.
theorem nested (account : Account start calls owed w) (inner : Account w more (fun _ => 0) after) :
    Account start (more ++ calls) owed after := by
  refine account.extend inner.reached inner.fresh inner.distinct inner.flags ?_
  intro f
  have settled := inner.balance f
  omega

theorem pipe (account : Account start calls owed w) (piped : w.pipe = (.ok (reader, writer), after)) :
    Account start (.piped reader writer :: calls) (fun f => owed f + [reader, writer].count f) after := by
  obtain ⟨reached, first, second, size, readerOpen, writerOpen⟩ := World.pipe_reaches piped
  subst first second
  refine account.extend reached ?_ (by simp [Call.makes]) ?_ ?_
  · intro f present
    simp only [made_cons, made_nil, Call.makes, List.append_nil, List.mem_cons, List.not_mem_nil, or_false] at present
    rcases present with rfl | rfl
    · omega
    · omega
  · intro f present
    simp only [made_cons, made_nil, Call.makes, List.append_nil, List.mem_cons, List.not_mem_nil, or_false] at present
    rcases present with rfl | rfl
    · simpa using readerOpen
    · simpa using writerOpen
  · intro f
    simp [Call.makes]

theorem openFile (account : Account start calls owed w) (opened : w.openFile path mode = (.ok f, after)) :
    Account start (.opened f :: calls) (fun g => owed g + [f].count g) after := by
  obtain ⟨reached, number, size, fileOpen⟩ := World.openFile_reaches opened
  refine account.extend reached ?_ (by simp [Call.makes]) ?_ ?_
  · intro g present
    simp only [made_cons, made_nil, Call.makes, List.append_nil, List.mem_singleton] at present
    subst present number
    omega
  · intro g present
    simp only [made_cons, made_nil, Call.makes, List.append_nil, List.mem_singleton] at present
    subst present
    simpa using fileOpen
  · intro g
    simp [Call.makes]

-- Nothing is owed any more: every file that was made has been closed once and is closed, and
-- nothing else has been closed.
theorem settled (account : Account start calls (fun _ => 0) w) (f : FileId) :
    (f ∈ made calls → calls.count (.closed f) = 1 ∧ w.isClosed f = some true) ∧
      (f ∉ made calls → Call.closed f ∉ calls) := by
  have counted := account.balance f
  constructor
  · intro present
    have once := account.made_once present
    have closedOnce : calls.count (.closed f) = 1 := by omega
    have closed : Call.closed f ∈ calls := List.count_pos_iff.mp (by omega)
    exact ⟨closedOnce, by simpa [closed] using account.flags f present⟩
  · intro missing
    rw [List.count_eq_zero.mpr missing] at counted
    exact List.count_eq_zero.mp (by omega)

end Account
end LineShell
