import LineShell.Proofs.Ordering
import Mathlib.Data.List.Basic
import Mathlib.Data.List.Dedup

namespace LineShell

namespace Counter

-- The counter of these texts.
def ofTexts (texts : List Bytes) : Counter := texts.foldl increment {}

theorem ofTexts_snoc (texts : List Bytes) (text : Bytes) : ofTexts (texts ++ [text]) = (ofTexts texts).increment text := by
  simp [ofTexts]

-- One text more, in a list that shows for every text how often it came.
theorem bump_counted (key : Bytes) (times : Bytes → Nat) (ascending : texts.Pairwise (· < ·))
    (missing : key ∉ texts → times key = 0) :
    bump key (texts.map fun text => (text, times text)) =
      (Report.insertSorted key texts).map fun text => (text, times text + if text = key then 1 else 0) := by
  induction texts with
  | nil => simp [bump, Report.insertSorted, missing]
  | cons first rest ih =>
    obtain ⟨least, following⟩ := List.pairwise_cons.mp ascending
    -- Texts that come behind the key are other texts.
    have apart : ∀ {after : List Bytes}, (∀ text ∈ after, key < text) →
        (after.map fun text => (text, times text + if text = key then 1 else 0)) = after.map fun text => (text, times text) := by
      intro after behind
      apply List.map_congr_left
      intro text member
      have different : text ≠ key := by
        intro same
        exact List.lt_irrefl key (same ▸ behind text member)
      simp [different]
    unfold bump Report.insertSorted
    by_cases here : key = first
    · subst here
      simp only [List.map_cons, if_true, apart least]
    · by_cases before : Bytes.precedes key first = true
      · have smaller := (Bytes.precedes_iff key first).mp before
        have behind : ∀ text ∈ first :: rest, key < text := by
          intro text member
          rcases List.mem_cons.mp member with same | later
          · exact same ▸ smaller
          · exact List.lt_trans smaller (least text later)
        have absent : times key = 0 := missing fun member => List.lt_irrefl key (behind key member)
        have others := apart fun text member => behind text (List.mem_cons_of_mem _ member)
        simp [here, Ne.symm here, before, absent, others]
      · have later : key ∉ rest → times key = 0 := by
          intro absent
          apply missing
          simp [here, absent]
        simp [here, before, Ne.symm here, ih following later]

theorem counts_ofTexts (texts : List Bytes) :
    (ofTexts texts).counts = (Report.ascending texts).map fun text => (text, texts.count text) := by
  induction texts using List.reverseRecOn with
  | nil => rfl
  | append_singleton texts last ih =>
    have missing : last ∉ Report.ascending texts → texts.count last = 0 := by
      intro absent
      exact List.count_eq_zero.mpr fun member => absent ((Report.mem_ascending texts last).mpr member)
    rw [ofTexts_snoc, Report.ascending_snoc, increment, ih, bump_counted last _ (Report.ascending_pairwise texts) missing]
    apply List.map_congr_left
    intro text _
    by_cases same : text = last
    · simp [same]
    · simp [same, List.count_append, Ne.symm same]

theorem ofTexts_perm (same : texts.Perm others) : ofTexts texts = ofTexts others := by
  have counts : (ofTexts texts).counts = (ofTexts others).counts := by
    rw [counts_ofTexts, counts_ofTexts, Report.ascending_perm same]
    apply List.map_congr_left
    intro text _
    rw [same.count_eq]
  exact congrArg Counter.mk counts

theorem count_ofTexts (texts : List Bytes) (text : Bytes) : (ofTexts texts).count text = texts.count text := by
  unfold count
  rw [counts_ofTexts]
  by_cases met : text ∈ texts
  · rw [List.lookup_graph _ ((Report.mem_ascending texts text).mpr met)]
    rfl
  · have absent : List.lookup text ((Report.ascending texts).map fun text => (text, texts.count text)) = none := by
      apply List.lookup_eq_none_iff.mpr
      intro entry member
      obtain ⟨other, there, rfl⟩ := List.mem_map.mp member
      have different : text ≠ other := fun same => met ((Report.mem_ascending texts text).mp (same ▸ there))
      simpa using different
    rw [absent, List.count_eq_zero.mpr met]
    rfl

-- Counting a text adds one to what the counter comes to.

theorem foldl_succ (counts : List (Bytes × Nat)) (start : Nat) :
    counts.foldl (fun sum e => sum + e.2) (start + 1) = counts.foldl (fun sum e => sum + e.2) start + 1 := by
  induction counts generalizing start with
  | nil => rfl
  | cons entry rest ih =>
    simp only [List.foldl_cons, Nat.add_right_comm start 1, ih]

theorem foldl_bump (key : Bytes) (counts : List (Bytes × Nat)) (start : Nat) :
    (bump key counts).foldl (fun sum e => sum + e.2) start = counts.foldl (fun sum e => sum + e.2) start + 1 := by
  induction counts generalizing start with
  | nil => rfl
  | cons entry rest ih =>
    unfold bump
    by_cases here : key = entry.1
    · rw [if_pos here]
      exact foldl_succ rest (start + entry.2)
    · by_cases before : Bytes.precedes key entry.1 = true
      · rw [if_neg here, if_pos before]
        exact foldl_succ (entry :: rest) start
      · rw [if_neg here, if_neg before]
        exact ih (start + entry.2)

theorem total_ofTexts (texts : List Bytes) : (ofTexts texts).total = texts.length := by
  induction texts using List.reverseRecOn with
  | nil => rfl
  | append_singleton texts last ih =>
    have more : ((ofTexts texts).increment last).total = (ofTexts texts).total + 1 := foldl_bump last _ 0
    rw [ofTexts_snoc, more, ih, List.length_append]
    rfl

-- The order in which the texts are listed.

theorem ranksBefore_iff (a b : Bytes × Nat) : ranksBefore a b = true ↔ b.2 < a.2 ∨ a.2 = b.2 ∧ a.1 ≤ b.1 := by
  have order : Bytes.notAfter a.1 b.1 = true ↔ a.1 ≤ b.1 := by
    rw [← List.not_lt, ← Bytes.precedes_iff]
    simp [Bytes.notAfter]
  simp [ranksBefore, order]

theorem ranksBefore_trans (a b c : Bytes × Nat) (first : ranksBefore a b = true) (second : ranksBefore b c = true) :
    ranksBefore a c = true := by
  rw [ranksBefore_iff] at first second ⊢
  rcases first with more | ⟨same, before⟩
  · rcases second with moreAgain | ⟨sameAgain, _⟩
    · exact .inl (Nat.lt_trans moreAgain more)
    · exact .inl (sameAgain ▸ more)
  · rcases second with moreAgain | ⟨sameAgain, beforeAgain⟩
    · exact .inl (same ▸ moreAgain)
    · exact .inr ⟨same.trans sameAgain, List.le_trans before beforeAgain⟩

theorem ranksBefore_total (a b : Bytes × Nat) : (ranksBefore a b || ranksBefore b a) = true := by
  rw [Bool.or_eq_true, ranksBefore_iff, ranksBefore_iff]
  rcases Nat.lt_trichotomy a.2 b.2 with fewer | same | more
  · exact .inr (.inl fewer)
  · rcases List.le_total a.1 b.1 with before | after
    · exact .inl (.inr ⟨same, before⟩)
    · exact .inr (.inr ⟨same.symm, after⟩)
  · exact .inl (.inl more)

-- The texts of a counter, each once: those that came more often first, and of those that came as often the smaller.
structure Ranked (c : Counter) (listed : List Bytes) : Prop where
  once : listed.Nodup
  counted : ∀ text, text ∈ listed ↔ 0 < c.count text
  order : listed.Pairwise fun a b => c.count b < c.count a ∨ c.count a = c.count b ∧ a < b

theorem top_ranked (texts : List Bytes) : Ranked (ofTexts texts) ((ofTexts texts).top.map (·.1)) := by
  have listed : ((ofTexts texts).top.map (·.1)).Perm (Report.ascending texts) := by
    have sorted := (List.mergeSort_perm (ofTexts texts).counts ranksBefore).map (·.1)
    rw [counts_ofTexts, List.map_map] at sorted
    simpa [top, counts_ofTexts, Function.comp_def] using sorted
  have once : ((ofTexts texts).top.map (·.1)).Nodup := listed.nodup_iff.mpr (Report.ascending_pairwise texts).nodup
  -- Each text stands beside its count.
  have shown : ∀ entry ∈ (ofTexts texts).top, entry.2 = (ofTexts texts).count entry.1 := by
    intro entry member
    have there := (List.mergeSort_perm _ _).mem_iff.mp member
    rw [counts_ofTexts] at there
    obtain ⟨text, _, rfl⟩ := List.mem_map.mp there
    exact (count_ofTexts texts text).symm
  constructor
  case once => exact once
  case counted =>
    intro text
    rw [listed.mem_iff, Report.mem_ascending, count_ofTexts, List.count_pos_iff]
  case order =>
    have ranks : (ofTexts texts).top.Pairwise fun a b => ranksBefore a b = true :=
      List.pairwise_mergeSort ranksBefore_trans ranksBefore_total _
    apply List.pairwise_map.mpr
    apply (ranks.and (List.pairwise_map.mp once)).imp_of_mem
    intro a b memberA memberB both
    rw [← shown a memberA, ← shown b memberB]
    rcases (ranksBefore_iff a b).mp both.1 with more | ⟨same, before⟩
    · exact .inl more
    · exact .inr ⟨same, Bytes.lt_of_different both.2 before⟩

end Counter

namespace Report

-- A kind of a line that failed, and a kind nobody knows.
def isError (e : Entry) : Bool := [Event.syntaxError, Event.resourceError, Event.spawnError].contains e.kind

def isStrange (e : Entry) : Bool := e.kind ≠ Event.runCommand && e.kind ≠ Event.unknownCommand && !isError e

-- A counter of a report, with the entries that it counts and the text it counts them under.
structure Tally where
  counter : Counter
  takes : Entry → Bool
  text : Entry → Bytes

def tallies (r : Report) : List Tally :=
  [⟨r.commands, fun e => e.kind = Event.runCommand, fun e => e.name⟩,
    ⟨r.statuses, fun e => e.kind = Event.runCommand, fun e => decimalInt e.status⟩,
    ⟨r.unknownCommands, fun e => e.kind = Event.unknownCommand, fun e => e.name⟩,
    ⟨r.errorKinds, isError, fun e => e.kind⟩, ⟨r.errorMessages, isError, fun e => e.error⟩,
    ⟨r.invalid, isStrange, fun e => e.kind⟩]

def tallied (takes : Entry → Bool) (text : Entry → Bytes) (entries : List Entry) : Counter :=
  .ofTexts ((entries.filter takes).map text)

-- The report, field by field, from the whole list of entries.
def gathered (entries : List Entry) : Report where
  entries := entries.length
  sessions := ascending (entries.map (·.session))
  commands := tallied (fun e => e.kind = Event.runCommand) (fun e => e.name) entries
  statuses := tallied (fun e => e.kind = Event.runCommand) (fun e => decimalInt e.status) entries
  unknownCommands := tallied (fun e => e.kind = Event.unknownCommand) (fun e => e.name) entries
  errorKinds := tallied isError (fun e => e.kind) entries
  errorMessages := tallied isError (fun e => e.error) entries
  invalid := tallied isStrange (fun e => e.kind) entries

theorem tallied_snoc (takes : Entry → Bool) (text : Entry → Bytes) (entries : List Entry) (e : Entry) :
    tallied takes text (entries ++ [e]) =
      if takes e then (tallied takes text entries).increment (text e) else tallied takes text entries := by
  by_cases taken : takes e = true
  · simp [tallied, taken, Counter.ofTexts_snoc]
  · simp [tallied, taken]

-- The kind of an entry is one of four.
theorem kind_cases (e : Entry) :
    (e.kind = Event.runCommand ∧ e.kind ≠ Event.unknownCommand ∧ isError e = false ∧ isStrange e = false) ∨
    (e.kind ≠ Event.runCommand ∧ e.kind = Event.unknownCommand ∧ isError e = false ∧ isStrange e = false) ∨
    (e.kind ≠ Event.runCommand ∧ e.kind ≠ Event.unknownCommand ∧ isError e = true ∧ isStrange e = false) ∨
    (e.kind ≠ Event.runCommand ∧ e.kind ≠ Event.unknownCommand ∧ isError e = false ∧ isStrange e = true) := by
  have errors : isError e = true → e.kind ≠ Event.runCommand ∧ e.kind ≠ Event.unknownCommand := by
    have apart : ∀ kind ∈ [Event.syntaxError, Event.resourceError, Event.spawnError],
        kind ≠ Event.runCommand ∧ kind ≠ Event.unknownCommand := by decide
    exact fun failed => apart e.kind (List.contains_iff_mem.mp failed)
  cases failed : isError e with
  | true =>
    obtain ⟨notRun, notUnknown⟩ := errors failed
    simp [notRun, notUnknown, failed, isStrange]
  | false =>
    by_cases ran : e.kind = Event.runCommand
    · have other : Event.runCommand ≠ Event.unknownCommand := by decide
      simp [ran, other, isStrange]
    · by_cases missed : e.kind = Event.unknownCommand
      · have other : Event.unknownCommand ≠ Event.runCommand := by decide
        simp [missed, other, isStrange]
      · simp [ran, missed, failed, isStrange]

-- An entry more: its kind decides which counters count it.
theorem update_gathered (entries : List Entry) (e : Entry) : (gathered entries).update e = gathered (entries ++ [e]) := by
  have told : [Event.syntaxError, Event.resourceError, Event.spawnError].contains e.kind = isError e := rfl
  unfold update gathered
  simp only [tallied_snoc, List.length_append, List.map_append, List.map_cons, List.map_nil, ascending_snoc, told]
  rcases kind_cases e with ⟨ran, notUnknown, fine, plain⟩ | ⟨notRun, missed, fine, plain⟩ | ⟨notRun, notUnknown, failed, plain⟩ |
    ⟨notRun, notUnknown, fine, strange⟩
  · simp [ran, ran ▸ notUnknown, fine, plain]
  · simp [missed, missed ▸ notRun, fine, plain]
  · simp [notRun, notUnknown, failed, plain]
  · simp [notRun, notUnknown, fine, strange]

theorem ofEntries_gathered (entries : List Entry) : ofEntries entries = gathered entries := by
  induction entries using List.reverseRecOn with
  | nil => rfl
  | append_singleton entries last ih =>
    rw [← update_gathered, ← ih]
    simp [ofEntries]

theorem total_tallied (takes : Entry → Bool) (text : Entry → Bytes) (entries : List Entry) :
    (tallied takes text entries).total = entries.countP takes := by
  rw [tallied, Counter.total_ofTexts, List.length_map, List.countP_eq_length_filter]

theorem count_tallied (takes : Entry → Bool) (text : Entry → Bytes) (entries : List Entry) (key : Bytes) :
    (tallied takes text entries).count key = (entries.filter takes).countP fun e => text e = key := by
  rw [tallied, Counter.count_ofTexts, List.count_eq_countP, List.countP_map]
  apply List.countP_congr
  simp

-- So the counters share the entries out among them.
theorem kinds_whole (entries : List Entry) :
    entries.countP (fun e => e.kind = Event.runCommand) + entries.countP (fun e => e.kind = Event.unknownCommand) +
      entries.countP isError + entries.countP isStrange = entries.length := by
  induction entries with
  | nil => rfl
  | cons e rest ih =>
    have one : (if decide (e.kind = Event.runCommand) = true then 1 else 0) +
        (if decide (e.kind = Event.unknownCommand) = true then 1 else 0) + (if isError e = true then 1 else 0) +
        (if isStrange e = true then 1 else 0) = 1 := by
      rcases kind_cases e with ⟨ran, notUnknown, fine, plain⟩ | ⟨notRun, missed, fine, plain⟩ | ⟨notRun, notUnknown, failed, plain⟩ |
        ⟨notRun, notUnknown, fine, strange⟩
      · simp [ran, ran ▸ notUnknown, fine, plain]
      · simp [missed, missed ▸ notRun, fine, plain]
      · simp [notRun, notUnknown, failed, plain]
      · simp [notRun, notUnknown, fine, strange]
    simp only [List.countP_cons, List.length_cons]
    omega

-- What a report says of these entries. A counter lists the texts it has counted, each with the number of its entries.
structure Accounts (all : List Entry) (r : Report) : Prop where
  entries : r.entries = all.length
  sessions : r.sessions.length = (all.map (·.session)).dedup.length
  ran : r.commands.total = all.countP fun e => e.kind = Event.runCommand
  ended : r.statuses.total = r.commands.total
  failed : r.errorKinds.total = all.countP isError
  explained : r.errorMessages.total = r.errorKinds.total
  whole : r.commands.total + r.unknownCommands.total + r.errorKinds.total + r.invalid.total = r.entries
  counted : ∀ tally ∈ r.tallies, ∀ text,
    tally.counter.count text = (all.filter tally.takes).countP fun e => tally.text e = text
  ranked : ∀ tally ∈ r.tallies, tally.counter.Ranked (tally.counter.top.map (·.1))

theorem gathered_accounts (all : List Entry) : Accounts all (gathered all) := by
  have tallies : ∀ tally ∈ (gathered all).tallies, tally.counter = tallied tally.takes tally.text all := by
    simp [tallies, gathered]
  constructor
  case entries => rfl
  case sessions =>
    have same : (ascending (all.map (·.session))).Perm (all.map (·.session)).dedup := by
      apply (List.perm_ext_iff_of_nodup (ascending_pairwise _).nodup (List.nodup_dedup _)).mpr
      intro session
      rw [mem_ascending, List.mem_dedup]
    exact same.length_eq
  case ran => exact total_tallied _ _ all
  case ended => exact (total_tallied _ _ all).trans (total_tallied _ _ all).symm
  case failed => exact total_tallied _ _ all
  case explained => exact (total_tallied _ _ all).trans (total_tallied _ _ all).symm
  case whole =>
    simp only [gathered, total_tallied]
    exact kinds_whole all
  case counted =>
    intro tally member text
    rw [tallies tally member]
    exact count_tallied _ _ all text
  case ranked =>
    intro tally member
    rw [tallies tally member]
    exact Counter.top_ranked _

theorem gathered_perm (same : others.Perm all) : gathered others = gathered all := by
  have tallies : ∀ takes text, tallied takes text others = tallied takes text all := by
    intro takes text
    exact Counter.ofTexts_perm ((same.filter takes).map text)
  simp only [gathered, tallies, same.length_eq, ascending_perm (same.map fun e => e.session)]

-- A report counts every entry once, and in whatever order the entries come it is the same.
theorem ofEntries_accounts (all : List Entry) :
    Accounts all (ofEntries all) ∧ ∀ others, others.Perm all → ofEntries others = ofEntries all := by
  constructor
  · rw [ofEntries_gathered]
    exact gathered_accounts all
  · intro others same
    rw [ofEntries_gathered, ofEntries_gathered, gathered_perm same]

-- Two sessions whose entries are mixed, with a name that came twice and two that came once.
def mixedEntries : List Entry :=
  [{ kind := Event.runCommand, command := [ascii "sort"], session := ascii "b" },
    { kind := Event.runCommand, command := [ascii "ls"], status := 2, session := ascii "a" },
    { kind := Event.spawnError, command := [ascii "cp"], status := 1, error := ascii "cannot start", session := ascii "b" },
    { kind := Event.runCommand, command := [ascii "cat"], session := ascii "a" },
    { kind := ascii "mystery", session := ascii "a" },
    { kind := Event.runCommand, command := [ascii "ls"], session := ascii "b" },
    { kind := Event.unknownCommand, command := [ascii "sl"], status := 127, session := ascii "b" }]

theorem ofEntries_accounts_mixed :
    mixedEntries.reverse.Perm mixedEntries ∧ ofEntries mixedEntries.reverse = ofEntries mixedEntries ∧
      Accounts mixedEntries (ofEntries mixedEntries) ∧
      (ofEntries mixedEntries).sessions = [ascii "a", ascii "b"] ∧
      (ofEntries mixedEntries).commands.counts = [(ascii "cat", 1), (ascii "ls", 2), (ascii "sort", 1)] := by
  have turned := List.reverse_perm mixedEntries
  obtain ⟨accounts, same⟩ := ofEntries_accounts mixedEntries
  exact ⟨turned, same mixedEntries.reverse turned, accounts, by decide +kernel⟩

end Report
end LineShell
