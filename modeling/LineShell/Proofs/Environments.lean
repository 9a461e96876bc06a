import LineShell.Proofs.Assigning
import LineShell.Proofs.Ordering

namespace LineShell

namespace Bytes

theorem cut?_none {c : UInt8} {text : Bytes} (absent : c ∉ text) : cut? c text = none := by
  induction text with
  | nil => rfl
  | cons b rest ih =>
    simp only [List.mem_cons, not_or] at absent
    simp [cut?, Ne.symm absent.1, ih absent.2]

theorem cut?_some {c : UInt8} {text : Bytes} (cut : cut? c text = some (front, back)) :
    text = front ++ c :: back ∧ c ∉ front := by
  induction text generalizing front with
  | nil => cases cut
  | cons b rest ih =>
    unfold cut? at cut
    by_cases here : b = c
    · rw [if_pos here] at cut
      cases cut
      simp [here]
    · rw [if_neg here] at cut
      obtain ⟨⟨before, after⟩, found, same⟩ := Option.map_eq_some_iff.mp cut
      cases same
      obtain ⟨whole, absent⟩ := ih found
      simp [whole, absent, Ne.symm here]

end Bytes

namespace Variables
open Bytes

-- An entry of an environment list, with the variable it is about and the value it gives it.
inductive Reads : Bytes → Bytes → Bytes → Prop where
  | valued (plain : equals ∉ key) : Reads (key ++ equals :: value) key value
  | bare (plain : equals ∉ entry) : Reads entry entry []

theorem Reads.parsed (reads : Reads entry key value) : parseEntry entry = (key, value) := by
  cases reads with
  | valued plain => simp [parseEntry, Session.cut?_name _ _ plain]
  | bare plain => simp [parseEntry, cut?_none plain]

theorem Reads.plain (reads : Reads entry key value) : equals ∉ key := by
  cases reads with
  | valued plain => exact plain
  | bare plain => exact plain

theorem parsed_reads (entry : Bytes) : Reads entry (parseEntry entry).1 (parseEntry entry).2 := by
  unfold parseEntry
  cases cut : cut? equals entry with
  | none =>
    apply Reads.bare
    intro member
    obtain ⟨front, back, rfl, absent⟩ := List.eq_append_cons_of_mem member
    rw [Session.cut?_name front back absent] at cut
    cases cut
  | some parts =>
    obtain ⟨front, back⟩ := parts
    obtain ⟨rfl, absent⟩ := cut?_some cut
    exact .valued absent

-- What setting the entries of a list in turn comes to, for every name there is.
structure Copied (t : Variables) (entries : List Bytes) (after : Variables) : Prop where
  last : ∀ front entry back key value, entries = front ++ entry :: back → Reads entry key value →
    (∀ later ∈ back, ∀ other, ¬Reads later key other) → after.lookup key = some value
  others : ∀ key, (∀ entry ∈ entries, ∀ value, ¬Reads entry key value) → after.lookup key = t.lookup key

theorem copy_others (t : Variables) (entries : List Bytes) (key : Bytes)
    (absent : ∀ entry ∈ entries, ∀ value, ¬Reads entry key value) : (t.copy entries).lookup key = t.lookup key := by
  induction entries generalizing t with
  | nil => rfl
  | cons entry rest ih =>
    have different : key ≠ (parseEntry entry).1 := by
      intro same
      have reads := parsed_reads entry
      rw [← same] at reads
      exact absent entry List.mem_cons_self _ reads
    have later := ih (t.set (parseEntry entry).1 (parseEntry entry).2)
      (fun other member => absent other (List.mem_cons_of_mem _ member))
    rw [lookup_set, if_neg different] at later
    exact later

theorem copy_copied (t : Variables) (entries : List Bytes) : Copied t entries (t.copy entries) := by
  constructor
  case last =>
    intro front entry back key value whole reads absent
    have split : t.copy entries = ((t.copy front).set key value).copy back := by
      simp [whole, copy, reads.parsed]
    rw [split, copy_others _ back key absent, lookup_set, if_pos rfl]
  case others => exact copy_others t entries

-- The tables that are made by setting and removing variables whose names have no equals sign.
inductive Made : Variables → Prop where
  | listed (entries : List Bytes) : Made (ofEnviron entries)
  | copied (made : Made t) (entries : List Bytes) : Made (t.copy entries)
  | set (made : Made t) (plain : equals ∉ key) (value : Bytes) : Made (t.set key value)
  | unset (made : Made t) (key : Bytes) : Made (t.unset key)

-- Each name stands in its place, once, and can be told from its value when the two are written as one text.
structure Orderly (t : Variables) : Prop where
  ascending : t.names.Pairwise (· < ·)
  plain : ∀ name ∈ t.names, equals ∉ name

theorem names_set (t : Variables) (key value : Bytes) : (t.set key value).names = Report.insertSorted key t.names := by
  obtain ⟨entries⟩ := t
  unfold set names
  dsimp only
  induction entries with
  | nil => rfl
  | cons entry rest ih =>
    unfold setIn
    rw [List.map_cons, Report.insertSorted]
    by_cases here : entry.1 = key
    · simp [here]
    · by_cases before : precedes key entry.1 = true
      · simp [here, Ne.symm here, before]
      · simp [here, Ne.symm here, before, ih]

theorem set_orderly (orderly : Orderly t) (plain : equals ∉ key) (value : Bytes) : Orderly (t.set key value) := by
  constructor
  case ascending =>
    rw [names_set]
    exact Report.insertSorted_ascending key orderly.ascending
  case plain =>
    intro name member
    rw [names_set] at member
    rcases (Report.mem_insertSorted key name t.names).mp member with same | old
    · exact same ▸ plain
    · exact orderly.plain name old

theorem unset_orderly (orderly : Orderly t) (key : Bytes) : Orderly (t.unset key) := by
  have fewer : (t.unset key).names.Sublist t.names := List.Sublist.map _ List.filter_sublist
  exact ⟨orderly.ascending.sublist fewer, fun name member => orderly.plain name (fewer.subset member)⟩

theorem copy_orderly (orderly : Orderly t) (entries : List Bytes) : Orderly (t.copy entries) := by
  induction entries generalizing t with
  | nil => exact orderly
  | cons entry rest ih =>
    exact ih (set_orderly orderly (parsed_reads entry).plain _)

theorem made_orderly (made : Made t) : Orderly t := by
  induction made with
  | listed entries => exact copy_orderly ⟨.nil, by simp [empty, names]⟩ entries
  | copied _ entries ih => exact copy_orderly ih entries
  | set _ plain value ih => exact set_orderly ih plain value
  | unset _ key ih => exact unset_orderly ih key

-- What a table says of a name it says in one entry.
theorem lookup_entry {t : Variables} (orderly : Orderly t) (whole : t.entries = front ++ entry :: back) :
    t.lookup entry.1 = some entry.2 ∧ ∀ later ∈ back, later.1 ≠ entry.1 := by
  have ascending := orderly.ascending
  unfold names at ascending
  rw [whole, List.map_append, List.map_cons] at ascending
  obtain ⟨_, behind, before⟩ := List.pairwise_append.mp ascending
  obtain ⟨larger, _⟩ := List.pairwise_cons.mp behind
  have smaller : ∀ other ∈ front, decide (other.1 = entry.1) = false := by
    intro other member
    apply decide_eq_false
    intro same
    have order := before other.1 (List.mem_map_of_mem member) entry.1 List.mem_cons_self
    exact List.lt_irrefl _ (same ▸ order)
  constructor
  · unfold lookup
    rw [whole, List.find?_append, List.find?_eq_none.mpr (by simpa using smaller)]
    simp
  · intro later member same
    exact List.lt_irrefl _ (same ▸ larger later.1 (List.mem_map_of_mem member))

theorem environ_eq {t : Variables} (orderly : Orderly t) :
    t.environ = t.names.map fun name => name ++ equals :: t.get name := by
  unfold environ names
  rw [List.map_map]
  apply List.map_congr_left
  intro entry member
  obtain ⟨front, back, whole⟩ := List.append_of_mem member
  simp [entryText, get, (lookup_entry orderly whole).1]

-- The last entry that reads as a variable of the table is the one that was written for it.
theorem lookup_environ {t : Variables} (orderly : Orderly t) (key : Bytes) : (ofEnviron t.environ).lookup key = t.lookup key := by
  have reads : ∀ entry ∈ t.entries, Reads (entryText entry) entry.1 entry.2 := by
    intro entry member
    have plain := orderly.plain entry.1 (List.mem_map_of_mem member)
    have written : Reads (entry.1 ++ equals :: entry.2) entry.1 entry.2 := .valued plain
    simpa [entryText] using written
  have names : ∀ entry ∈ t.entries, ∀ other value, Reads (entryText entry) other value → other = entry.1 := by
    intro entry member other value again
    have same := again.parsed.symm.trans (reads entry member).parsed
    exact congrArg (·.1) same
  cases found : t.lookup key with
  | some value =>
    obtain ⟨front, back, whole⟩ := List.append_of_mem (entry_of_lookup found)
    have listed : t.environ = front.map entryText ++ entryText (key, value) :: back.map entryText := by
      simp [environ, whole]
    apply (copy_copied empty t.environ).last _ _ _ key value listed
    · exact reads (key, value) (entry_of_lookup found)
    · intro later member other again
      obtain ⟨entry, there, rfl⟩ := List.mem_map.mp member
      have present : entry ∈ t.entries := by simp [whole, there]
      exact (lookup_entry orderly whole).2 entry there (names entry present key other again).symm
  | none =>
    apply (copy_copied empty t.environ).others key
    intro text member value again
    obtain ⟨entry, there, rfl⟩ := List.mem_map.mp member
    obtain ⟨front, back, whole⟩ := List.append_of_mem there
    have same := names entry there key value again
    rw [same, (lookup_entry orderly whole).1] at found
    cases found

-- A table lists its variables in byte order of their names, each once, and is what its list says. Whatever a table was,
-- after a list has been copied into it a name of the list has the value of its last entry, and no other name is touched.
theorem environ_exact :
    (∀ t, Made t →
      (∃ keys : List Bytes, keys.Pairwise (· < ·) ∧ (∀ key, key ∈ keys ↔ ∃ value, t.lookup key = some value) ∧
        t.environ = keys.map fun key => key ++ equals :: t.get key) ∧
      ∀ key, (ofEnviron t.environ).lookup key = t.lookup key) ∧
    ∀ t entries, Copied t entries (t.copy entries) := by
  constructor
  · intro t made
    have orderly := made_orderly made
    refine ⟨⟨t.names, orderly.ascending, ?_, environ_eq orderly⟩, lookup_environ orderly⟩
    intro key
    rw [mem_names, contains, Option.isSome_iff_exists]
  · exact copy_copied

-- Names that are repeated, empty or without a value, and a value with an equals sign.
def oddTable : Variables :=
  ((ofEnviron [ascii "B=x", ascii "=first", ascii "A", ascii "", ascii "B=1=2"]).unset (ascii "A")).set (ascii "AB") []

theorem environ_exact_repeated :
    Made oddTable ∧ (∀ key, (ofEnviron oddTable.environ).lookup key = oddTable.lookup key) ∧
      oddTable.environ = [ascii "=", ascii "AB=", ascii "B=1=2"] := by
  have made : Made oddTable := .set (.unset (.listed _) _) (by decide) _
  obtain ⟨_, same⟩ := environ_exact.1 oddTable made
  exact ⟨made, same, by decide +kernel⟩

end Variables
end LineShell
