import LineShell.Journal.Report
import Mathlib.Data.List.Induction
import Mathlib.Data.List.Sort

namespace LineShell

namespace Bytes

theorem precedes_iff (a b : Bytes) : precedes a b = true ↔ a < b := by
  induction a generalizing b with
  | nil => cases b <;> simp [precedes]
  | cons c rest ih =>
    cases b with
    | nil => simp [precedes]
    | cons d more =>
      by_cases same : c = d
      · simp [precedes, same, ih]
      · simp [precedes, List.cons_lt_cons_iff, same]

-- Of two different texts one comes first.

theorem lt_of_different {a b : Bytes} (different : a ≠ b) (order : a ≤ b) : a < b := by
  apply Classical.byContradiction
  intro wrong
  exact different (List.le_antisymm order (List.not_lt.mp wrong))

theorem lt_of_not_precedes {a b : Bytes} (different : a ≠ b) (later : ¬precedes a b = true) : b < a := by
  apply lt_of_different (Ne.symm different)
  exact List.not_lt.mp fun before => later ((precedes_iff a b).mpr before)

end Bytes

namespace Report

theorem mem_insertSorted (text other : Bytes) (texts : List Bytes) :
    other ∈ insertSorted text texts ↔ other = text ∨ other ∈ texts := by
  induction texts with
  | nil => simp [insertSorted]
  | cons first rest ih =>
    unfold insertSorted
    by_cases here : text = first
    · simp [here]
    · by_cases before : Bytes.precedes text first = true
      · simp [here, before]
      · simp [here, before, ih, or_left_comm]

theorem insertSorted_ascending (text : Bytes) (ascending : texts.Pairwise (· < ·)) :
    (insertSorted text texts).Pairwise (· < ·) := by
  induction texts with
  | nil => simp [insertSorted]
  | cons first rest ih =>
    obtain ⟨least, following⟩ := List.pairwise_cons.mp ascending
    unfold insertSorted
    by_cases here : text = first
    · simpa [here] using ascending
    · by_cases before : Bytes.precedes text first = true
      · have smaller := (Bytes.precedes_iff text first).mp before
        simp only [if_neg here, if_pos before]
        apply List.pairwise_cons.mpr
        refine ⟨?_, ascending⟩
        intro other member
        rcases List.mem_cons.mp member with same | later
        · exact same ▸ smaller
        · exact List.lt_trans smaller (least other later)
      · have larger := Bytes.lt_of_not_precedes here before
        simp only [if_neg here, if_neg before]
        apply List.pairwise_cons.mpr
        refine ⟨?_, ih following⟩
        intro other member
        rcases (mem_insertSorted text other rest).mp member with same | later
        · exact same ▸ larger
        · exact least other later

-- The texts of a list, ascending and each of them once.
def ascending (texts : List Bytes) : List Bytes := texts.foldl (fun sorted text => insertSorted text sorted) []

theorem ascending_snoc (texts : List Bytes) (text : Bytes) :
    ascending (texts ++ [text]) = insertSorted text (ascending texts) := by
  simp [ascending]

theorem mem_ascending (texts : List Bytes) (text : Bytes) : text ∈ ascending texts ↔ text ∈ texts := by
  induction texts using List.reverseRecOn with
  | nil => simp [ascending]
  | append_singleton texts last ih => simp [ascending_snoc, mem_insertSorted, ih, or_comm]

theorem ascending_pairwise (texts : List Bytes) : (ascending texts).Pairwise (· < ·) := by
  induction texts using List.reverseRecOn with
  | nil => exact .nil
  | append_singleton texts last ih =>
    rw [ascending_snoc]
    exact insertSorted_ascending last ih

theorem ascending_perm (same : texts.Perm others) : ascending texts = ascending others := by
  have members : ∀ text, text ∈ ascending texts ↔ text ∈ ascending others := by
    intro text
    simp only [mem_ascending, same.mem_iff]
  apply List.Subset.antisymm_of_pairwise (ascending_pairwise texts) (ascending_pairwise others)
  · exact fun text => (members text).mp
  · exact fun text => (members text).mpr

end Report
end LineShell
