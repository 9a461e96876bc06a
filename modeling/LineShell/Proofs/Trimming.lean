import Mathlib.Data.List.DropRight
import Mathlib.Data.List.Infix
import LineShell.Bytes.Blank
import LineShell.Proofs.Pairing

namespace LineShell.Line
open Bytes

-- The space is the only whitespace of the line.
def OnlySpaces (line : Bytes) : Prop := ∀ blank ∈ Blank.blanks, blank ≠ [space] → ¬blank <:+: line

-- The line ends with a backslash that is not escaped itself.
def Dangles (line : Bytes) : Prop := (escapes line).getLast? = some (backslash, false)

-- The line ends with an escaped space, apart from plain spaces behind it.
def EndsEscaped (line : Bytes) : Prop := ∃ front n, Dangles front ∧ line = front ++ List.replicate (n + 1) space

-- What trimming takes away

theorem width_spaces {patterns : List Bytes} (known : [space] ∈ patterns)
    (only : ∀ blank ∈ patterns, blank <+: c :: rest → blank = [space]) :
    Blank.width patterns (c :: rest) = if c = space then 1 else 0 := by
  unfold Blank.width
  split
  · rename_i first found
    have begins : first <+: c :: rest := by simpa using List.find?_some found
    obtain rfl := only first (List.mem_of_find?_eq_some found) begins
    exact (if_pos (List.cons_prefix_cons.mp begins).1.symm).symm
  · rename_i missed
    have other : c ≠ space := by
      rintro rfl
      simpa using List.find?_eq_none.mp missed [space] known
    exact (if_neg other).symm

theorem dropLeading_spaces {patterns : List Bytes} (known : [space] ∈ patterns) (text : Bytes)
    (others : ∀ blank ∈ patterns, blank ≠ [space] → ¬blank <:+: text) :
    Blank.dropLeading patterns 0 text = text.dropWhile (· = space) := by
  induction text with
  | nil => rfl
  | cons c rest ih =>
    have width : Blank.width patterns (c :: rest) = if c = space then 1 else 0 :=
      width_spaces known (fun blank member leads => by_contra (fun other => others blank member other leads.isInfix))
    by_cases blank : c = space
    · have later := ih (fun blank member other within => others blank member other (List.infix_cons within))
      simp only [Blank.dropLeading, width, if_pos blank, later]
      simp [blank]
    · simp [Blank.dropLeading, width, blank]

theorem trim_spaces (spaces : OnlySpaces line) :
    Blank.trim line = (line.dropWhile (· = space)).rdropWhile (· = space) := by
  have left : Blank.trimLeft line = line.dropWhile (· = space) := dropLeading_spaces (by decide) line spaces
  have right : ∀ blank ∈ Blank.blanks.map List.reverse, blank ≠ [space] →
      ¬blank <:+: (line.dropWhile (· = space)).reverse := by
    intro blank member other within
    obtain ⟨pattern, here, rfl⟩ := List.mem_map.mp member
    have inner : pattern <:+: line.dropWhile (· = space) := List.reverse_infix.mp within
    refine spaces pattern here ?_ (inner.trans (List.dropWhile_suffix _).isInfix)
    rintro rfl
    exact other rfl
  rw [Blank.trim, left, Blank.trimRight, dropLeading_spaces (by decide) _ right]
  rfl

theorem dropWhile_replicate (text : Bytes) : ∃ n, text = List.replicate n space ++ text.dropWhile (· = space) := by
  have same : text.takeWhile (· = space) = List.replicate (text.takeWhile (· = space)).length space :=
    List.eq_replicate_of_mem (fun c member => by simpa using List.mem_takeWhile_imp member)
  exact ⟨_, by rw [← same, List.takeWhile_append_dropWhile]⟩

theorem rdropWhile_replicate (text : Bytes) : ∃ n, text = text.rdropWhile (· = space) ++ List.replicate n space := by
  obtain ⟨n, back⟩ := dropWhile_replicate text.reverse
  have parts := congrArg List.reverse back
  rw [List.reverse_reverse, List.reverse_append, List.reverse_replicate] at parts
  exact ⟨n, parts⟩

theorem trim_parts (spaces : OnlySpaces line) :
    ∃ m n, line = List.replicate m space ++ (Blank.trim line ++ List.replicate n space) := by
  obtain ⟨m, front⟩ := dropWhile_replicate line
  obtain ⟨n, back⟩ := rdropWhile_replicate (line.dropWhile (· = space))
  refine ⟨m, n, ?_⟩
  rw [trim_spaces spaces, ← back]
  exact front

-- A backslash at the end

theorem dangles_escaped (d : UInt8) (rest : Bytes) : Dangles (backslash :: d :: rest) ↔ Dangles rest := by
  rcases h : escapes rest with _ | ⟨first, others⟩ <;> simp [Dangles, escapes_escaped, h]

theorem dangles_plain (plain : c ≠ backslash) (rest : Bytes) : Dangles (c :: rest) ↔ Dangles rest := by
  rcases h : escapes rest with _ | ⟨first, others⟩ <;> simp [Dangles, escapes_plain plain, h, plain]

theorem dangles_spaces (n : Nat) (text : Bytes) : Dangles (List.replicate n space ++ text) ↔ Dangles text := by
  induction n with
  | zero => rfl
  | succ n ih => rw [List.replicate_succ, List.cons_append, dangles_plain (by decide), ih]

theorem Dangles.ends (dangles : Dangles text) : ∃ front, text = front ++ [backslash] := by
  refine List.getLast?_eq_some_iff.mp ?_
  rw [← escapes_fst text, List.getLast?_map, dangles]
  rfl

theorem Dangles.rdropWhile (dangles : Dangles front) (n : Nat) :
    (front ++ List.replicate n space).rdropWhile (· = space) = front := by
  obtain ⟨start, rfl⟩ := dangles.ends
  rw [List.rdropWhile, List.reverse_append, List.reverse_replicate, List.dropWhile_append_of_pos (by simp),
    ← List.rdropWhile, List.rdropWhile_concat_neg _ _ _ (by decide)]

theorem endsEscaped_iff (line : Bytes) :
    EndsEscaped line ↔ line.getLast? = some space ∧ Dangles (line.rdropWhile (· = space)) := by
  constructor
  · rintro ⟨front, n, dangles, rfl⟩
    rw [dangles.rdropWhile]
    exact ⟨by simp [List.replicate_succ', ← List.append_assoc], dangles⟩
  · rintro ⟨last, dangles⟩
    obtain ⟨n, parts⟩ := rdropWhile_replicate line
    cases n with
    | succ n => exact ⟨_, n, dangles, parts⟩
    | zero =>
      obtain ⟨front, ends⟩ := dangles.ends
      have same : line = front ++ [backslash] := by
        rwa [ends, List.replicate_zero, List.append_nil] at parts
      rw [same] at last
      simp [backslash, space] at last

instance (line : Bytes) : Decidable (Dangles line) := inferInstanceAs (Decidable (_ = _))

instance (line : Bytes) : Decidable (EndsEscaped line) := decidable_of_iff _ (endsEscaped_iff line).symm

instance (line : Bytes) : Decidable (OnlySpaces line) := List.decidableBAll _ _

-- Behind such a backslash trimming takes every space.
theorem trim_dangling (dangles : Dangles front) (spaces : OnlySpaces (front ++ List.replicate n space)) :
    ∃ m, front = List.replicate m space ++ Blank.trim (front ++ List.replicate n space) := by
  obtain ⟨start, rfl⟩ := dangles.ends
  obtain ⟨m, parts⟩ := dropWhile_replicate start
  have whole : start ++ [backslash] = List.replicate m space ++ (start.dropWhile (· = space) ++ [backslash]) := by
    rw [← List.append_assoc, ← parts]
  have still : Dangles (start.dropWhile (· = space) ++ [backslash]) := by rwa [whole, dangles_spaces] at dangles
  have left : (start ++ [backslash] ++ List.replicate n space).dropWhile (· = space) =
      start.dropWhile (· = space) ++ [backslash] ++ List.replicate n space := by
    rw [List.append_assoc, List.dropWhile_append]
    split
    · rename_i nothing
      rw [List.isEmpty_iff.mp nothing]
      rfl
    · rw [List.append_assoc]
  refine ⟨m, ?_⟩
  rw [trim_spaces spaces, left, still.rdropWhile]
  exact whole

-- What the spaces mean to the words

theorem cut_leading (n : Nat) (text : Bytes) : cut {} [] (List.replicate n space ++ text) = cut {} [] text := by
  induction n with
  | zero => rfl
  | succ n ih =>
    rw [List.replicate_succ, List.cons_append, cut_separator _ _ rfl, ih]
    simp [finish]

theorem next_space (scan : Scan) (paren : Bool) : scan.next space paren = scan := by
  obtain ⟨single, double, region⟩ := scan
  cases region <;> simp [Scan.next, Region.next, space, singleQuote, doubleQuote, dollar, openParen, closeParen]

theorem cut_spaces (scan : Scan) (word : Bytes) (n : Nat) : cut scan word (List.replicate n space) = cut scan word [] := by
  induction n generalizing word with
  | zero => rfl
  | succ n ih =>
    rw [List.replicate_succ]
    by_cases held : scan.holds = true
    · rw [cut_kept (by decide) _ _ (.inr held), next_space, ih]
      simp [cut, held]
    · have free : scan.holds = false := by simpa using held
      rw [cut_separator _ _ free, ih, cut_nil _ free, cut_nil _ free]
      simp [finish]

theorem head_spaces (rest : Bytes) (n : Nat) :
    decide ((rest ++ List.replicate n space).head? = some openParen) = decide (rest.head? = some openParen) := by
  cases rest with
  | nil => cases n <;> simp [List.replicate_succ, space, openParen]
  | cons c rest => rfl

-- Spaces at the end are left out, unless the first of them is escaped.
theorem cut_trailing (scan : Scan) (word front : Bytes) (n : Nat) (closed : ¬Dangles front) :
    cut scan word (front ++ List.replicate n space) = cut scan word front := by
  induction scan, word, front using cut.induct with
  | case1 scan word | case2 scan word => exact cut_spaces scan word n
  | case3 scan word | case4 scan word => exact absurd (by simp [Dangles, escapes]) closed
  | case5 scan word d rest ih =>
    rw [List.cons_append, List.cons_append, cut_escaped, cut_escaped]
    exact ih (mt (dangles_escaped d rest).mpr closed)
  | case6 scan word c rest plain kept ih =>
    rw [List.cons_append, cut_kept plain _ _ kept, cut_kept plain _ _ kept, head_spaces]
    exact ih (mt (dangles_plain plain rest).mpr closed)
  | case7 scan word c rest plain separates ih =>
    obtain ⟨rfl, free⟩ : c = space ∧ scan.holds = false := by simpa using separates
    rw [List.cons_append, cut_separator _ _ free, cut_separator _ _ free]
    exact congrArg _ (ih (mt (dangles_plain plain rest).mpr closed))

-- Behind a backslash at the end the first of them belongs to the last word.
theorem cut_dangling (scan : Scan) (word front : Bytes) (n : Nat) (dangles : Dangles front)
    (cuts : cut scan word (front ++ List.replicate (n + 1) space) = some tokens) :
    ∃ words last, tokens = words ++ [last ++ [backslash, space]] ∧
      cut scan word front = some (words ++ [last ++ [backslash]]) := by
  induction scan, word, front using cut.induct generalizing tokens with
  | case1 scan word | case2 scan word => cases dangles
  | case3 scan word holds =>
    rw [List.replicate_succ, List.singleton_append, cut_escaped, cut_spaces] at cuts
    simp [cut, holds] at cuts
  | case4 scan word free =>
    have closed : scan.holds = false := by simpa using free
    rw [List.replicate_succ, List.singleton_append, cut_escaped, cut_spaces, cut_nil _ closed] at cuts
    refine ⟨[], word.reverse, ?_, ?_⟩
    · simpa [finish] using (Option.some.inj cuts).symm
    · rw [cut_backslash, cut_nil _ closed]
      simp [finish]
  | case5 scan word d rest ih =>
    rw [List.cons_append, List.cons_append, cut_escaped] at cuts
    rw [cut_escaped]
    exact ih ((dangles_escaped d rest).mp dangles) cuts
  | case6 scan word c rest plain kept ih =>
    rw [List.cons_append, cut_kept plain _ _ kept, head_spaces] at cuts
    rw [cut_kept plain _ _ kept]
    exact ih ((dangles_plain plain rest).mp dangles) cuts
  | case7 scan word c rest plain separates ih =>
    obtain ⟨rfl, free⟩ : c = space ∧ scan.holds = false := by simpa using separates
    rw [List.cons_append, cut_separator _ _ free] at cuts
    obtain ⟨later, cutLater, rfl⟩ := Option.map_eq_some_iff.mp cuts
    obtain ⟨words, last, rfl, same⟩ := ih ((dangles_plain plain rest).mp dangles) cutLater
    rw [cut_separator _ _ free, same]
    exact ⟨finish word ++ words, last, by simp, by simp⟩

-- The words of a trimmed line.
theorem split_trim (line : Bytes) (tokens : List Bytes) (spaces : OnlySpaces line) (splits : split line = .ok tokens) :
    (¬EndsEscaped line → split (Blank.trim line) = .ok tokens) ∧
      (EndsEscaped line → ∃ words last, tokens = words ++ [last ++ [backslash, space]] ∧
        split (Blank.trim line) = .ok (words ++ [last ++ [backslash]])) := by
  simp only [split_cut] at splits ⊢
  constructor
  · intro plain
    obtain ⟨m, n, parts⟩ := trim_parts spaces
    have closed : n = 0 ∨ ¬Dangles (Blank.trim line) := by
      by_contra both
      obtain ⟨some, dangles⟩ : n ≠ 0 ∧ Dangles (Blank.trim line) := by simpa using both
      obtain ⟨k, rfl⟩ := Nat.exists_eq_succ_of_ne_zero some
      refine plain ⟨_, k, (dangles_spaces m _).mpr dangles, ?_⟩
      rwa [List.append_assoc]
    rw [parts, cut_leading] at splits
    rcases closed with rfl | closed
    · rwa [List.replicate_zero, List.append_nil] at splits
    · rwa [cut_trailing _ _ _ _ closed] at splits
  · rintro ⟨front, n, dangles, rfl⟩
    obtain ⟨m, parts⟩ := trim_dangling dangles spaces
    generalize Blank.trim (front ++ List.replicate (n + 1) space) = core at parts
    subst parts
    rw [List.append_assoc, cut_leading] at splits
    exact cut_dangling _ _ core n ((dangles_spaces m core).mp dangles) splits

-- A backslash that is escaped itself escapes no space, and of the spaces behind one that is not only the first counts.
theorem split_trim_endings :
    split (Blank.trim (ascii "  'a b'  c\\\\ ")) = .ok [ascii "'a b'", ascii "c\\\\"] ∧
      ∃ words last, [ascii "a", ascii "b\\ "] = words ++ [last ++ [backslash, space]] ∧
        split (Blank.trim (ascii "a b\\  ")) = .ok (words ++ [last ++ [backslash]]) :=
  ⟨(split_trim (ascii "  'a b'  c\\\\ ") [ascii "'a b'", ascii "c\\\\"] (by decide +kernel)
      (split_cut.mpr (by decide +kernel))).1 (by decide +kernel),
    (split_trim (ascii "a b\\  ") [ascii "a", ascii "b\\ "] (by decide +kernel) (split_cut.mpr (by decide +kernel))).2
      (by decide +kernel)⟩

-- So the words of a line that ends with an escaped space change.
theorem split_trim_escaped : ¬∀ line tokens, OnlySpaces line → split line = .ok tokens → split (Blank.trim line) = .ok tokens := by
  intro same
  have kept := same (ascii "a\\ ") [ascii "a\\ "] (by decide +kernel) (split_cut.mpr (by decide +kernel))
  have lost : cut {} [] (Blank.trim (ascii "a\\ ")) = some [ascii "a\\"] := by decide +kernel
  rw [split_cut, lost] at kept
  revert kept
  decide

end LineShell.Line
