import Mathlib.Data.List.Basic
import LineShell.Proofs.Scanning

-- One pass over a word asks for no value; every expansion of the word puts the values of the day in the places of its
-- names. So a value is never read as part of a word.
namespace LineShell.Line
open Bytes

-- A byte of the word itself, or the name of a variable.
inductive Piece where
  | literal (c : UInt8)
  | reference (name : Bytes)
  deriving DecidableEq, Repr

-- A name in a word: not empty, and it ends in front of a dollar sign, a space or a quote.
structure IsName (name : Bytes) : Prop where
  nonempty : name ≠ []
  ends : ∀ c ∈ name, c ≠ dollar ∧ c ≠ space ∧ c ≠ singleQuote ∧ c ≠ doubleQuote

namespace Piece

-- What a piece stands for: the value in the first lookup that knows the name, nothing if none does.
def text (lookups : List Lookup) : Piece → Bytes
  | .literal c => [c]
  | .reference name => (lookups.findSome? (fun lookup => lookup name)).getD []

end Piece

-- What the pass is in the middle of: the byte behind a backslash, or a name, last byte first.
inductive Mode where
  | plain
  | escaped
  | naming (name : Bytes)
  deriving DecidableEq, Repr

structure Pass where
  mode : Mode := .plain
  enabled : Bool := true
  deriving DecidableEq, Repr

namespace Pass

-- The reference that ends, if a name stands behind its dollar sign.
def named (name : Bytes) : List Piece := if name = [] then [] else [.reference name.reverse]

-- A byte outside of names and not behind a backslash; `paren` tells whether a parenthesis opens right behind it.
def read (enabled : Bool) (c : UInt8) (paren : Bool) : List Piece × Pass :=
  if c = backslash then ([], ⟨.escaped, enabled⟩)
  else if c = singleQuote then ([], ⟨.plain, !enabled⟩)
  else if c = doubleQuote then ([], ⟨.plain, enabled⟩)
  else if c = dollar ∧ enabled = true ∧ paren = false then ([], ⟨.naming [], enabled⟩)
  else ([.literal c], ⟨.plain, enabled⟩)

def step (pass : Pass) (c : UInt8) (paren : Bool) : List Piece × Pass :=
  match pass.mode with
  | .plain => read pass.enabled c paren
  | .escaped => ([.literal c], ⟨.plain, pass.enabled⟩)
  | .naming name =>
    if isNameEnd c = true then (named name ++ (read pass.enabled c paren).1, (read pass.enabled c paren).2)
    else ([], ⟨.naming (c :: name), pass.enabled⟩)

-- What the end of the word leaves.
def ending (pass : Pass) : List Piece :=
  match pass.mode with
  | .naming name => named name
  | _ => []

-- The pieces of the rest of a word.
def pieces (pass : Pass) : Bytes → List Piece
  | [] => pass.ending
  | c :: text =>
    (pass.step c (text.head? = some openParen)).1 ++ (pass.step c (text.head? = some openParen)).2.pieces text

-- Where the expansion of a word stands.
def standing (name : Option Bytes) (enabled : Bool) : Pass := ⟨name.elim .plain .naming, enabled⟩

end Pass

-- The pieces of a word.
def piecesOf (word : Bytes) : List Piece := Pass.pieces {} word

-- A name that ends takes no part in what comes behind it.

theorem expandFrom_ended (value : Bytes → Bytes) (enabled : Bool) (rest : Bytes) (ends : isNameEnd c = true ∨ name = none) :
    expandFrom value name enabled (c :: rest) = finishName value name ++ expandFrom value none enabled (c :: rest) := by
  have done : (name.isSome && !isNameEnd c) = false := by rcases ends with ends | rfl <;> simp [*]
  rw [expandFrom.eq_def, expandFrom.eq_def value none]
  simp [done, finishName]

theorem expandFrom_plain (plain : c ≠ backslash) (value : Bytes → Bytes) (enabled : Bool) (rest : Bytes) :
    expandFrom value none enabled (c :: rest) =
      if c = singleQuote then expandFrom value none (!enabled) rest
      else if c = doubleQuote then expandFrom value none enabled rest
      else if c = dollar ∧ enabled = true ∧ rest.head? ≠ some openParen then expandFrom value (some []) enabled rest
      else c :: expandFrom value none enabled rest := by
  rw [expandFrom.eq_def]
  simp [plain, finishName, and_assoc]

theorem Pass.pieces_ended (enabled : Bool) (rest : Bytes) (ends : isNameEnd c = true ∨ name = none) :
    (Pass.standing name enabled).pieces (c :: rest) = (Pass.standing name enabled).ending ++ (Pass.standing none enabled).pieces (c :: rest) := by
  rcases ends with ends | rfl
  · cases name <;> simp [Pass.standing, Pass.pieces, Pass.step, Pass.ending, ends]
  · rfl

theorem finishName_text (lookups : List Lookup) (name : Option Bytes) (enabled : Bool) :
    finishName (resolve lookups) name = (Pass.standing name enabled).ending.flatMap (Piece.text lookups) := by
  rcases name with _ | _ | ⟨c, name⟩
  · rfl
  · rfl
  · simp [finishName, resolve, Pass.standing, Pass.ending, Pass.named, Piece.text]

theorem expandFrom_pieces (lookups : List Lookup) (name : Option Bytes) (enabled : Bool) (text : Bytes) :
    expandFrom (resolve lookups) name enabled text = ((Pass.standing name enabled).pieces text).flatMap (Piece.text lookups) := by
  induction name, enabled, text using expandFrom.induct with
  | case1 name enabled =>
    rw [expandFrom, finishName_text lookups name enabled]
    rfl
  | case2 name enabled c rest inside ih =>
    obtain ⟨name, rfl⟩ : ∃ known, name = some known := by cases name <;> simp_all
    have goes : isNameEnd c = false := by simpa using inside
    rw [expandFrom.eq_def]
    simpa [Pass.standing, Pass.pieces, Pass.step, goes] using ih
  | case3 name enabled c rest outside behind toggled kept named =>
    have ends : isNameEnd c = true ∨ name = none := by cases name <;> simp_all
    rw [expandFrom_ended _ _ _ ends, Pass.pieces_ended _ _ ends, List.flatMap_append, finishName_text lookups name enabled]
    congr 1
    by_cases escape : c = backslash
    · subst escape
      cases rest with
      | nil => rfl
      | cons d rest =>
        rw [expandFrom_escaped]
        exact congrArg (d :: ·) behind
    · rw [expandFrom_plain escape]
      simp only [Pass.standing, Option.elim_none, Pass.pieces, Pass.step, Pass.read, if_neg escape, decide_eq_false_iff_not]
      split
      · exact toggled
      · split
        · exact kept
        · split
          · exact named
          · exact congrArg (c :: ·) kept

-- Names

theorem isNameEnd_false : isNameEnd c = false ↔ c ≠ dollar ∧ c ≠ space ∧ c ≠ singleQuote ∧ c ≠ doubleQuote := by
  simp [isNameEnd, and_assoc]

namespace Pass

-- What has been read of a name has no end in it.
def Within (pass : Pass) : Prop := ∀ name, pass.mode = .naming name → ∀ c ∈ name, isNameEnd c = false

theorem named_isName (ends : ∀ c ∈ name, isNameEnd c = false) (member : .reference found ∈ named name) : IsName found := by
  unfold named at member
  split at member
  · cases member
  · rename_i nonempty
    obtain rfl : found = name.reverse := by simpa using member
    exact ⟨by simpa using nonempty, fun c inside => isNameEnd_false.mp (ends c (List.mem_reverse.mp inside))⟩

theorem read_names (enabled : Bool) (c : UInt8) (paren : Bool) :
    (∀ name, .reference name ∉ (read enabled c paren).1) ∧ (read enabled c paren).2.Within := by
  unfold read
  split_ifs <;> simp [Within]

theorem step_names {pass : Pass} (within : pass.Within) (c : UInt8) (paren : Bool) :
    (∀ name, .reference name ∈ (pass.step c paren).1 → IsName name) ∧ (pass.step c paren).2.Within := by
  obtain ⟨none, later⟩ := read_names pass.enabled c paren
  unfold step
  split
  · exact ⟨fun name member => absurd member (none name), later⟩
  · exact ⟨by simp, by simp [Within]⟩
  · rename_i name naming
    split
    · refine ⟨fun found member => ?_, later⟩
      rcases List.mem_append.mp member with here | behind
      · exact named_isName (within name naming) here
      · exact absurd behind (none found)
    · rename_i goes
      refine ⟨by simp, ?_⟩
      rintro _ ⟨⟩
      exact List.forall_mem_cons.mpr ⟨by simpa using goes, within name naming⟩

theorem pieces_names (pass : Pass) (within : pass.Within) (text : Bytes) :
    ∀ name, .reference name ∈ pass.pieces text → IsName name := by
  induction text generalizing pass with
  | nil =>
    intro found member
    unfold pieces ending at member
    split at member
    · rename_i name naming
      exact named_isName (within name naming) member
    · cases member
  | cons c text ih =>
    obtain ⟨here, later⟩ := step_names within c (text.head? = some openParen)
    intro found member
    rcases List.mem_append.mp member with first | behind
    · exact here found first
    · exact ih _ later found behind

end Pass

-- The values tell the pieces apart

namespace Piece

-- One lookup that knows every name.
def all (value : Bytes → Bytes) : List Lookup := [fun name => some (value name)]

theorem text_all (value : Bytes → Bytes) (name : Bytes) : text (all value) (.reference name) = value name := rfl

theorem text_nonempty (p : Piece) : ∃ lookups, p.text lookups ≠ [] := by
  cases p with
  | literal c => exact ⟨[], by simp [text]⟩
  | reference name => exact ⟨all (fun _ => [0]), by simp [text_all]⟩

-- Under some values two pieces begin with different bytes.
theorem text_apart {p q : Piece} (other : p ≠ q) :
    ∃ lookups a b, (p.text lookups).head? = some a ∧ (q.text lookups).head? = some b ∧ a ≠ b := by
  have next (c : UInt8) : c + 1 ≠ c := by simp
  cases p with
  | literal c =>
    cases q with
    | literal d => exact ⟨[], c, d, rfl, rfl, fun same => other (congrArg literal same)⟩
    | reference name => exact ⟨all (fun _ => [c + 1]), c, c + 1, rfl, rfl, (next c).symm⟩
  | reference name =>
    cases q with
    | literal d => exact ⟨all (fun _ => [d + 1]), d + 1, d, rfl, rfl, next d⟩
    | reference another =>
      have distinct : another ≠ name := fun same => other (congrArg reference same.symm)
      exact ⟨all (fun asked => if asked = name then [0] else [1]), 0, 1, by simp [text_all], by simp [text_all, distinct], by decide⟩

end Piece

theorem Piece.unique (ps qs : List Piece) (same : ∀ lookups, ps.flatMap (Piece.text lookups) = qs.flatMap (Piece.text lookups)) :
    ps = qs := by
  induction ps generalizing qs with
  | nil =>
    cases qs with
    | nil => rfl
    | cons q qs =>
      obtain ⟨lookups, shown⟩ := q.text_nonempty
      have nothing := same lookups
      simp [shown] at nothing
  | cons p ps ih =>
    cases qs with
    | nil =>
      obtain ⟨lookups, shown⟩ := p.text_nonempty
      have nothing := same lookups
      simp [shown] at nothing
    | cons q qs =>
      by_cases first : p = q
      · subst first
        refine congrArg (p :: ·) (ih qs fun lookups => ?_)
        simpa using same lookups
      · obtain ⟨lookups, a, b, front, back, apart⟩ := Piece.text_apart first
        have heads := congrArg List.head? (same lookups)
        simp only [List.flatMap_cons, List.head?_append, front, back, Option.some_or, Option.some.injEq] at heads
        exact absurd heads apart

-- What a change of one value changes

-- The parts of an expansion between the references to one name.
theorem Piece.segments (ps : List Piece) (name : Bytes) (lookups : List Lookup) :
    ∃ segments, segments.length = ps.count (.reference name) + 1 ∧
      ∀ changed, (∀ other ≠ name, Piece.text changed (.reference other) = Piece.text lookups (.reference other)) →
        ps.flatMap (Piece.text changed) = join (Piece.text changed (.reference name)) segments := by
  induction ps with
  | nil => exact ⟨[[]], rfl, fun _ _ => rfl⟩
  | cons p ps ih =>
    obtain ⟨segments, count, later⟩ := ih
    obtain ⟨first, others, rfl⟩ := List.exists_cons_of_length_eq_add_one count
    by_cases here : p = .reference name
    · subst here
      refine ⟨[] :: first :: others, by simpa using count, fun changed agree => ?_⟩
      rw [List.flatMap_cons, later changed agree]
      rfl
    · refine ⟨(p.text lookups ++ first) :: others, by simpa [here] using count, fun changed agree => ?_⟩
      have still : p.text changed = p.text lookups := by
        cases p with
        | literal c => rfl
        | reference other => exact agree other (fun same => here (congrArg Piece.reference same))
      rw [List.flatMap_cons, later changed agree, still]
      cases others <;> simp [join]

-- The expansions of a word are its pieces with the values in the places of the names. No other pieces have the
-- same expansions, and another value for one name shows between the same segments.
theorem expand_pieces (word : Bytes) :
    (∀ name, .reference name ∈ piecesOf word → IsName name) ∧
      (∀ lookups, expand lookups word = (piecesOf word).flatMap (Piece.text lookups)) ∧
      (∀ others : List Piece, (∀ lookups, expand lookups word = others.flatMap (Piece.text lookups)) → others = piecesOf word) ∧
      ∀ name lookups, ∃ segments, segments.length = (piecesOf word).count (.reference name) + 1 ∧
        ∀ changed, (∀ other ≠ name, Piece.text changed (.reference other) = Piece.text lookups (.reference other)) →
          expand changed word = join (Piece.text changed (.reference name)) segments := by
  have expands (lookups : List Lookup) : expand lookups word = (piecesOf word).flatMap (Piece.text lookups) :=
    expandFrom_pieces lookups none true word
  refine ⟨Pass.pieces_names {} (by simp [Pass.Within]) word, expands, fun others same => ?_, fun name lookups => ?_⟩
  · exact Piece.unique _ _ fun lookups => (same lookups).symm.trans (expands lookups)
  · obtain ⟨segments, count, joined⟩ := Piece.segments (piecesOf word) name lookups
    exact ⟨segments, count, fun changed agree => (expands changed).trans (joined changed agree)⟩

example : piecesOf (ascii "a$x'$y'\\$$(\x22$z\x22$") =
    (ascii "a").map .literal ++ [.reference (ascii "x")] ++ (ascii "$y$$(").map .literal ++ [.reference (ascii "z")] := by
  decide +kernel

end LineShell.Line
