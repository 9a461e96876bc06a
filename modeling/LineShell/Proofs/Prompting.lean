import LineShell.Session.Basic
import Mathlib.Data.List.Induction

-- Kinds are replaced one after the other, so the text put in for one is searched for those that come later: it is
-- filled in itself.
namespace LineShell.Template
open Bytes

-- All at once: an escape is a backslash and a letter that has a value, its value is copied, and all else stays.
def fill (value : UInt8 → Option Bytes) : Bytes → Bytes
  | [] => []
  | [b] => [b]
  | b :: c :: rest =>
    match if b = backslash then value c else none with
    | some text => text ++ fill value rest
    | none => b :: fill value (c :: rest)

-- The letters and their values, one after the other.
def passes (pairs : List (UInt8 × Bytes)) (text : Bytes) : Bytes :=
  pairs.foldl (fun text pair => replace [backslash, pair.1] pair.2 text) text

def only (letter : UInt8) (text : Bytes) (c : UInt8) : Option Bytes := if c = letter then some text else none

-- Values in which the escapes that come later are filled in.
def nested : List (UInt8 × Bytes) → UInt8 → Option Bytes
  | [], _ => none
  | (letter, text) :: later, c => if c = letter then some (fill (nested later) text) else nested later c

-- Every backslash has a byte behind it that is none.
inductive Closed : Bytes → Prop where
  | nil : Closed []
  | plain (other : b ≠ backslash) (rest : Closed text) : Closed (b :: text)
  | escape (other : c ≠ backslash) (rest : Closed text) : Closed (backslash :: c :: text)

variable {value : UInt8 → Option Bytes} {pairs : List (UInt8 × Bytes)}

theorem fill_plain (plain : b ≠ backslash) (rest : Bytes) : fill value (b :: rest) = b :: fill value rest := by
  cases rest with
  | nil => rfl
  | cons c rest => rw [fill, if_neg plain]

theorem fill_escape (known : value c = some text) (rest : Bytes) :
    fill value (backslash :: c :: rest) = text ++ fill value rest := by
  rw [fill, if_pos rfl, known]

theorem fill_other (unknown : value c = none) (rest : Bytes) :
    fill value (backslash :: c :: rest) = backslash :: fill value (c :: rest) := by
  rw [fill, if_pos rfl, unknown]

theorem fill_free (free : backslash ∉ text) : fill value text = text := by
  induction text with
  | nil => rfl
  | cons b rest ih =>
    rw [fill_plain (List.ne_of_not_mem_cons free).symm, ih (List.not_mem_of_not_mem_cons free)]

theorem closed_free (free : backslash ∉ text) : Closed text := by
  induction text with
  | nil => exact .nil
  | cons b rest ih => exact .plain (List.ne_of_not_mem_cons free).symm (ih (List.not_mem_of_not_mem_cons free))

theorem fill_nothing (nothing : ∀ c, value c = none) : fill value text = text := by
  fun_induction fill value text with
  | case1 => rfl
  | case2 b => rfl
  | case3 b c rest found known => simp [nothing] at known
  | case4 b c rest unknown ih => rw [ih]

-- Replacing one kind of escapes.
theorem replace_fill (letter : UInt8) (text template : Bytes) :
    replace [backslash, letter] text template = fill (only letter text) template := by
  show replaceFrom [backslash, letter] text 0 template = _
  fun_induction fill (only letter text) template with
  | case1 => rfl
  | case2 b => simp [replaceFrom]
  | case3 b c rest found known ih =>
    obtain ⟨rfl, rfl, rfl⟩ : b = backslash ∧ c = letter ∧ found = text := by
      by_cases open_ : b = backslash
      · by_cases same : c = letter
        · exact ⟨open_, same, by simpa [only, open_, same] using known.symm⟩
        · simp [only, same] at known
      · simp [open_] at known
    simpa [replaceFrom] using ih
  | case4 b c rest unknown ih =>
    have apart : ([backslash, letter] : Bytes).isPrefixOf (b :: c :: rest) = false := by
      by_cases open_ : b = backslash
      · have other : c ≠ letter := by
          rintro rfl
          simp [only, open_] at unknown
        simp [List.isPrefixOf, Ne.symm other]
      · simp [List.isPrefixOf, Ne.symm open_]
    rw [replaceFrom, apart, ← ih]
    rfl

theorem Closed.append (front : Closed text) (back : Closed other) : Closed (text ++ other) := by
  induction front with
  | nil => exact back
  | plain other _ ih => exact .plain other ih
  | escape other _ ih => exact .escape other ih

-- What is filled in a closed text goes on in what follows it as if it began there.
theorem Closed.fill_append (closed : Closed text) (later : Bytes) :
    fill value (text ++ later) = fill value text ++ fill value later := by
  induction closed with
  | nil => rfl
  | plain other _ ih => rw [List.cons_append, fill_plain other, fill_plain other, ih, List.cons_append]
  | @escape c rest other _ ih =>
    rw [List.cons_append, List.cons_append]
    cases known : value c with
    | some found => rw [fill_escape known, fill_escape known, ih, List.append_assoc]
    | none =>
      rw [fill_other known, fill_other known, fill_plain other, fill_plain other, ih, List.cons_append, List.cons_append]

theorem Closed.fill (closed : Closed text) (values : ∀ c found, value c = some found → Closed found) :
    Closed (fill value text) := by
  induction closed with
  | nil => exact .nil
  | plain other _ ih =>
    rw [fill_plain other]
    exact .plain other ih
  | @escape c rest other _ ih =>
    cases known : value c with
    | some found =>
      rw [fill_escape known]
      exact (values c found known).append ih
    | none =>
      rw [fill_other known, fill_plain other]
      exact .escape other ih

-- No escape of this letter stands behind another backslash.
def Apart (letter : UInt8) (text : Bytes) : Prop := hasInfix [backslash, backslash, letter] text = false

theorem Apart.later (apart : Apart letter (b :: text)) : Apart letter text := by
  unfold Apart hasInfix at apart
  exact (Bool.or_eq_false_iff.mp apart).2

theorem Apart.ne (apart : Apart letter (backslash :: backslash :: c :: text)) : c ≠ letter := by
  rintro rfl
  simp [Apart, hasInfix] at apart

theorem Closed.apart (closed : Closed text) (letter : UInt8) : Apart letter text := by
  unfold Apart at *
  induction closed with
  | nil => rfl
  | plain other _ ih => simp [hasInfix, List.isPrefixOf, Ne.symm other, ih]
  | escape other _ ih => simp [hasInfix, List.isPrefixOf, Ne.symm other, ih]

-- What stands behind a backslash begins with the same byte as before.
theorem fill_begins (apart : ∀ d, value d ≠ none → Apart d (backslash :: c :: rest)) :
    ∃ tail, fill value (c :: rest) = c :: tail := by
  by_cases closing : c = backslash
  · subst closing
    cases rest with
    | nil => exact ⟨[], rfl⟩
    | cons d more =>
      cases known : value d with
      | some found => exact absurd rfl (apart d (by simp [known])).ne
      | none => exact ⟨_, fill_other known more⟩
  · exact ⟨_, fill_plain closing rest⟩

-- One more kind of escapes, after the others.
def also (value : UInt8 → Option Bytes) (letter : UInt8) (text : Bytes) (c : UInt8) : Option Bytes :=
  if c = letter then some text else (value c).map (fill (only letter text))

theorem fill_fill (free : value letter = none) (plain : letter ≠ backslash)
    (values : ∀ c found, value c = some found → Closed found) (apart : ∀ c, value c ≠ none → Apart c template) :
    fill (only letter text) (fill value template) = fill (also value letter text) template := by
  have other : ∀ {c}, c ≠ letter → only letter text c = none := fun different => if_neg different
  fun_induction fill value template with
  | case1 => rfl
  | case2 b => rfl
  | case3 b c rest found known ih =>
    by_cases open_ : b = backslash
    · rw [if_pos open_] at known
      have different : c ≠ letter := by
        rintro rfl
        rw [free] at known
        cases known
      have filled : also value letter text c = some (fill (only letter text) found) := by
        rw [also, if_neg different, known]
        rfl
      rw [open_, fill_escape filled, (values c found known).fill_append, ih fun d held => (apart d held).later.later]
    · rw [if_neg open_] at known
      cases known
  | case4 b c rest unknown ih =>
    have later := ih fun d held => (apart d held).later
    by_cases open_ : b = backslash
    · rw [if_pos open_] at unknown
      subst open_
      by_cases same : c = letter
      · subst same
        have put : also value c text c = some text := if_pos rfl
        have here : only c text c = some text := if_pos rfl
        rw [fill_plain plain, fill_plain plain, fill_plain plain] at later
        rw [fill_plain plain, fill_escape here, fill_escape put, (List.cons.inj later).2]
      · obtain ⟨tail, begins⟩ := fill_begins apart
        have kept : also value letter text c = none := by
          rw [also, if_neg same, unknown]
          rfl
        rw [begins] at later ⊢
        rw [fill_other (other same), fill_other kept, later]
    · rw [fill_plain open_, fill_plain open_, later]

-- Kinds of escapes that do not get into each other's way.
structure Distinct (pairs : List (UInt8 × Bytes)) : Prop where
  letters : (pairs.map Prod.fst).Nodup
  plain : backslash ∉ pairs.map Prod.fst

theorem Distinct.front (distinct : Distinct (pairs ++ later)) : Distinct pairs := by
  obtain ⟨letters, plain⟩ := distinct
  rw [List.map_append] at letters plain
  exact ⟨(List.nodup_append.mp letters).1, fun member => plain (List.mem_append_left _ member)⟩

theorem nested_none (absent : c ∉ pairs.map Prod.fst) : nested pairs c = none := by
  induction pairs with
  | nil => rfl
  | cons pair later ih => rw [nested, if_neg (List.ne_of_not_mem_cons absent), ih (List.not_mem_of_not_mem_cons absent)]

theorem Distinct.last (distinct : Distinct (pairs ++ [(letter, text)])) : nested pairs letter = none := by
  refine nested_none fun member => ?_
  have letters := distinct.letters
  rw [List.map_append] at letters
  exact (List.nodup_append.mp letters).2.2 _ member _ (List.mem_singleton_self _) rfl

theorem Distinct.last_plain (distinct : Distinct (pairs ++ [(letter, text)])) : letter ≠ backslash := by
  rintro rfl
  exact distinct.plain (by simp)

theorem nested_closed (all : ∀ pair ∈ pairs, Closed pair.2) (known : nested pairs c = some found) : Closed found := by
  induction pairs generalizing c found with
  | nil => cases known
  | cons pair later ih =>
    obtain ⟨here, rest⟩ := List.forall_mem_cons.mp all
    unfold nested at known
    split at known
    · cases known
      exact here.fill fun d text held => ih rest held
    · exact ih rest known

theorem nested_known (known : nested pairs c ≠ none) : c ∈ pairs.map Prod.fst := by
  by_contra absent
  exact known (nested_none absent)

theorem nested_snoc (distinct : Distinct (pairs ++ [(letter, text)])) (all : ∀ pair ∈ pairs, Closed pair.2) :
    nested (pairs ++ [(letter, text)]) = also (nested pairs) letter text := by
  induction pairs with
  | nil =>
    have same : fill (nested []) text = text := fill_nothing fun _ => rfl
    funext c
    rw [List.nil_append, nested, same]
    rfl
  | cons pair later ih =>
    obtain ⟨first, put⟩ := pair
    obtain ⟨here, rest⟩ := List.forall_mem_cons.mp all
    obtain ⟨⟨apart, letters⟩, plain⟩ : (first ∉ (later ++ [(letter, text)]).map Prod.fst ∧
        ((later ++ [(letter, text)]).map Prod.fst).Nodup) ∧ backslash ∉ first :: (later ++ [(letter, text)]).map Prod.fst :=
      ⟨List.nodup_cons.mp distinct.letters, distinct.plain⟩
    have inner : Distinct (later ++ [(letter, text)]) := ⟨letters, List.not_mem_of_not_mem_cons plain⟩
    have different : first ≠ letter := by
      rintro rfl
      exact apart (by simp)
    have filled : fill (also (nested later) letter text) put = fill (only letter text) (fill (nested later) put) :=
      (fill_fill inner.last inner.last_plain (fun c found known => nested_closed rest known) fun c _ => here.apart c).symm
    funext c
    rw [List.cons_append, nested, ih inner rest, filled]
    unfold also
    rw [nested]
    by_cases same : c = first
    · rw [if_pos same, if_pos same, if_neg (same ▸ different)]
      rfl
    · rw [if_neg same, if_neg same]

-- Pass after pass is the same as all at once with what is put in filled in by the later passes. It takes that no
-- value but the last can get hold of what follows it, and that no escape but the last kind stands behind a backslash.
theorem passes_fill (distinct : Distinct pairs) (closed : ∀ pair ∈ pairs.dropLast, Closed pair.2)
    (apart : ∀ pair ∈ pairs.dropLast, Apart pair.1 template) : passes pairs template = fill (nested pairs) template := by
  induction pairs using List.reverseRecOn with
  | nil => exact (fill_nothing fun _ => rfl).symm
  | append_singleton front last ih =>
    obtain ⟨letter, text⟩ := last
    rw [List.dropLast_concat] at closed apart
    have earlier := ih distinct.front (fun pair member => closed pair (List.dropLast_subset _ member))
      fun pair member => apart pair (List.dropLast_subset _ member)
    have behind : ∀ c, nested front c ≠ none → Apart c template := by
      intro c known
      obtain ⟨pair, member, rfl⟩ := List.mem_map.mp (nested_known known)
      exact apart pair member
    have one : passes (front ++ [(letter, text)]) template = replace [backslash, letter] text (passes front template) := by
      simp [passes]
    rw [one, earlier, replace_fill, nested_snoc distinct closed]
    exact fill_fill distinct.last distinct.last_plain (fun c found known => nested_closed closed known) behind

-- Values without a backslash are put in as they are.
theorem nested_verbatim (free : ∀ pair ∈ pairs, backslash ∉ pair.2) (c : UInt8) : nested pairs c = pairs.lookup c := by
  induction pairs with
  | nil => rfl
  | cons pair later ih =>
    obtain ⟨letter, text⟩ := pair
    obtain ⟨here, rest⟩ := List.forall_mem_cons.mp free
    rw [nested, fill_free here, ih rest, List.lookup_cons]
    by_cases same : c = letter
    · simp [same]
    · rw [if_neg same, beq_false_of_ne same]

end LineShell.Template

namespace LineShell
open Bytes

theorem World.workingDirectory_absolute {w : World} (found : w.workingDirectory = .ok pwd) : pwd.head? = some slash := by
  have named : ∀ {path}, w.tree.pathOf w.cwd = some path → path.head? = some slash := by
    intro path named
    obtain ⟨names, _, rfl⟩ := Option.map_eq_some_iff.mp named
    rfl
  have upwards : ∀ {path}, (match w.tree.pathOf w.cwd with
      | some path => Except.ok path
      | none => .error Errno.noEntry) = .ok path → path.head? = some slash := by
    intro path upwards
    split at upwards
    · rename_i known
      cases upwards
      exact named known
    · cases upwards
  unfold workingDirectory at found
  dsimp only at found
  split at found
  · split at found
    · rename_i absolute
      split at found
      · split at found
        · cases found
          simpa [Path.isAbsolute] using absolute
        · exact upwards found
      · exact upwards found
    · exact upwards found
  · exact upwards found

namespace Session
open Template
variable {s : Session} {w : World}

-- What is put into a prompt, in the order in which it is.
def insertions (s : Session) (w : World) : List (UInt8 × Bytes) :=
  [(0x75, s.env.get userVar), (0x68, w.host), (0x77, s.shownDirectory w), (dollar, sigil w)]

-- A directory with `~` for the home directory, if it is that one or lies below it.
def abbreviated (home directory : Bytes) : Bytes :=
  if home ≠ [] ∧ (directory = home ∨ home ++ [slash] <+: directory) then ascii "~" ++ directory.drop home.length
  else directory

theorem prompt_passes (never : s.settings.color = Settings.colorNever) :
    s.prompt w = passes (s.insertions w) s.settings.prompt := by
  have plain : Settings.colorNever ≠ Settings.colorAlways := by decide
  unfold prompt
  dsimp only
  rw [never, if_neg plain]
  rfl

theorem insertions_distinct (s : Session) (w : World) : Distinct (s.insertions w) := by
  refine ⟨?_, ?_⟩
  · show ([0x75, 0x68, 0x77, dollar] : Bytes).Nodup
    decide
  · show backslash ∉ ([0x75, 0x68, 0x77, dollar] : Bytes)
    decide

-- The name of the directory begins with that of the home directory, wherever that ends.
theorem shownDirectory_home (present : s.env.get homeVar ≠ [])
    (begins : (w.workingDirectory).toOption.getD [] = s.env.get homeVar ++ rest) : s.shownDirectory w = ascii "~" ++ rest := by
  unfold shownDirectory
  dsimp only
  rw [begins, if_pos (by simpa using present), List.drop_left]

theorem shownDirectory_elsewhere
    (elsewhere : s.env.get homeVar = [] ∨ ¬s.env.get homeVar <+: (w.workingDirectory).toOption.getD []) :
    s.shownDirectory w = (w.workingDirectory).toOption.getD [] := by
  unfold shownDirectory
  dsimp only
  refine if_neg ?_
  rcases elsewhere with none | apart
  · simp [none]
  · simp [apart]

theorem abbreviated_slash (present : home ≠ []) (rest : Bytes) :
    abbreviated home (home ++ slash :: rest) = ascii "~" ++ slash :: rest := by
  have below : home ++ [slash] <+: home ++ slash :: rest := ⟨rest, by simp⟩
  unfold abbreviated
  rw [if_pos ⟨present, .inr below⟩, List.drop_left]

theorem abbreviated_other (other : b ≠ slash) (rest : Bytes) : abbreviated home (home ++ b :: rest) = home ++ b :: rest := by
  refine if_neg ?_
  rintro ⟨_, same | ⟨more, begins⟩⟩
  · simp at same
  · rw [List.append_assoc, List.append_cancel_left_eq] at begins
    exact other (List.cons.inj begins).1.symm

-- The directory is shown as it should be unless the name of the home directory ends in the middle of a component.
theorem shownDirectory_abbreviated : s.shownDirectory w = abbreviated (s.env.get homeVar) ((w.workingDirectory).toOption.getD []) ↔
    (s.env.get homeVar ≠ [] → ∀ b rest, (w.workingDirectory).toOption.getD [] = s.env.get homeVar ++ b :: rest → b = slash) := by
  by_cases present : s.env.get homeVar = []
  · rw [shownDirectory_elsewhere (.inl present)]
    simp [abbreviated, present]
  by_cases begins : s.env.get homeVar <+: (w.workingDirectory).toOption.getD []
  · obtain ⟨rest, begins⟩ := begins
    rw [shownDirectory_home present begins.symm, ← begins]
    cases rest with
    | nil => simp [abbreviated, present]
    | cons b rest =>
      by_cases below : b = slash
      · subst below
        rw [abbreviated_slash present]
        simp
      · rw [abbreviated_other below]
        refine iff_of_false ?_ fun always => below (always present b rest rfl)
        intro same
        have tilde : s.env.get homeVar = ascii "~" := (List.append_cancel_right same).symm
        rcases found : w.workingDirectory with _ | pwd
        · rw [found, tilde] at begins
          cases begins
        · have absolute := World.workingDirectory_absolute found
          rw [found, tilde] at begins
          rw [show pwd = ascii "~" ++ b :: rest from begins.symm] at absolute
          cases absolute
  · rw [shownDirectory_elsewhere (.inr begins)]
    refine iff_of_true ?_ fun _ b rest same => absurd ⟨_, same.symm⟩ begins
    refine (if_neg ?_).symm
    rintro ⟨_, same | ⟨more, below⟩⟩
    · exact begins ⟨[], by simp [same]⟩
    · exact begins ⟨slash :: more, by simpa using below⟩

-- The directory has `~` exactly where its name begins with the home directory's, also in the middle of a component.
theorem prompt_filled (s : Session) (w : World) :
    (s.settings.color = Settings.colorNever → (∀ letter ∈ [0x75, 0x68, 0x77], Apart letter s.settings.prompt) →
      ((∀ text ∈ [s.env.get userVar, w.host, s.shownDirectory w], Closed text) →
        s.prompt w = fill (nested (s.insertions w)) s.settings.prompt) ∧
      ((∀ text ∈ [s.env.get userVar, w.host, s.shownDirectory w], backslash ∉ text) →
        s.prompt w = fill (fun letter => (s.insertions w).lookup letter) s.settings.prompt)) ∧
    (∀ rest, s.env.get homeVar ≠ [] → (w.workingDirectory).toOption.getD [] = s.env.get homeVar ++ rest →
      s.shownDirectory w = ascii "~" ++ rest) ∧
    (s.env.get homeVar = [] ∨ ¬s.env.get homeVar <+: (w.workingDirectory).toOption.getD [] →
      s.shownDirectory w = (w.workingDirectory).toOption.getD []) ∧
    (s.shownDirectory w = abbreviated (s.env.get homeVar) ((w.workingDirectory).toOption.getD []) ↔
      (s.env.get homeVar ≠ [] →
        ∀ b rest, (w.workingDirectory).toOption.getD [] = s.env.get homeVar ++ b :: rest → b = slash)) := by
  refine ⟨fun never apart => ?_, fun rest => shownDirectory_home, shownDirectory_elsewhere, shownDirectory_abbreviated⟩
  have filled : (∀ text ∈ [s.env.get userVar, w.host, s.shownDirectory w], Closed text) →
      s.prompt w = fill (nested (s.insertions w)) s.settings.prompt := by
    intro closed
    rw [prompt_passes never]
    refine passes_fill (insertions_distinct s w) ?_ ?_
    · simpa [insertions] using closed
    · simpa [insertions] using apart
  refine ⟨filled, fun free => ?_⟩
  have marks : backslash ∉ sigil w := by
    unfold sigil
    split <;> decide
  have verbatim : nested (s.insertions w) = fun letter => (s.insertions w).lookup letter := by
    funext letter
    refine nested_verbatim ?_ letter
    simpa [insertions, marks] using free
  rw [filled fun text member => closed_free (free text member), verbatim]

-- A session in `/home/sub`, by the name of its user, its home directory and its prompt.
def prompting (user home template : String) : Session :=
  { settings := { color := Settings.colorNever, prompt := ascii template }
    env := ⟨[(homeVar, ascii home), (userVar, ascii user)]⟩, std := ⟨none, none, none⟩ }

def below : World :=
  { tree := (Tree.empty.add Tree.root (ascii "home") (.directory Tree.root [])).add 1 (ascii "sub") (.directory 1 [])
    cwd := 2, host := ascii "box", user := 1000 }

-- The name of a user has escapes in it; and nothing has.
theorem prompt_filled_nested :
    (∀ text ∈ [ascii "a\\$\\u", ascii "box", ascii "~/sub"], Closed text) ∧
    (∀ text ∈ [ascii "al", ascii "box", ascii "~/sub"], backslash ∉ text) ∧
    (∀ letter ∈ [0x75, 0x68, 0x77], Apart letter (ascii "\\u@\\h:\\w\\\\$ ")) ∧
    (prompting "a\\$\\u" "/home" "\\u@\\h:\\w\\\\$ ").prompt below = ascii "a$\\u@box:~/sub\\$ " ∧
    (prompting "al" "/home" "\\u@\\h:\\w\\\\$ ").prompt below = ascii "al@box:~/sub\\$ " ∧
    (prompting "al" "/home" "").shownDirectory below = abbreviated (ascii "/home") (ascii "/home/sub") := by
  have closed : ∀ text ∈ [ascii "a\\$\\u", ascii "box", ascii "~/sub"], Closed text := by
    have escapes : Closed [0x61, backslash, 0x24, backslash, 0x75] :=
      .plain (by decide) (.escape (by decide) (.escape (by decide) .nil))
    simp only [List.forall_mem_cons, List.not_mem_nil, false_imp_iff, implies_true, and_true]
    exact ⟨escapes, closed_free (by decide), closed_free (by decide)⟩
  have free : ∀ text ∈ [ascii "al", ascii "box", ascii "~/sub"], backslash ∉ text := by decide
  have apart : ∀ letter ∈ [0x75, 0x68, 0x77], Apart letter (ascii "\\u@\\h:\\w\\\\$ ") := by
    unfold Apart
    decide +kernel
  have home : (below.workingDirectory).toOption.getD [] = ascii "/home" ++ ascii "/sub" := by decide +kernel
  have shown : ∀ user template, (prompting user "/home" template).shownDirectory below = ascii "~/sub" :=
    fun user template => (prompt_filled (prompting user "/home" template) below).2.1 (ascii "/sub")
      (show ascii "/home" ≠ [] by decide) home
  refine ⟨closed, free, apart, ?_, ?_, ?_⟩
  · have filled := ((prompt_filled (prompting "a\\$\\u" "/home" "\\u@\\h:\\w\\\\$ ") below).1 rfl apart).1
    rw [shown] at filled
    rw [filled closed]
    decide +kernel
  · have filled := ((prompt_filled (prompting "al" "/home" "\\u@\\h:\\w\\\\$ ") below).1 rfl apart).2
    rw [shown] at filled
    rw [filled free]
    decide +kernel
  · rw [shown]
    decide +kernel

-- An escape in the name of a user is replaced; and a home directory is found in the middle of a component.
theorem prompt_filled_again :
    (prompting "\\$" "/home" "\\u").prompt below = ascii "$" ∧
    fill (fun letter => ((prompting "\\$" "/home" "\\u").insertions below).lookup letter) (ascii "\\u") ≠ ascii "$" ∧
    (below.workingDirectory).toOption = some (ascii "/home/sub") ∧
    (prompting "al" "/ho" "\\w").prompt below = ascii "~me/sub" ∧
    abbreviated (ascii "/ho") (ascii "/home/sub") ≠ ascii "~me/sub" := by
  decide +kernel

end Session
end LineShell
