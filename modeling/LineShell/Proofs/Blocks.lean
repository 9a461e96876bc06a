import LineShell.World.LineReader

namespace LineShell

namespace Bytes

theorem splitOn_plain (plain : c ∉ text) : splitOn c text = [text] := by
  induction text with
  | nil => rfl
  | cons b rest ih =>
    obtain ⟨other, later⟩ : c ≠ b ∧ c ∉ rest := by simpa using plain
    rw [splitOn, if_neg (Ne.symm other), ih later]

theorem splitOn_free (text : Bytes) (member : piece ∈ splitOn c text) : c ∉ piece := by
  induction text generalizing piece with
  | nil =>
    cases List.mem_singleton.mp member
    exact List.not_mem_nil
  | cons b rest ih =>
    unfold splitOn at member
    split at member
    · rcases List.mem_cons.mp member with rfl | later
      · exact List.not_mem_nil
      · exact ih later
    · rename_i other
      split at member
      · cases List.mem_singleton.mp member
        simpa using Ne.symm other
      · rename_i first others pieces
        rcases List.mem_cons.mp member with rfl | later
        · have inner : c ∉ first := ih (by rw [pieces]; exact List.mem_cons_self)
          simpa [inner] using Ne.symm other
        · exact ih (by rw [pieces]; exact List.mem_cons_of_mem _ later)

theorem splitOn_shorter (text : Bytes) (member : piece ∈ splitOn c text) : piece.length ≤ text.length := by
  induction text generalizing piece with
  | nil =>
    cases List.mem_singleton.mp member
    exact Nat.le_refl _
  | cons b rest ih =>
    unfold splitOn at member
    split at member
    · rcases List.mem_cons.mp member with rfl | later
      · exact Nat.zero_le _
      · exact Nat.le_succ_of_le (ih later)
    · split at member
      · cases List.mem_singleton.mp member
        exact Nat.succ_le_succ (Nat.zero_le _)
      · rename_i first others pieces
        rcases List.mem_cons.mp member with rfl | later
        · exact Nat.succ_le_succ (ih (by rw [pieces]; exact List.mem_cons_self))
        · exact Nat.le_succ_of_le (ih (by rw [pieces]; exact List.mem_cons_of_mem _ later))

theorem splitOn_present (c : UInt8) (text : Bytes) : splitOn c text ≠ [] := by
  cases text with
  | nil => exact List.cons_ne_nil _ _
  | cons b rest =>
    unfold splitOn
    repeat' split
    all_goals exact List.cons_ne_nil _ _

-- Cutting at one of the separators cuts the pieces apart.
theorem splitOn_append (c : UInt8) (front rest : Bytes) : splitOn c (front ++ c :: rest) = splitOn c front ++ splitOn c rest := by
  induction front with
  | nil => simp [splitOn]
  | cons b front ih =>
    rw [List.cons_append, splitOn, splitOn, ih]
    split
    · rfl
    · cases cuts : splitOn c front with
      | nil => exact absurd cuts (splitOn_present c front)
      | cons piece pieces => rfl

theorem splitOn_single (cuts : splitOn c text = [piece]) : text = piece := by
  by_cases more : c ∈ text
  · obtain ⟨front, rest, rfl⟩ := List.append_of_mem more
    have several := congrArg List.length (cuts.symm.trans (splitOn_append c front rest))
    have first := List.length_pos_iff.mpr (splitOn_present c front)
    have others := List.length_pos_iff.mpr (splitOn_present c rest)
    rw [List.length_singleton, List.length_append] at several
    omega
  · rw [splitOn_plain more] at cuts
    exact (List.cons.inj cuts).1

-- What follows the last separator goes on behind it.
theorem splitOn_last (cuts : splitOn c front = ready ++ [last]) (rest : Bytes) :
    splitOn c (front ++ rest) = ready ++ splitOn c (last ++ rest) := by
  induction front generalizing ready last with
  | nil =>
    obtain ⟨rfl, rfl⟩ : ready = [] ∧ last = [] := by
      cases ready with
      | nil => exact ⟨rfl, (List.cons.inj cuts).1.symm⟩
      | cons piece others => simp [splitOn] at cuts
    rfl
  | cons b front ih =>
    rw [List.cons_append, splitOn]
    rw [splitOn] at cuts
    split at cuts
    · rename_i same
      rw [if_pos same]
      cases ready with
      | nil => exact absurd (List.cons.inj cuts).2 (splitOn_present c front)
      | cons piece others =>
        obtain ⟨rfl, later⟩ := List.cons.inj cuts
        rw [ih later, List.cons_append]
    · rename_i other
      rw [if_neg other]
      cases pieces : splitOn c front with
      | nil => exact absurd pieces (splitOn_present c front)
      | cons piece more =>
        rw [pieces] at cuts
        cases ready with
        | nil =>
          obtain ⟨rfl, none⟩ := List.cons.inj cuts
          have single : splitOn c front = [] ++ [piece] := by rw [pieces, none]; rfl
          rw [ih single, List.nil_append, List.nil_append, List.cons_append, splitOn, if_neg other]
        | cons first others =>
          obtain ⟨rfl, later⟩ := List.cons.inj cuts
          have several : splitOn c front = (piece :: others) ++ [last] := by rw [pieces, later]; rfl
          rw [ih several]
          rfl

theorem splitOn_join {pieces : List Bytes} (free : ∀ piece ∈ pieces, c ∉ piece) (present : pieces ≠ []) :
    splitOn c (join [c] pieces) = pieces := by
  induction pieces with
  | nil => exact absurd rfl present
  | cons piece rest ih =>
    have plain := splitOn_plain (free piece List.mem_cons_self)
    cases rest with
    | nil => exact plain
    | cons next others =>
      rw [join, List.append_assoc, List.singleton_append, splitOn_append, plain,
        ih (fun other member => free other (List.mem_cons_of_mem _ member)) (List.cons_ne_nil _ _)]
      · rfl
      · exact List.cons_ne_nil _ _

end Bytes

namespace LineReader
open Bytes

variable {r next : LineReader} {w middle : World}

theorem makeRoom_keeps (room : r.makeRoom? = some next) :
    next.channel = r.channel ∧ next.offset = r.offset ∧ next.held = r.held := by
  have moved : ∀ q : LineReader, q = r ∨ q = { r with start := 0 } →
      (if q.start + q.held.length < q.size then some q
        else if sizeLimit ≤ q.size then none
        else some { q with start := 0, size := min sizeLimit (max firstSize (2 * q.size)) }) = some next →
      next.channel = r.channel ∧ next.offset = r.offset ∧ next.held = r.held := by
    intro q which room
    have kept : q.channel = r.channel ∧ q.offset = r.offset ∧ q.held = r.held := by
      rcases which with rfl | rfl
      · exact ⟨rfl, rfl, rfl⟩
      · exact ⟨rfl, rfl, rfl⟩
    split at room
    · cases room
      exact kept
    · split at room
      · cases room
      · cases room
        exact kept
  unfold makeRoom? at room
  refine moved _ ?_ room
  split
  · exact .inr rfl
  · exact .inl rfl

theorem absorb_moves (absorbed : r.absorb block = (ready, next)) :
    next.channel = r.channel ∧ next.offset = r.offset + block.length ∧ newline ∉ next.held := by
  unfold absorb at absorbed
  cases absorbed
  refine ⟨rfl, rfl, ?_⟩
  dsimp only
  cases last : (splitOn newline (r.held ++ block)).getLast? with
  | none => exact List.not_mem_nil
  | some held => exact splitOn_free _ (List.mem_of_getLast? last)

theorem absorb_plain (clean : newline ∉ r.held) (plain : newline ∉ block) : (r.absorb block).1 = [] := by
  have whole : newline ∉ r.held ++ block := by simp [clean, plain]
  unfold absorb
  dsimp only
  rw [splitOn_plain whole]
  rfl

-- A block lies within the file, unless it is from a device that never ends, which has no lines.
theorem bytesAt_block {place : Nat} (read : w.bytesAt r.channel place count = .ok block) (present : block ≠ []) :
    newline ∉ block ∨ place + block.length ≤ r.extent w := by
  have within : ∀ data : Bytes, (data.drop place).take count ≠ [] → place + ((data.drop place).take count).length ≤ data.length := by
    intro data some
    have start : place < data.length := by
      apply Nat.lt_of_not_le
      intro past
      simp [List.drop_eq_nil_of_le past] at some
    rw [List.length_take, List.length_drop]
    omega
  unfold extent
  cases kind : r.channel with
  | node id =>
    rw [kind, World.bytesAt] at read
    rw [World.extent]
    split at read
    · cases read
      left
      intro member
      cases (List.mem_replicate.mp member).2
    · cases found : w.tree.data id with
      | error e =>
        rw [found] at read
        cases read
      | ok data =>
        rw [found] at read
        cases read
        right
        simpa [found, Except.toOption] using within data present
  | memory name =>
    rw [kind, World.bytesAt] at read
    cases read
    exact .inr (within _ present)
  | reader pipe =>
    rw [kind] at read
    cases read
  | writer pipe =>
    rw [kind] at read
    cases read

theorem readBlocks_moves (clean : newline ∉ r.held) (read : readBlocks blocks r w = .lines ready next) :
    next.channel = r.channel ∧ newline ∉ next.held ∧ r.offset < next.offset ∧ next.offset ≤ r.extent w := by
  induction blocks generalizing r with
  | zero => cases read
  | succ blocks ih =>
    unfold readBlocks at read
    split at read
    · cases read
    · rename_i roomy room
      obtain ⟨channel, offset, held⟩ := makeRoom_keeps room
      rw [← held] at clean
      have extent : roomy.extent w = r.extent w := by
        unfold LineReader.extent
        rw [channel]
      split at read
      · cases read
      · cases read
      · rename_i block present taken
        have size : 0 < block.length := List.length_pos_iff.mpr (fun empty => present (by rw [empty]))
        have placed := bytesAt_block taken (List.length_pos_iff.mp size)
        split at read
        · rename_i further absorbed
          obtain ⟨furtherChannel, furtherOffset, free⟩ := absorb_moves absorbed
          obtain ⟨sameChannel, freeNext, later, bounded⟩ := ih free read
          have sameExtent : further.extent w = roomy.extent w := by
            unfold LineReader.extent
            rw [furtherChannel]
          refine ⟨sameChannel.trans (furtherChannel.trans channel), freeNext, by omega, ?_⟩
          rw [← extent, ← sameExtent]
          exact bounded
        · rename_i lines further some absorbed
          cases read
          obtain ⟨nextChannel, nextOffset, free⟩ := absorb_moves absorbed
          refine ⟨nextChannel.trans channel, free, by omega, ?_⟩
          rcases placed with plain | inside
          · have nothing := absorb_plain clean plain
            rw [absorbed] at nothing
            exact absurd nothing some
          · omega

theorem next_moves (clean : newline ∉ r.held) (read : r.next w = .lines ready next) :
    next.channel = r.channel ∧ newline ∉ next.held ∧ r.offset < next.offset ∧ next.offset ≤ r.extent w :=
  readBlocks_moves clean read

end LineReader
end LineShell
