import LineShell.Proofs.Acceptance
import LineShell.Proofs.Wiring

namespace LineShell

-- Pipes made one after the other, each with its reading and its writing end.
inductive Piped : World → List (FileId × FileId) → World → Prop where
  | none : Piped w [] w
  | next (made : w.pipe = (.ok ends, middle)) (rest : Piped middle pipes after) : Piped w (ends :: pipes) after

open World

namespace Pipeline
variable {w middle after later : World} {pipes : List (FileId × FileId)}

def ends (pipes : List (FileId × FileId)) : List FileId := pipes.flatMap fun pipe => [pipe.1, pipe.2]

-- However many are asked for: they are all made, or one is the first that is refused.
theorem piped_or_refused (count : Nat) (w : World) : (∃ pipes after, Piped w pipes after ∧ pipes.length = count) ∨
    ∃ pipes middle e after, Piped w pipes middle ∧ pipes.length < count ∧ middle.pipe = (.error e, after) := by
  induction count generalizing w with
  | zero => exact .inl ⟨[], w, .none, rfl⟩
  | succ count ih =>
    rcases making : w.pipe with ⟨result, middle⟩
    cases result with
    | error e => exact .inr ⟨[], w, e, middle, .none, Nat.succ_pos count, making⟩
    | ok pipe =>
      rcases ih middle with ⟨pipes, after, piped, all⟩ | ⟨pipes, last, e, after, piped, early, refused⟩
      · exact .inl ⟨pipe :: pipes, after, .next making piped, congrArg Nat.succ all⟩
      · exact .inr ⟨pipe :: pipes, last, e, after, .next making piped, Nat.succ_lt_succ early, refused⟩

-- The ends have the next numbers, and nothing but the pipes has been made.
theorem piped_reaches (piped : Piped w pipes after) : ends pipes = List.range' w.files.size (2 * pipes.length) ∧
    w.Reaches (pipesFrom w.files.size pipes.length) after ∧
    ∀ f, (made (pipesFrom w.files.size pipes.length)).count f = (ends pipes).count f := by
  induction piped with
  | none => exact ⟨rfl, Reaches.refl _, fun f => rfl⟩
  | @next middle pipes after w pipe making rest ih =>
    obtain ⟨reader, writer⟩ := pipe
    obtain ⟨first, rfl, rfl, size, _⟩ := pipe_reaches making
    obtain ⟨numbers, reached, counts⟩ := ih
    rw [size] at numbers reached counts
    refine ⟨congrArg (fun others => w.files.size :: (w.files.size + 1) :: others) numbers, first.trans reached, fun f => ?_⟩
    have same : ends ((w.files.size, w.files.size + 1) :: pipes) = made [.piped w.files.size (w.files.size + 1)] ++ ends pipes := rfl
    rw [List.length_cons, pipesFrom, made_append, same, List.count_append, List.count_append, counts f]
    exact Nat.add_comm _ _

theorem pipesFrom_unclosed (n count f : Nat) : .closed f ∉ pipesFrom n count := by
  induction count generalizing n with
  | zero => exact List.not_mem_nil
  | succ count ih => simp [pipesFrom, ih]

theorem piped_getElem? {k : Nat} (piped : Piped w pipes after) (inside : k < pipes.length) :
    pipes[k]? = some (w.files.size + 2 * k, w.files.size + 2 * k + 1) := by
  induction piped generalizing k with
  | none => cases inside
  | @next middle pipes after w pipe making rest ih =>
    obtain ⟨reader, writer⟩ := pipe
    obtain ⟨_, rfl, rfl, size, _⟩ := pipe_reaches making
    cases k with
    | zero => rfl
    | succ k =>
      rw [List.getElem?_cons_succ, ih (Nat.lt_of_succ_lt_succ inside), size]
      simp only [Option.some.injEq, Prod.mk.injEq]
      omega

-- Neighbours are connected as far as pipes are made.
theorem connect_piped (first : Stage) (others : List Stage) (piped : Piped w pipes after)
    (all : pipes.length = others.length) : ∃ stages, connect first others w = (none, stages, after) := by
  induction piped generalizing first others with
  | none =>
    cases List.length_eq_zero_iff.mp all.symm
    exact ⟨_, rfl⟩
  | @next middle pipes after w pipe making rest ih =>
    cases others with
    | nil => cases all
    | cons next others =>
      obtain ⟨stages, connected⟩ := ih { next with stdio := next.stdio.set .input (some pipe.1) } others (Nat.succ.inj all)
      unfold connect
      rw [making]
      dsimp only
      rw [connected]
      exact ⟨_, rfl⟩

theorem connect_refused (first : Stage) (others : List Stage) (piped : Piped w pipes middle)
    (early : pipes.length < others.length) (refused : middle.pipe = (.error e, after)) :
    ∃ stages, connect first others w = (some e, stages, after) := by
  induction piped generalizing first others with
  | none =>
    cases others with
    | nil => cases early
    | cons next others =>
      unfold connect
      rw [refused]
      exact ⟨_, rfl⟩
  | @next later pipes middle w pipe making rest ih =>
    cases others with
    | nil => cases early
    | cons next others =>
      obtain ⟨stages, connected⟩ := ih { next with stdio := next.stdio.set .input (some pipe.1) } others
        (Nat.lt_of_succ_lt_succ early) refused
      unfold connect
      rw [making]
      dsimp only
      rw [connected]
      exact ⟨_, rfl⟩

theorem partition_splitOn (tokens : List Bytes) : partition tokens = tokens.splitOn pipeToken := by
  rw [List.splitOn_eq_splitOnP]
  induction tokens with
  | nil => rfl
  | cons token rest ih =>
    rw [List.splitOnP_cons_eq_if_modifyHead, ← ih]
    rw [partition]
    by_cases sign : token = pipeToken
    · simp [sign]
    · rw [if_neg sign, if_neg (by simpa using sign)]
      cases found : partition rest with
      | nil => exact absurd found (partition_nonempty rest)
      | cons stage stages => rfl

-- What a line is built into: its words between the pipe signs, and the pipes that join neighbours.
structure Built (tokens : List Bytes) (pipes : List (FileId × FileId)) (p : Pipeline) (after : World) : Prop where
  joined : [pipeToken].intercalate (p.stages.map (·.args)) = tokens
  count : p.stages.length = tokens.count pipeToken + 1
  full : ∀ stage ∈ p.stages, stage.args ≠ []
  neighbours : ∀ (i : Nat) stage next, p.stages[i]? = some stage → p.stages[i + 1]? = some next →
    ∃ reader writer, pipes[i]? = some (reader, writer) ∧ stage.stdio.output = some writer ∧ next.stdio.input = some reader
  first : ∀ stage, p.stages.head? = some stage → stage.stdio.input = none
  last : ∀ stage, p.stages.getLast? = some stage → stage.stdio.output = none
  errors : ∀ stage ∈ p.stages, stage.stdio.error = none
  distinct : (ends pipes).Nodup
  unclosed : ∀ f ∈ ends pipes, after.isClosed f = some false

-- What is left of pipes that were made in vain: every end has been closed once, and nothing else.
structure Undone (w : World) (pipes : List (FileId × FileId)) (after : World) : Prop where
  distinct : (ends pipes).Nodup
  closes : ∃ closing, w.Reaches (closing ++ pipesFrom w.files.size pipes.length) after ∧
    (∀ call ∈ closing, ∃ f, call = .closed f) ∧ ∀ f, closing.count (.closed f) = (ends pipes).count f
  closed : ∀ f ∈ ends pipes, after.isClosed f = some true

theorem build_stages (tokens : List Bytes) : ∃ first others,
    (partition tokens).map (fun args => ({ args := args } : Stage)) = first :: others ∧
      others.length = tokens.count pipeToken ∧ first.stdio = Stdio.inherit ∧ ∀ stage ∈ others, stage.stdio = Stdio.inherit := by
  have count := partition_length tokens
  cases args : partition tokens with
  | nil => exact absurd args (partition_nonempty tokens)
  | cons one rest =>
    rw [args] at count
    refine ⟨{ args := one }, rest.map fun args => { args := args }, rfl, by simpa using count, rfl, ?_⟩
    simp

theorem build_piped (tokens : List Bytes) (piped : Piped w pipes after) (all : pipes.length = tokens.count pipeToken) :
    ([] ∉ tokens.splitOn pipeToken → ∃ p, build tokens w = (.ok p, after)) ∧
      ([] ∈ tokens.splitOn pipeToken → ∃ p : Pipeline,
        build tokens w = (.error (.parse .emptyStage pipeToken), (p.close after).2.2)) := by
  obtain ⟨first, others, stages, count, _⟩ := build_stages tokens
  obtain ⟨connected, done⟩ := connect_piped first others piped (all.trans count.symm)
  have args : connected.map (·.args) = tokens.splitOn pipeToken := by
    have same := (connect_footprint first others w).1
    rw [done, ← stages] at same
    rw [← partition_splitOn, same]
    simp [Function.comp_def]
  have empty : connected.any (·.args.isEmpty) = true ↔ [] ∈ tokens.splitOn pipeToken := by
    rw [← args]
    simp
  unfold build
  rw [stages]
  dsimp only
  rw [done]
  dsimp only
  constructor
  · intro full
    rw [if_neg (fun some => full (empty.mp some))]
    exact ⟨_, rfl⟩
  · intro some
    rw [if_pos (empty.mpr some)]
    exact ⟨_, rfl⟩

theorem build_refused (tokens : List Bytes) (piped : Piped w pipes middle) (early : pipes.length < tokens.count pipeToken)
    (refused : middle.pipe = (.error e, later)) : ∃ p : Pipeline,
      build tokens w = (.error (.resource (ascii "pipe") [] (.onCall (ascii "pipe2") (.errno e))), (p.close later).2.2) := by
  obtain ⟨first, others, stages, count, _⟩ := build_stages tokens
  obtain ⟨connected, stuck⟩ := connect_refused first others piped (count ▸ early) refused
  unfold build
  rw [stages]
  dsimp only
  rw [stuck]
  exact ⟨_, rfl⟩

theorem build_undone (failed : build tokens w = (.error fault, after)) (piped : Piped w pipes middle)
    (quiet : middle.Reaches [] later) {p : Pipeline} (closing : (p.close later).2.2 = after) : Undone w pipes after := by
  obtain ⟨numbers, reached, counts⟩ := piped_reaches piped
  obtain ⟨closes, closed, only, _⟩ := p.close_closes later
  rw [closing] at closed
  have whole := (reached.after_quiet quiet).trans closed
  obtain ⟨calls, account⟩ := build_owes tokens w
  rw [failed] at account
  have same : calls = closes ++ pipesFrom w.files.size pipes.length :=
    List.append_cancel_right (account.reached.trace.symm.trans whole.trace)
  subst same
  have unclosed : ∀ f, (pipesFrom w.files.size pipes.length).count (.closed f) = 0 :=
    fun f => List.count_eq_zero.mpr (pipesFrom_unclosed _ _ f)
  refine ⟨numbers ▸ List.nodup_range', ⟨closes, whole, only, fun f => ?_⟩, fun f member => ?_⟩
  · have balance := account.balance f
    rw [made_append, made_of_closes closes only, List.nil_append, counts f, List.count_append, unclosed] at balance
    exact balance.symm
  · refine ((account.settled f).1 ?_).2
    rw [made_append, made_of_closes closes only, List.nil_append]
    exact List.count_pos_iff.mp (by rw [counts f]; exact List.count_pos_iff.mpr member)

theorem build_built (built : build tokens w = (.ok p, after)) (piped : Piped w pipes after)
    (all : pipes.length = tokens.count pipeToken) : Built tokens pipes p after := by
  obtain ⟨args, full⟩ := (build_footprint tokens w).2.2 p (by rw [built])
  have length : p.stages.length = tokens.count pipeToken + 1 := by
    rw [← partition_length, ← args, List.length_map]
  obtain ⟨numbers, reached, counts⟩ := piped_reaches piped
  have slots : ∀ (j : Nat) stage, p.stages[j]? = some stage →
      stage.stdio = connectedSlots none w.files.size (tokens.count pipeToken) j := by
    obtain ⟨first, others, stages, connected, _⟩ := build_done built
    have inherit := unjoined_inherit tokens
    have count := congrArg List.length stages
    rw [unjoined, List.length_map, partition_length] at count
    rw [stages, List.forall_mem_cons] at inherit
    rw [Nat.succ.inj count]
    exact (connect_connected others w inherit.1 inherit.2 connected).2
  constructor
  case joined => rw [args, partition_splitOn, List.intercalate_splitOn]
  case count => exact length
  case full =>
    intro stage member none
    have wrong := List.any_eq_false.mp full stage.args (args ▸ List.mem_map_of_mem member)
    simp [none] at wrong
  case neighbours =>
    intro i stage next here there
    have inside := (List.getElem?_eq_some_iff.mp there).1
    have before : i < tokens.count pipeToken := by omega
    refine ⟨_, _, piped_getElem? piped (all ▸ before), ?_, ?_⟩
    · rw [slots i stage here]
      exact if_pos before
    · rw [slots (i + 1) next there]
      rfl
  case first =>
    intro stage head
    rw [slots 0 stage (List.head?_eq_getElem? ▸ head)]
    rfl
  case last =>
    intro stage last
    rw [List.getLast?_eq_getElem?, length] at last
    rw [slots _ stage last]
    exact if_neg (Nat.lt_irrefl _)
  case errors =>
    intro stage member
    obtain ⟨j, here⟩ := List.mem_iff_getElem?.mp member
    rw [slots j stage here]
    rfl
  case distinct => exact numbers ▸ List.nodup_range'
  case unclosed =>
    intro f member
    obtain ⟨calls, account⟩ := build_owes tokens w
    rw [built] at account
    have same : calls = pipesFrom w.files.size pipes.length :=
      List.append_cancel_right (account.reached.trace.symm.trans reached.trace)
    have made : f ∈ made calls := List.count_pos_iff.mp (by rw [same, counts f]; exact List.count_pos_iff.mpr member)
    rw [account.flags f made, same, decide_eq_false (pipesFrom_unclosed _ _ f)]

-- A pipe that is refused decides what comes of the line, whether or not it has a stage without words.
theorem build_exact (tokens : List Bytes) (w : World) :
    ((∃ pipes after, Piped w pipes after ∧ pipes.length = tokens.count pipeToken) ∨
      ∃ pipes middle e later, Piped w pipes middle ∧ pipes.length < tokens.count pipeToken ∧ middle.pipe = (.error e, later)) ∧
    (∀ pipes after, Piped w pipes after → pipes.length = tokens.count pipeToken → [] ∉ tokens.splitOn pipeToken →
      ∃ p, build tokens w = (.ok p, after)) ∧
    (∀ p after, build tokens w = (.ok p, after) →
      ∃ pipes, Piped w pipes after ∧ pipes.length = tokens.count pipeToken ∧ Built tokens pipes p after) ∧
    (∀ pipes middle, Piped w pipes middle → pipes.length = tokens.count pipeToken → [] ∈ tokens.splitOn pipeToken →
      ∃ after, build tokens w = (.error (.parse .emptyStage pipeToken), after) ∧ Undone w pipes after) ∧
    ∀ pipes middle e later, Piped w pipes middle → pipes.length < tokens.count pipeToken → middle.pipe = (.error e, later) →
      ∃ after, build tokens w = (.error (.resource (ascii "pipe") [] (.onCall (ascii "pipe2") (.errno e))), after) ∧ Undone w pipes after := by
  refine ⟨piped_or_refused _ w, ?_, ?_, ?_, ?_⟩
  · intro pipes after piped all full
    exact (build_piped tokens piped all).1 full
  · intro p after built
    rcases piped_or_refused (tokens.count pipeToken) w with ⟨pipes, last, piped, all⟩ | ⟨_, _, _, _, piped, early, refused⟩
    · have granted := build_piped tokens piped all
      by_cases full : [] ∈ tokens.splitOn pipeToken
      · obtain ⟨_, wrong⟩ := granted.2 full
        rw [built] at wrong
        cases wrong
      · obtain ⟨same, done⟩ := granted.1 full
        rw [built] at done
        cases done
        exact ⟨pipes, piped, all, build_built built piped all⟩
    · obtain ⟨_, wrong⟩ := build_refused tokens piped early refused
      rw [built] at wrong
      cases wrong
  · intro pipes middle piped all empty
    obtain ⟨p, failed⟩ := (build_piped tokens piped all).2 empty
    exact ⟨_, failed, build_undone failed piped (Reaches.refl middle) rfl⟩
  · intro pipes middle e later piped early refused
    obtain ⟨p, failed⟩ := build_refused tokens piped early refused
    exact ⟨_, failed, build_undone failed piped (pipe_refused refused) rfl⟩

-- A line with a stage too few is refused for that, unless its second pipe is refused first; either way both ends of the
-- first pipe are closed.
theorem build_exact_unmade :
    (∃ after, build [ascii "a", pipeToken, pipeToken, ascii "b"] (Session.console [none, some Errno.noSpace]) =
      (.error (.resource (ascii "pipe") [] (.onCall (ascii "pipe2") (.errno Errno.noSpace))), after) ∧ after.isClosed 3 = some true ∧
        after.isClosed 4 = some true) ∧
    ∃ after, build [ascii "a", pipeToken, pipeToken, ascii "b"] (Session.console []) =
      (.error (.parse .emptyStage pipeToken), after) ∧ after.isClosed 3 = some true ∧ after.isClosed 4 = some true := by
  constructor
  · obtain ⟨_, _, _, _, refusing⟩ := build_exact [ascii "a", pipeToken, pipeToken, ascii "b"]
      (Session.console [none, some Errno.noSpace])
    obtain ⟨after, failed, undone⟩ := refusing [(3, 4)] _ Errno.noSpace _ (.next rfl .none) (by decide) rfl
    exact ⟨after, failed, undone.closed 3 (by decide), undone.closed 4 (by decide)⟩
  · obtain ⟨_, _, _, empty, _⟩ := build_exact [ascii "a", pipeToken, pipeToken, ascii "b"] (Session.console [])
    obtain ⟨after, failed, undone⟩ := empty [(3, 4), (5, 6)] _ (.next rfl (.next rfl .none)) (by decide) (by decide)
    exact ⟨after, failed, undone.closed 3 (by decide), undone.closed 4 (by decide)⟩

end Pipeline
end LineShell
