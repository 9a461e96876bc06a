import LineShell.Proofs.Recording

-- As soon as a failure is held nothing goes on but the pipeline it was raised in.
namespace LineShell

-- A command that runs no script raises nothing.
theorem Builtin.run_fatal {runScript : Bytes → Streams → Session → World → (Int × Option Bytes) × Session × World}
    (plain : scriptOf? args = none) (streams : Streams) (s : Session) (w : World) :
    (run runScript args streams s w).2.1.fatal = s.fatal := by
  rcases run_cases runScript plain streams s w with done | ⟨parsed, _, same⟩
  · exact done.apart.2
  · obtain ⟨status, after, exits, _, _⟩ := perform_exit runScript parsed streams s w
    rw [same, exits]

namespace Session
variable {scripts : ScriptRunner}

-- The stages of a blank line leave what they find: there are none.
theorem Turn.blank_left {t : Turn} (blank : trimmed t.line = []) :
    (runLine (runScriptAt t.session.levels) (trimmed t.line) t.session t.world).2.1 = t.session := by
  have linked : Linked t.session (t.visits.map _) _ := lineVisits_linked (runScriptAt t.session.levels) t.line t.session t.world
  rw [Turn.blank_visits blank] at linked
  exact linked.symm

-- What is said of lines in the order in which they end and of what the session holds before and afterwards, if single
-- stages, files and scripts do not concern that, but the end of a line may.
structure Gathers (view : Session → γ) (T : γ → List Turn → γ → Prop) : Prop where
  nil : ∀ held, T held [] held
  append : ∀ {start middle last : γ} {turns later : List Turn}, T start turns middle → T middle later last → T start (turns ++ later) last
  setting : ∀ (s : Session) std engineStd messages depth,
    view { s with std := std, engineStd := engineStd, messages := messages, depth := depth } = view s
  stage : ∀ {t : Turn} {visit : Engine.Visit Session}, visit.sourcing? t.session.engine = none →
    view (visit.after t.session.engine (runner (runScriptAt t.session.levels))) = view visit.state
  line : ∀ t : Turn, T (view t.session) (t.calls.flatMap fun call => call.lines.flatMap Turn.completed)
      (view (runLine (runScriptAt t.session.levels) (trimmed t.line) t.session t.world).2.1) →
    T (view t.session) (t.calls.flatMap (fun call => call.lines.flatMap Turn.completed) ++ [t]) (view t.result.2.1)

section
variable {view : Session → γ} {T : γ → List Turn → γ → Prop} {ends : β → Session × Session} {f : β → List Turn}

theorem Gathers.linked (gathers : Gathers view T) {parts : List β} (linked : Linked first (parts.map ends) last)
    (each : ∀ part ∈ parts, T (view (ends part).1) (f part) (view (ends part).2)) : T (view first) (parts.flatMap f) (view last) := by
  induction parts generalizing first with
  | nil =>
    cases linked
    exact gathers.nil _
  | cons part rest ih =>
    rw [List.forall_mem_cons] at each
    obtain ⟨rfl, following⟩ := linked
    exact gathers.append each.1 (ih following each.2)

theorem Gathers.script (gathers : Gathers view T) (s : Session) (path : Bytes) (w : World)
    (each : ∀ inner ∈ scriptTurns s.levels path s w, T (view inner.session) (Turn.completed inner) (view inner.result.2.1)) :
    T (view s) ((scriptTurns s.levels path s w).flatMap Turn.completed) (view (runScript path s w).2.1) := by
  obtain ⟨inside, last, outside, linked, ended⟩ := scriptTurns_linked s path w
  have gathered := gathers.linked linked each
  rw [ended]
  have before : view { s with depth := inside } = view s := gathers.setting s s.std s.engineStd s.messages inside
  have after : view { last with depth := outside } = view last :=
    gathers.setting last last.std last.engineStd last.messages outside
  rwa [before, ← after] at gathered

-- By induction on the scripts inside the line.
theorem Gathers.turn (gathers : Gathers view T) (t : Turn) : T (view t.session) t.completed (view t.result.2.1) := by
  induction t using Turn.nested with
  | step t ih =>
    rw [t.completed_eq]
    refine gathers.line t ?_
    have linked : Linked t.session (t.visits.map _) _ := lineVisits_linked (runScriptAt t.session.levels) t.line t.session t.world
    rw [t.calls_flatMap]
    refine gathers.linked linked fun visit entered => ?_
    cases found : visit.sourcing? t.session.engine with
    | none =>
      have same : view visit.state = _ := (gathers.stage found).symm
      show T (view visit.state) [] (view (visit.after _ _))
      rw [← same]
      exact gathers.nil _
    | some call =>
      obtain ⟨runs, whole⟩ := Turn.sourced entered found
      have gathered := gathers.script call.given call.path call.world (ih call runs)
      rw [whole, Option.toList_some, List.flatMap_singleton]
      have before : view call.given = view call.session := gathers.setting call.session _ _ _ call.session.depth
      have after : view (call.result.2.1.restoreStd call.session) = view call.result.2.1 :=
        gathers.setting call.result.2.1 _ _ _ call.result.2.1.depth
      rw [before] at gathered
      rw [after]
      exact gathered

end

-- The failure a line raises: that of a program that does not start.
def Turn.raises (t : Turn) : Option Fault := t.fault?.filter (·.isSpawn)

-- The failure that is held as lines end, each replacing it by the one it raises.
def Traced : Option Fault → List Turn → Option Fault → Prop
  | held, [], last => held = last
  | held, t :: rest, last => t.result.2.1.fatal = t.raises.or held ∧ Traced t.result.2.1.fatal rest last

variable {start middle last : Option Fault} {turns later : List Turn}

theorem Traced.append (front : Traced start turns middle) (back : Traced middle later last) : Traced start (turns ++ later) last := by
  induction turns generalizing start with
  | nil =>
    cases front
    exact back
  | cons t rest ih => exact ⟨front.1, ih front.2⟩

-- What is held when a line ends was held in the beginning or raised by a line that has ended.
theorem Traced.raised {front : List Turn} (traced : Traced start (front ++ t :: back) last) (none : t.raises = none)
    (holds : t.result.2.1.fatal = some fault) : start = some fault ∨ ∃ u ∈ front, u.raises = some fault := by
  induction front generalizing start with
  | nil =>
    have kept := traced.1
    rw [none, holds] at kept
    exact .inl kept.symm
  | cons u front ih =>
    obtain ⟨after, following⟩ := traced
    rcases ih following with here | ⟨later, among, raised⟩
    · rw [after] at here
      cases raises : u.raises with
      | none =>
        rw [raises] at here
        exact .inl here
      | some raised =>
        rw [raises] at here
        exact .inr ⟨u, List.mem_cons_self, raises.trans here⟩
    · exact .inr ⟨later, List.mem_cons_of_mem _ among, raised⟩

-- What a line itself does to the failure its stages have left.
theorem Turn.ends_fatal (t : Turn) : t.result.2.1.fatal =
    t.raises.or (runLine (runScriptAt t.session.levels) (trimmed t.line) t.session t.world).2.1.fatal := by
  by_cases blank : trimmed t.line = []
  · rw [Turn.blank_result blank, Turn.blank_left blank, Turn.raises, Turn.fault?, if_pos blank]
    rfl
  · have ended := t.ended blank
    rcases whole : runLine (runScriptAt t.session.levels) (trimmed t.line) t.session t.world with ⟨_, next, after⟩
    rw [whole] at ended
    unfold raises
    cases ended with
    | held fine stored result => rw [fine, result]; rfl
    | passed fine free result => rw [fine, result]; rfl
    | @failed fault fails unchanged result =>
      rw [fails, result]
      cases spawned : fault.isSpawn with
      | true => simp [Option.filter, spawned]
      | false => simp [Option.filter, spawned]

theorem Turn.stage_fatal {t : Turn} {visit : Engine.Visit Session} (plain : visit.sourcing? t.session.engine = none) :
    (visit.after t.session.engine (runner (runScriptAt t.session.levels))).fatal = visit.state.fatal := by
  unfold Engine.Visit.after
  rcases Engine.enter_cases plain (runScriptAt t.session.levels) with ⟨_, ran⟩ | ⟨_, _, ran⟩ | ⟨_, _, none, ran⟩
  · rw [ran]
  · rw [ran]
    unfold Session.assign
    split
    · rfl
    · rfl
  · rw [ran]
    exact Builtin.run_fatal none _ _ _

theorem gathers_traced : Gathers fatal Traced where
  nil _ := rfl
  append := Traced.append
  setting _ _ _ _ _ := rfl
  stage := Turn.stage_fatal
  line t inside := inside.append ⟨t.ends_fatal, rfl⟩

-- The lines of a run are interpreted one after the other.
theorem Act.turns_linked (act : Act) :
    ∃ first last, Linked first (act.turns.map Turn.ends) last ∧ first.fatal = act.session.fatal := by
  obtain ⟨step, s, w⟩ := act
  cases step with
  | line text => exact ⟨s, _, ⟨rfl, rfl⟩, rfl⟩
  | script path =>
    obtain ⟨inside, last, _, linked, _⟩ := scriptTurns_linked s path w
    exact ⟨_, last, linked, rfl⟩
  | text text =>
    exact ⟨s, _, textTurns_linked text s w, rfl⟩
  | command args streams =>
    unfold turns
    dsimp only
    split
    · rename_i path _
      obtain ⟨inside, last, _, linked, _⟩ := scriptTurns_linked (s.redirectStd streams.files) path w
      exact ⟨_, last, linked, rfl⟩
    · exact ⟨s, s, rfl, rfl⟩
  | assignment text streams => exact ⟨s, s, rfl, rfl⟩

theorem Act.traced (act : Act) : ∃ last, Traced act.session.fatal act.completed last := by
  obtain ⟨first, last, linked, begins⟩ := act.turns_linked
  rw [← begins]
  exact ⟨_, gathers_traced.linked linked fun turn _ => gathers_traced.turn turn⟩

-- A line after which others are interpreted has not failed.

def GoesOn (scripts : ScriptRunner) (t : Turn) : Prop := (interpretWith scripts t.line t.session t.world).1.2 = none

theorem goesOn_of (interpreted : interpretWith scripts t.line t.session t.world = ((status, none), next, after)) : GoesOn scripts t := by
  unfold GoesOn
  rw [interpreted]

theorem LinesRun.goOn (run : LinesRun scripts lines s w turns result) :
    (turns.Pairwise fun earlier _ => GoesOn scripts earlier) ∧ (result.1.2 = none → ∀ t ∈ turns, GoesOn scripts t) := by
  induction run with
  | finished => exact ⟨.nil, by simp⟩
  | tooLong => exact ⟨.nil, by simp⟩
  | fatal => exact ⟨List.pairwise_singleton _ _, by rintro ⟨⟩⟩
  | exited _ first _ => exact ⟨List.pairwise_singleton _ _, fun _ => by simpa using goesOn_of first⟩
  | goes _ first _ _ ih =>
    exact ⟨.cons (fun _ _ => goesOn_of first) ih.1, fun fine => List.forall_mem_cons.mpr ⟨goesOn_of first, ih.2 fine⟩⟩

theorem BlocksRun.goOn (run : BlocksRun scripts path blocks r s w turns result) :
    turns.Pairwise fun earlier _ => GoesOn scripts earlier := by
  induction run with
  | spent => exact .nil
  | unreadable => exact .nil
  | tooLong => exact .nil
  | last _ run => exact run.goOn.1
  | failed _ run => exact run.goOn.1
  | exited _ run _ => exact run.goOn.1
  | goes _ run _ _ ih => exact List.pairwise_append.mpr ⟨run.goOn.1, ih, fun earlier here _ _ => run.goOn.2 rfl earlier here⟩

theorem Turn.raises_none {t : Turn} (goes : GoesOn scripts t) (levels : runScriptAt t.session.levels = scripts) : t.raises = none := by
  unfold raises
  cases fails : t.fault? with
  | none => rfl
  | some fault =>
    obtain ⟨_, _, whole⟩ := t.failed fails
    have none : t.result.1.2 = none := by
      rw [← levels] at goes
      exact goes
    rw [whole] at none
    cases spawned : fault.isSpawn with
    | true => simp [spawned] at none
    | false => simp [Option.filter, spawned]

theorem ScriptRun.raise (run : ScriptRun more path s w turns result) (levels : s.levels = more) :
    turns.Pairwise fun earlier _ => earlier.raises = none := by
  cases run with
  | tooDeep => exact .nil
  | unopened => exact .nil
  | opened _ opens run =>
    refine run.goOn.imp_of_mem fun here _ goes => Turn.raises_none goes ?_
    rw [opened_levels levels run here]

theorem scriptTurns_raise (s : Session) (path : Bytes) (w : World) :
    (scriptTurns s.levels path s w).Pairwise fun earlier _ => earlier.raises = none :=
  (scriptRun s.levels path s w).raise rfl

theorem Act.turns_raise (act : Act) : act.turns.Pairwise fun earlier _ => earlier.raises = none := by
  obtain ⟨step, s, w⟩ := act
  cases step with
  | line text => exact List.pairwise_singleton _ _
  | script path => exact scriptTurns_raise s path w
  | text text =>
    refine (linesRun (runScriptAt s.levels) (scriptLines text) s w).goOn.1.imp_of_mem fun here _ goes =>
      Turn.raises_none goes ?_
    rw [text_levels here]
  | command args streams =>
    unfold turns
    dsimp only
    split
    · exact scriptTurns_raise (s.redirectStd streams.files) _ w
    · exact .nil
  | assignment text streams => exact .nil

-- The lines of a run that are inside scripts which its lines run.
def Act.Sourced (act : Act) (u : Turn) : Prop :=
  ∃ turn ∈ act.turns, ∃ call ∈ turn.calls, ∃ inner ∈ call.lines, u ∈ inner.completed

theorem Act.sourced_within {act : Act} {turn u : Turn} (interprets : turn ∈ act.turns)
    (inside : u ∈ turn.calls.flatMap fun call => call.lines.flatMap Turn.completed) : act.Sourced u := by
  obtain ⟨call, runs, among⟩ := List.mem_flatMap.mp inside
  obtain ⟨inner, follows, completes⟩ := List.mem_flatMap.mp among
  exact ⟨turn, interprets, call, runs, inner, follows, completes⟩

-- If a line has raised a failure and another one ends after it, it is a line of a script.
theorem Act.completed_raise (act : Act) : act.completed.Pairwise fun u _ => u.raises.isSome = true → act.Sourced u := by
  refine List.pairwise_flatMap.mpr ⟨fun turn interprets => ?_, ?_⟩
  · rw [turn.completed_eq]
    refine List.pairwise_append.mpr ⟨?_, List.pairwise_singleton _ _, fun u inside _ _ _ => sourced_within interprets inside⟩
    exact List.pairwise_of_forall_mem_list fun u inside _ _ _ => sourced_within interprets inside
  · refine act.turns_raise.imp_of_mem fun {earlier later} here _ quiet u member v _ raises => ?_
    rw [earlier.completed_eq] at member
    rcases List.mem_append.mp member with inside | itself
    · exact sourced_within here inside
    · rw [List.mem_singleton.mp itself, quiet] at raises
      cases raises

end Session
end LineShell
