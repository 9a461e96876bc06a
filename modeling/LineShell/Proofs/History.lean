import LineShell.Proofs.Nesting

namespace LineShell

-- Links of a chain without a gap, each by what it finds and what it leaves.
def Linked : α → List (α × α) → α → Prop
  | first, [], last => first = last
  | first, (before, after) :: rest, last => first = before ∧ Linked after rest last

theorem Linked.cons {first middle last : α} {link : α × α} {links : List (α × α)} (left : link = (first, middle))
    (rest : Linked middle links last) : Linked first (link :: links) last := by
  rw [left]
  exact ⟨rfl, rest⟩

theorem Linked.append {first middle last : α} {links later : List (α × α)} (front : Linked first links middle)
    (back : Linked middle later last) : Linked first (links ++ later) last := by
  induction links generalizing first with
  | nil =>
    cases front
    exact back
  | cons link rest ih => exact ⟨front.1, ih front.2⟩

theorem Linked.split {first last : α} {links later : List (α × α)} (linked : Linked first (links ++ later) last) :
    ∃ middle, Linked first links middle ∧ Linked middle later last := by
  induction links generalizing first with
  | nil => exact ⟨first, rfl, linked⟩
  | cons link rest ih =>
    obtain ⟨middle, front, back⟩ := ih linked.2
    exact ⟨middle, ⟨linked.1, front⟩, back⟩

-- A relation that runs of any length stay within.
structure Lasting (R : α → α → Prop) : Prop where
  refl : ∀ a, R a a
  trans : ∀ {first middle last}, R first middle → R middle last → R first last

-- The relation holds from the beginning to every link, from each of them to the later ones, and to the end.
structure Lasts (R : α → α → Prop) (first : α) (links : List (α × α)) (last : α) : Prop where
  whole : R first last
  reached : ∀ link ∈ links, R first link.1
  kept : ∀ link ∈ links, R link.1 link.2
  between : links.Pairwise fun earlier later => R earlier.2 later.1
  left : ∀ link ∈ links, R link.2 last

theorem Linked.lasts {R : α → α → Prop} {links : List (α × α)} (lasting : Lasting R) (linked : Linked first links last)
    (each : ∀ link ∈ links, R link.1 link.2) : Lasts R first links last := by
  induction links generalizing first with
  | nil =>
    cases linked
    exact ⟨lasting.refl _, by simp, by simp, .nil, by simp⟩
  | cons link rest ih =>
    obtain ⟨before, after⟩ := link
    obtain ⟨rfl, later⟩ := linked
    have here : R first after := each _ List.mem_cons_self
    have following := ih later fun link member => each link (List.mem_cons_of_mem _ member)
    refine ⟨lasting.trans here following.whole, ?_, each, .cons following.reached following.between, ?_⟩
    · intro link member
      rcases List.mem_cons.mp member with rfl | late
      · exact lasting.refl _
      · exact lasting.trans here (following.reached link late)
    · intro link member
      rcases List.mem_cons.mp member with rfl | late
      · exact following.whole
      · exact following.left link late

namespace Engine
variable {e : Engine} {runner : Runner σ}

-- What a stage leaves, and the instant it makes.
def Visit.after (e : Engine) (runner : Runner σ) (visit : Visit σ) : σ :=
  (e.enter runner visit.stage visit.state visit.world).2.1

def Visit.ends (e : Engine) (runner : Runner σ) (visit : Visit σ) : σ × σ := (visit.state, visit.after e runner)

theorem visits_linked (e : Engine) (runner : Runner σ) (i : Nat) (entries : List (Stage × Progress)) (s : σ) (w : World) :
    Linked s ((e.visits runner i entries s w).map (Visit.ends e runner)) (e.enterAll runner i entries s w).2.1 := by
  induction entries generalizing i s w with
  | nil => rfl
  | cons entry others ih =>
    obtain ⟨stage, progress⟩ := entry
    by_cases inside : stage.Inside
    · rcases ran : e.enter runner stage s (w.note (.entered i)) with ⟨status, next, middle⟩
      rw [visits_running others inside ran, enterAll_running others inside ran rfl]
      have later := ih (i + 1) next (stage.stdio.release middle).2.2
      have leaves : Visit.after e runner ⟨stage, s, w.note (.entered i)⟩ = next := congrArg (·.2.1) ran
      refine ⟨rfl, ?_⟩
      rwa [leaves]
    · rw [visits_passing others inside, enterAll_passing others inside rfl]
      exact ih _ _ _

end Engine

namespace Session
variable {scripts : ScriptRunner} {R : Session → Session → Prop} {C : List Bytes → Session → Session → Prop}

-- The instants of a line are its stages, those of a script its lines.

theorem lineVisits_linked (scripts : ScriptRunner) (line : Bytes) (s : Session) (w : World) :
    Linked s ((lineVisits scripts line s w).map (Engine.Visit.ends s.engine (runner scripts)))
      (runLine scripts (trimmed line) s w).2.1 := by
  cases line_course (trimmed line) s w with
  | refused compiled =>
    rw [lineVisits_refused compiled, runLine_refused compiled]
    rfl
  | stopped compiled launched =>
    rw [lineVisits_stopped compiled launched, runLine_stopped compiled launched]
    rfl
  | launched compiled launched =>
    rw [lineVisits_launched compiled launched, runLine_launched compiled launched rfl]
    exact Engine.visits_linked s.engine (runner scripts) 0 _ s _

def Turn.ends (t : Turn) : Session × Session := (t.session, t.result.2.1)

def Turn.endsBy (scripts : ScriptRunner) (t : Turn) : Session × Session :=
  (t.session, (interpretWith scripts t.line t.session t.world).2.1)

theorem Turn.endsBy_levels {t : Turn} (levels : t.session.levels = deeper) :
    t.endsBy (runScriptAt deeper) = t.ends := by
  unfold endsBy ends result interpret
  rw [levels]

theorem Turn.endsBy_left {t : Turn} (interpreted : interpretWith scripts t.line t.session t.world = (answer, next, after)) :
    t.endsBy scripts = (t.session, next) := by
  unfold endsBy
  rw [interpreted]

theorem LinesRun.linked (run : LinesRun scripts lines s w turns result) :
    Linked s (turns.map (Turn.endsBy scripts)) result.2.1 := by
  induction run with
  | finished => rfl
  | tooLong => rfl
  | fatal _ first => exact .cons (Turn.endsBy_left first) rfl
  | exited _ first _ => exact .cons (Turn.endsBy_left first) rfl
  | goes _ first _ _ ih => exact .cons (Turn.endsBy_left first) ih

theorem BlocksRun.linked (run : BlocksRun scripts path blocks r s w turns result) :
    Linked s (turns.map (Turn.endsBy scripts)) result.2.1 := by
  induction run with
  | spent => rfl
  | unreadable => rfl
  | tooLong => rfl
  | last _ run => exact run.linked
  | failed _ run => exact run.linked
  | exited _ run _ => exact run.linked
  | goes _ run _ _ ih =>
    rw [List.map_append]
    exact run.linked.append ih

-- One instant of a run: the session it finds and the one it leaves, and the words of the command, if it runs one
-- of the shell's and that runs no script.
structure Instant where
  finds : Session
  leaves : Session
  command : Option (List Bytes) := none

def Instant.ends (instant : Instant) : Session × Session := (instant.finds, instant.leaves)

-- What happens along the parts of something, with what happens in front of each of them and after the last.
def along (ends : β → Session × Session) (history : β → List Instant) (first last : Session) : List β → List Instant
  | [] => [⟨first, last, none⟩]
  | part :: rest =>
    ⟨first, (ends part).1, none⟩ :: (history part ++ along ends history (ends part).2 last rest)

-- What every single change keeps, and what the commands that run no script do, by their words.
structure Carries (R : Session → Session → Prop) (C : List Bytes → Session → Session → Prop) : Prop extends Lasting R where
  assign : ∀ text streams s w, R s (Session.assign text streams s w).2.1
  command : ∀ args, Builtin.scriptOf? args = none → ∀ runScript streams s w, C args s (Builtin.run runScript args streams s w).2.1
  redirect : ∀ (s : Session) std engineStd messages, R s { s with std := std, engineStd := engineStd, messages := messages }
  nest : ∀ (s : Session) depth, R s { s with depth := depth }
  finish : ∀ (s : Session) status, R s { s with lastStatus := status }
  stop : ∀ (s : Session) fault, R s { s with exited := true, fatal := some fault, lastStatus := 1 }

def Instant.Kept (R : Session → Session → Prop) (C : List Bytes → Session → Session → Prop) (instant : Instant) : Prop :=
  match instant.command with
  | none => R instant.finds instant.leaves
  | some args => C args instant.finds instant.leaves

section
variable {ends : β → Session × Session} {history : β → List Instant} {parts : List β} {first last : Session}

theorem along_linked (each : ∀ part ∈ parts, Linked (ends part).1 ((history part).map Instant.ends) (ends part).2) :
    Linked first ((along ends history first last parts).map Instant.ends) last := by
  induction parts generalizing first with
  | nil => exact ⟨rfl, rfl⟩
  | cons part rest ih =>
    refine ⟨rfl, ?_⟩
    rw [List.map_append]
    exact (each part List.mem_cons_self).append (ih fun other member => each other (List.mem_cons_of_mem _ member))

-- Between the parts nothing happens.
theorem along_kept (carries : Carries R C) (linked : Linked opened (parts.map ends) closed) (enters : R first opened)
    (returns : R closed last) (each : ∀ part ∈ parts, ∀ instant ∈ history part, instant.Kept R C) :
    ∀ instant ∈ along ends history first last parts, instant.Kept R C := by
  induction parts generalizing first opened with
  | nil =>
    cases linked
    intro instant member
    cases List.mem_singleton.mp member
    exact carries.trans enters returns
  | cons part rest ih =>
    obtain ⟨rfl, later⟩ := linked
    intro instant member
    rcases List.mem_cons.mp member with rfl | member
    · exact enters
    · rcases List.mem_append.mp member with here | after
      · exact each part List.mem_cons_self instant here
      · exact ih later (carries.refl _) (fun other among => each other (List.mem_cons_of_mem _ among)) instant after

end

-- A stage that runs no script.
def stageInstant (t : Turn) (visit : Engine.Visit Session) : Instant :=
  ⟨visit.state, visit.after t.session.engine (runner (runScriptAt t.session.levels)),
    if visit.stage.kind = .assignment then none else some (Engine.stripBackground visit.stage.args).1⟩

namespace Carries

theorem stage (carries : Carries R C) {visit : Engine.Visit Session} (t : Turn)
    (plain : visit.sourcing? t.session.engine = none) : (stageInstant t visit).Kept R C := by
  unfold Engine.Visit.sourcing? at plain
  unfold stageInstant Engine.Visit.after Instant.Kept
  cases t.session.engine.handing (runner (runScriptAt t.session.levels)) visit.stage visit.state visit.world with
  | empty none answer =>
    rw [answer]
    by_cases kind : visit.stage.kind = .assignment
    · rw [if_pos kind]
      exact carries.refl _
    · rw [if_neg kind] at plain ⊢
      have runs := carries.command _ (Option.map_eq_none_iff.mp plain)
      rw [none] at runs ⊢
      exact runs (sourceScript (runScriptAt t.session.levels)) (.ofFiles (visit.stage.stdio.resolve t.session.engine.std)) _
        visit.world
  | assignment name args kind given answer =>
    rw [answer, if_pos kind]
    exact carries.assign _ _ _ _
  | command name args kind given answer =>
    rw [if_neg kind] at plain
    have runs := carries.command _ (Option.map_eq_none_iff.mp plain)
    rw [answer, if_neg kind]
    rw [given] at runs ⊢
    exact runs _ _ _ _

theorem line (carries : Carries R C) (scripts : ScriptRunner) (line : Bytes) (s : Session) (w : World) :
    R (runLine scripts (trimmed line) s w).2.1 (interpretWith scripts line s w).2.1 := by
  cases closing scripts line s w with
  | blank absent answer =>
    rw [absent, answer]
    exact carries.refl s
  | held present result next after fault ran passed stored answer =>
    rw [ran, answer]
    exact carries.finish _ _
  | passed present result next after ran fine free answer =>
    rw [ran, answer]
    exact carries.finish _ _
  | failed present result next after fault ran fails answer =>
    rw [ran, answer]
    cases spawned : fault.isSpawn with
    | true =>
      rw [Fault.status_of_spawn spawned]
      exact carries.stop _ fault
    | false => exact carries.finish _ _

end Carries

-- Inside a script there is one level less.
theorem opened_levels {s : Session} {inner : Turn} (levels : s.levels = deeper + 1)
    (run : BlocksRun (runScriptAt deeper) path blocks r { s with depth := s.depth + 1 } w turns result)
    (interprets : inner ∈ turns) : inner.session.levels = deeper := by
  have depth := ((keeps_follows (runScriptAt_follows deeper)).of_blocks run inner interprets).depth
  unfold Session.levels at levels ⊢
  rw [depth]
  dsimp only
  omega

theorem text_levels {s : Session} {inner : Turn} (interprets : inner ∈ linesTurns (runScriptAt s.levels) lines s w) :
    inner.session.levels = s.levels :=
  congrArg (maxDepth - ·) (((keeps_follows (runScriptAt_follows s.levels)).of_lines (linesRun _ _ _ _)).1 inner interprets).depth

theorem textTurns_linked (text : Bytes) (s : Session) (w : World) :
    Linked s ((linesTurns (runScriptAt s.levels) (scriptLines text) s w).map Turn.ends) (runText text s w).2.1 := by
  have linked := (linesRun (runScriptAt s.levels) (scriptLines text) s w).linked
  rwa [List.map_congr_left fun inner interprets => Turn.endsBy_levels (text_levels interprets)] at linked

-- The lines of a script are interpreted one after the other, one level deeper.
theorem ScriptRun.linked (run : ScriptRun more path s w turns result) (levels : s.levels = more) :
    ∃ inside last outside, Linked { s with depth := inside } (turns.map Turn.ends) last ∧
      result.2.1 = { last with depth := outside } := by
  cases run with
  | tooDeep => exact ⟨s.depth, s, s.depth, rfl, rfl⟩
  | unopened => exact ⟨s.depth, s, s.depth, rfl, rfl⟩
  | opened _ opens run =>
    have linked := run.linked
    rw [List.map_congr_left fun inner interprets => Turn.endsBy_levels (opened_levels levels run interprets)] at linked
    exact ⟨s.depth + 1, _, _, linked, rfl⟩

theorem scriptTurns_linked (s : Session) (path : Bytes) (w : World) :
    ∃ inside last outside, Linked { s with depth := inside } ((scriptTurns s.levels path s w).map Turn.ends) last ∧
      (runScript path s w).2.1 = { last with depth := outside } :=
  (scriptRun s.levels path s w).linked rfl

-- What a stage does: it is one instant, or it runs the lines of a script.
def stageHistory (lines : Turn → List Instant) (t : Turn) (visit : Engine.Visit Session) : List Instant :=
  match visit.sourcing? t.session.engine with
  | none => [stageInstant t visit]
  | some call => along Turn.ends lines call.session (call.result.2.1.restoreStd call.session) call.lines

-- What a line does: its stages, and what is left to do when they are over.
def lineHistory (lines : Turn → List Instant) (t : Turn) : List Instant :=
  along (Engine.Visit.ends t.session.engine (runner (runScriptAt t.session.levels))) (stageHistory lines t) t.session
    t.result.2.1 t.visits

-- By how deep scripts may still be run.
def historyAt : Nat → Turn → List Instant
  | 0 => lineHistory fun _ => []
  | levels + 1 => lineHistory (historyAt levels)

def Turn.history (t : Turn) : List Instant := historyAt t.session.levels t

theorem Turn.history_nested (t : Turn) :
    ∃ lines, t.history = lineHistory lines t ∧ ∀ call ∈ t.calls, ∀ inner ∈ call.lines, lines inner = inner.history := by
  unfold history
  rcases levels : t.session.levels with _ | deeper
  · refine ⟨fun _ => [], rfl, fun call runs inner interprets => ?_⟩
    have shallower := (Sourcing.entering interprets).levels
    rw [(t.calling runs).levels, levels] at shallower
    cases shallower
  · refine ⟨historyAt deeper, rfl, fun call runs inner interprets => ?_⟩
    have shallower := (Sourcing.entering interprets).levels
    rw [(t.calling runs).levels, levels] at shallower
    rw [Nat.succ.inj shallower]

-- Scripts inside scripts: by induction on how deep they may still be run.
theorem Turn.nested {motive : Turn → Prop} (step : ∀ t, (∀ call ∈ t.calls, ∀ inner ∈ call.lines, motive inner) → motive t)
    (t : Turn) : motive t := by
  induction levels : t.session.levels generalizing t with
  | zero =>
    refine step t fun call runs inner interprets => ?_
    have shallower := (Sourcing.entering interprets).levels
    rw [(t.calling runs).levels, levels] at shallower
    cases shallower
  | succ deeper ih =>
    refine step t fun call runs inner interprets => ih inner ?_
    have shallower := (Sourcing.entering interprets).levels
    rw [(t.calling runs).levels, levels] at shallower
    exact (Nat.succ.inj shallower).symm

-- A stage that runs a script finds the session the script is given, but for the files, and leaves what the script
-- leaves.
theorem Turn.sourced {turn : Turn} {visit : Engine.Visit Session} (entered : visit ∈ turn.visits)
    (found : visit.sourcing? turn.session.engine = some call) :
    call ∈ turn.calls ∧ visit.ends turn.session.engine (runner (runScriptAt turn.session.levels)) =
      (call.session, call.result.2.1.restoreStd call.session) := by
  have runs : call ∈ turn.calls := List.mem_filterMap.mpr ⟨visit, entered, found⟩
  have leaves := Engine.enter_sourcing found (runScriptAt turn.session.levels)
  rw [← (turn.calling runs).result] at leaves
  obtain ⟨_, _, same⟩ := Engine.sourcing_some found
  refine ⟨runs, ?_⟩
  unfold Engine.Visit.ends Engine.Visit.after
  rw [leaves, same]
  rfl

-- Nothing is left out of the history of a line.
theorem Turn.history_linked (t : Turn) : Linked t.session (t.history.map Instant.ends) t.result.2.1 := by
  induction t using Turn.nested with
  | step t ih =>
    obtain ⟨lines, whole, nested⟩ := t.history_nested
    rw [whole]
    refine along_linked fun visit entered => ?_
    unfold stageHistory
    cases found : visit.sourcing? t.session.engine with
    | none => exact ⟨rfl, rfl⟩
    | some call =>
      obtain ⟨runs, ends⟩ := Turn.sourced entered found
      rw [ends]
      refine along_linked fun inner interprets => ?_
      rw [nested call runs inner interprets]
      exact ih call runs inner interprets

theorem Carries.script (carries : Carries R C) (s : Session) (path : Bytes) (w : World) (enters : R before s)
    (returns : ∀ depth, R { (runScript path s w).2.1 with depth := depth } after)
    (each : ∀ inner ∈ scriptTurns s.levels path s w, ∀ instant ∈ history inner, instant.Kept R C) :
    ∀ instant ∈ along Turn.ends history before after (scriptTurns s.levels path s w), instant.Kept R C := by
  obtain ⟨inside, last, outside, linked, ended⟩ := scriptTurns_linked s path w
  refine along_kept carries linked (carries.trans enters (carries.nest s inside)) ?_ each
  have left := returns last.depth
  rw [ended] at left
  exact left

-- What every instant of a line keeps.
theorem Carries.turn (carries : Carries R C) (t : Turn) : ∀ instant ∈ t.history, instant.Kept R C := by
  induction t using Turn.nested with
  | step t ih =>
    obtain ⟨lines, whole, nested⟩ := t.history_nested
    rw [whole]
    refine along_kept carries (lineVisits_linked (runScriptAt t.session.levels) t.line t.session t.world)
      (carries.refl _) (carries.line _ t.line t.session t.world) fun visit entered => ?_
    unfold stageHistory
    cases found : visit.sourcing? t.session.engine with
    | none =>
      intro instant member
      cases List.mem_singleton.mp member
      exact carries.stage t found
    | some call =>
      obtain ⟨runs, _⟩ := Turn.sourced entered found
      refine carries.script call.given call.path call.world (carries.redirect _ _ _ _) ?_ fun inner interprets => ?_
      · exact fun depth => carries.trans (carries.nest { call.result.2.1 with depth := depth } call.result.2.1.depth)
          (carries.redirect call.result.2.1 _ _ _)
      · rw [nested call runs inner interprets]
        exact ih call runs inner interprets

-- What the user can have a session do: interpret a line, run a script or the lines of a text, run one of the
-- shell's commands, make an assignment.
inductive Step where
  | line (text : Bytes)
  | script (path : Bytes)
  | text (text : Bytes)
  | command (args : List Bytes) (streams : Streams)
  | assignment (text : Bytes) (streams : Streams)

-- A step, with the session and the world it finds.
structure Act where
  step : Step
  session : Session
  world : World

namespace Act

def after (act : Act) : Session :=
  match act.step with
  | .line text => (interpret text act.session act.world).2.1
  | .script path => (runScript path act.session act.world).2.1
  | .text text => (runText text act.session act.world).2.1
  | .command args streams => (runBuiltin args streams act.session act.world).2.1
  | .assignment text streams => (Session.assign text streams act.session act.world).2.1

def ends (act : Act) : Session × Session := (act.session, act.after)

-- The lines that are interpreted for it, those inside other lines apart.
def turns (act : Act) : List Turn :=
  match act.step with
  | .line text => [⟨text, act.session, act.world⟩]
  | .script path => scriptTurns act.session.levels path act.session act.world
  | .text text => linesTurns (runScriptAt act.session.levels) (scriptLines text) act.session act.world
  | .command args streams =>
    match Builtin.scriptOf? args with
    | some path => scriptTurns act.session.levels path (act.session.redirectStd streams.files) act.world
    | none => []
  | .assignment .. => []

-- The words of its command, if it is one that runs no script.
def command? (act : Act) : Option (List Bytes) :=
  match act.step with
  | .command args _ => if Builtin.scriptOf? args = none then some args else none
  | _ => none

def history (act : Act) : List Instant :=
  match act.command? with
  | some args => [⟨act.session, act.after, some args⟩]
  | none => along Turn.ends Turn.history act.session act.after act.turns

end Act

theorem Act.history_linked (act : Act) : Linked act.session (act.history.map Instant.ends) act.after := by
  unfold history
  split
  · exact ⟨rfl, rfl⟩
  · exact along_linked fun turn _ => turn.history_linked

-- What every instant of a step keeps.
theorem Carries.act (carries : Carries R C) (act : Act) : ∀ instant ∈ act.history, instant.Kept R C := by
  obtain ⟨step, s, w⟩ := act
  cases step with
  | line text =>
    have linked : Linked s ([⟨text, s, w⟩].map Turn.ends) (interpret text s w).2.1 := ⟨rfl, rfl⟩
    exact along_kept carries linked (carries.refl s) (carries.refl _) fun turn _ => carries.turn turn
  | script path =>
    exact carries.script s path w (carries.refl s) (fun depth => carries.nest { (runScript path s w).2.1 with depth := depth } _)
      fun turn _ => carries.turn turn
  | text text =>
    exact along_kept carries (textTurns_linked text s w) (carries.refl s) (carries.refl _) fun turn _ => carries.turn turn
  | command args streams =>
    unfold Act.history Act.command? Act.turns
    dsimp only
    cases runs : Builtin.scriptOf? args with
    | none =>
      intro instant member
      cases List.mem_singleton.mp member
      exact carries.command args runs _ _ _ _
    | some path =>
      have leaves : (runBuiltin args streams s w).2.1 =
          (runScript path (s.redirectStd streams.files) w).2.1.restoreStd s := by
        rcases ran : sourceScript (runScriptAt s.levels) path streams s w with ⟨⟨status, message⟩, next, after⟩
        unfold runBuiltin
        rw [Builtin.run_script runs ran]
        exact (congrArg (·.2.1) ran).symm
      refine carries.script (s.redirectStd streams.files) path w (carries.redirect s _ _ _) (fun depth => ?_)
        fun turn _ => carries.turn turn
      show R _ (runBuiltin args streams s w).2.1
      rw [leaves]
      exact carries.trans (carries.nest { (runScript path (s.redirectStd streams.files) w).2.1 with depth := depth } _)
        (carries.redirect (runScript path (s.redirectStd streams.files) w).2.1 _ _ _)
  | assignment text streams =>
    intro instant member
    cases List.mem_singleton.mp member
    exact carries.assign text streams s w

-- A run of steps, one after the other, in whatever worlds.
def Run (first : Session) (acts : List Act) (last : Session) : Prop := Linked first (acts.map Act.ends) last

theorem Run.history_linked (run : Run first acts last) :
    Linked first ((acts.flatMap Act.history).map Instant.ends) last := by
  induction acts generalizing first with
  | nil => exact run
  | cons act others ih =>
    obtain ⟨rfl, later⟩ := run
    rw [List.flatMap_cons, List.map_append]
    exact act.history_linked.append (ih later)

theorem Carries.run (carries : Carries R C) (acts : List Act) : ∀ instant ∈ acts.flatMap Act.history, instant.Kept R C := by
  intro instant member
  obtain ⟨act, _, happens⟩ := List.mem_flatMap.mp member
  exact carries.act act instant happens

-- Along a stretch of a run whose commands do no more than the rest of it the relation lasts.
theorem Carries.stretch (carries : Carries R C) (run : Run first acts last)
    (stretch : acts.flatMap Act.history = before ++ within ++ later)
    (plain : ∀ instant ∈ within, ∀ args, instant.command = some args → ∀ s after, C args s after → R s after) :
    ∃ start stop, Linked first (before.map Instant.ends) start ∧ Lasts R start (within.map Instant.ends) stop ∧
      Linked stop (later.map Instant.ends) last := by
  have linked := run.history_linked
  rw [stretch, List.map_append, List.map_append] at linked
  obtain ⟨stop, front, back⟩ := linked.split
  obtain ⟨start, earlier, during⟩ := front.split
  refine ⟨start, stop, earlier, during.lasts carries.toLasting fun instant member => ?_, back⟩
  obtain ⟨inside, among, rfl⟩ := List.mem_map.mp member
  have kept : inside.Kept R C := carries.run acts inside (by simp [stretch, among])
  unfold Instant.Kept at kept
  split at kept
  · exact kept
  · rename_i args command
    exact plain inside among args command _ _ kept

end Session
end LineShell
