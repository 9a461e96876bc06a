import LineShell.Proofs.Nesting
import LineShell.Proofs.Tables

namespace LineShell.Session
open World

-- The file the nearest script around a line was redirected to or piped into, if any was.
def nearest (slot : Slot) (stack : List Frame) : Option FileId :=
  stack.findSome? fun frame => frame.call.stage.stdio.get slot

variable {outer middle inner : Turn} {call : Sourcing} {stack : List Frame}

theorem nearest_cons (slot : Slot) (frame : Frame) (stack : List Frame) :
    nearest slot (frame :: stack) = (frame.call.stage.stdio.get slot).or (nearest slot stack) := by
  unfold nearest
  rw [List.findSome?_cons]
  cases frame.call.stage.stdio.get slot <;> rfl

theorem get_orElse (t fallback : Triple (Option FileId)) (slot : Slot) :
    (t.orElse fallback).get slot = (t.get slot).or (fallback.get slot) := by
  cases slot <;> rfl

-- The engine works with the session's files, and messages go where standard error goes, if it goes anywhere.
structure Coherent (s : Session) : Prop where
  engine : s.engineStd = s.std
  messages : s.std.error.or s.messages = s.messages

theorem Coherent.follows (coherent : Coherent s) (follows : Follows s after) : Coherent after where
  engine := follows.engine coherent.engine
  messages := by
    rw [follows.std, follows.messages]
    exact coherent.messages

theorem reachable_coherent (reached : Reachable s) : Coherent s := by
  induction reached with
  | created settings std environ w =>
    refine ⟨rfl, ?_⟩
    show std.error.or (std.error.or w.stderr) = std.error.or w.stderr
    rw [← Option.or_assoc, Option.or_self]
  | interpreted _ line w ih => exact ih.follows (interpret_follows line _ w)

theorem Coherent.redirectStd (coherent : Coherent s) (files : Triple (Option FileId)) : Coherent (s.redirectStd files) where
  engine := rfl
  messages := by
    show (files.error.or s.std.error).or (files.error.or s.messages) = files.error.or s.messages
    cases files.error with
    | some f => rfl
    | none => exact coherent.messages

-- One step into a script: a slot its stage did not fill stays what it is for the line that runs it.

theorem entering_coherent (coherent : Coherent middle.session) (calling : Calling middle call)
    (entering : Entering call inner) : Coherent inner.session where
  engine := entering.engine
  messages := by
    rw [entering.std, entering.messages]
    exact ((coherent.follows calling.follows).redirectStd call.files).messages

theorem entering_std (coherent : Coherent middle.session) (calling : Calling middle call) (entering : Entering call inner)
    (slot : Slot) : inner.session.std.get slot = (call.stage.stdio.get slot).or (middle.session.std.get slot) := by
  have given : inner.session.std = (call.stage.stdio.orElse middle.session.std).orElse middle.session.std := by
    rw [entering.std, ← calling.follows.std]
    show call.files.orElse call.session.std = _
    rw [calling.files, coherent.engine, ← calling.follows.std]
    rfl
  rw [given, get_orElse, get_orElse, Option.or_assoc, Option.or_self]

theorem entering_messages (coherent : Coherent middle.session) (calling : Calling middle call)
    (entering : Entering call inner) :
    inner.session.messages = (call.stage.stdio.get .error).or middle.session.messages := by
  have given : inner.session.messages =
      (call.stage.stdio.error.or middle.session.std.error).or middle.session.messages := by
    rw [entering.messages, ← calling.follows.messages]
    show call.files.error.or call.session.messages = _
    rw [calling.files, coherent.engine]
    rfl
  rw [given, Option.or_assoc, coherent.messages]
  rfl

theorem inside_depth (nested : Inside outer stack inner) : inner.session.depth = outer.session.depth + stack.length := by
  induction nested with
  | here => rfl
  | deeper around runs interprets ih =>
    have called : _ = _ := (Turn.calling runs).follows.depth
    rw [(Sourcing.entering interprets).depth, List.length_cons, ← Nat.add_assoc, ← ih, ← called]
    rfl

theorem inside_coherent (coherent : Coherent outer.session) (nested : Inside outer stack inner) : Coherent inner.session := by
  induction nested with
  | here => exact coherent
  | deeper around runs interprets ih => exact entering_coherent ih (Turn.calling runs) (Sourcing.entering interprets)

theorem inside_std (coherent : Coherent outer.session) (nested : Inside outer stack inner) (slot : Slot) :
    inner.session.std.get slot = (nearest slot stack).or (outer.session.std.get slot) := by
  induction nested with
  | here => rfl
  | deeper around runs interprets ih =>
    rw [entering_std (inside_coherent coherent around) (Turn.calling runs) (Sourcing.entering interprets), ih, nearest_cons,
      Option.or_assoc]

theorem inside_messages (coherent : Coherent outer.session) (nested : Inside outer stack inner) :
    inner.session.messages = (nearest .error stack).or outer.session.messages := by
  induction nested with
  | here => rfl
  | deeper around runs interprets ih =>
    rw [entering_messages (inside_coherent coherent around) (Turn.calling runs) (Sourcing.entering interprets), ih,
      nearest_cons, Option.or_assoc]

-- What redirections come to for one line, with the scripts around it.
structure Redirected (outer : Turn) (stack : List Frame) (inner : Turn) : Prop where
  depth : inner.session.depth = outer.session.depth + stack.length
  -- Every slot of a stage of the line, the inherited ones in particular.
  slots : ∀ stdio slot, (Stdio.resolve stdio inner.session.engine.std).get slot =
    (stdio.get slot).or ((nearest slot stack).or (outer.session.std.get slot))
  messages : inner.session.messages = (nearest .error stack).or outer.session.messages
  -- The message about the line itself.
  reported : ∀ fault, inner.fault? = some fault → ∃ recorded : World, inner.result.2.2 =
    recorded.emit inner.session.messages (inner.session.settings.shellName ++ ascii ": " ++ fault.message ++ [Bytes.newline])
  -- The engine has the session's files: when the line is begun, when a stage is entered, when a script is begun
  -- and when it has returned.
  engine : inner.session.engine.std = inner.session.std
  entered : ∀ visit ∈ inner.visits, visit.state.engine.std = visit.state.std
  sourced : ∀ call ∈ inner.calls, call.given.engine.std = call.given.std ∧
    call.result.2.1.engine.std = call.result.2.1.std
  -- Whenever a stage is entered, what scripts redirected in front of it has been put back.
  between : ∀ visit ∈ inner.visits, visit.state.std = inner.session.std ∧ visit.state.messages = inner.session.messages ∧
    visit.state.depth = inner.session.depth
  returned : inner.result.2.1.std = inner.session.std ∧ inner.result.2.1.engine.std = inner.session.engine.std ∧
    inner.result.2.1.messages = inner.session.messages ∧ inner.result.2.1.depth = inner.session.depth

-- Redirections of scripts nest, whatever lines and scripts do, and are undone when a line returns, in whatever
-- way it does. Every session there can be has its files as they have to be for that.
theorem redirections_nest :
    (∀ s, Reachable s → Coherent s) ∧
    ∀ outer stack inner, Coherent outer.session → Inside outer stack inner → Redirected outer stack inner := by
  refine ⟨fun _ => reachable_coherent, ?_⟩
  intro outer stack inner start nested
  have coherent := inside_coherent start nested
  constructor
  case depth => exact inside_depth nested
  case slots =>
    intro stdio slot
    have engine : inner.session.engine.std = inner.session.std := coherent.engine
    rw [Stdio.resolve, get_orElse, engine, inside_std start nested]
  case messages => exact inside_messages start nested
  case reported =>
    intro fault fails
    obtain ⟨result, after, whole⟩ := Turn.failed fails
    rw [whole]
    exact ⟨_, rfl⟩
  case engine => exact coherent.engine
  case entered =>
    intro visit entered
    exact (coherent.follows (Turn.visit_follows entered)).engine
  case sourced =>
    intro call runs
    have given : Coherent call.given := (coherent.follows (Turn.calling runs).follows).redirectStd call.files
    exact ⟨given.engine, (given.follows (runScriptAt_follows _ _ _ _)).engine⟩
  case between =>
    intro visit entered
    have follows := Turn.visit_follows entered
    exact ⟨follows.std, follows.messages, follows.depth⟩
  case returned =>
    have follows := interpret_follows inner.line inner.session inner.world
    refine ⟨follows.std, ?_, follows.messages, follows.depth⟩
    exact (coherent.follows follows).engine.trans (follows.std.trans coherent.engine.symm)

-- A world with scripts in memory, and a session that reads them there.

def scripted (scripts : List (String × String)) : World :=
  { console [] with memory := scripts.foldl (fun memory script => memory.write (ascii script.1) (ascii script.2)) {} }

def sourcing : Session := { fresh with storage := .memory }

theorem sourcing_reachable : Reachable sourcing := .created {} ⟨some 0, some 1, some 2⟩ [] (console []) .memory none none

-- A script whose output goes to one file runs another whose messages go to a second one.
def redirectedTwice : Turn := ⟨ascii ". a > o", sourcing, scripted [("a", ". b 2> e"), ("b", "mecho < none")]⟩

-- A line in there that fails finds both, and the standard input of the session.
theorem redirections_nest_twice :
    ∃ stack inner, Inside redirectedTwice stack inner ∧
      nearest .input stack = none ∧ nearest .output stack = some 3 ∧ nearest .error stack = some 4 ∧
      (Stdio.resolve Stdio.inherit inner.session.engine.std).get .input = some 0 ∧
      (Stdio.resolve Stdio.inherit inner.session.engine.std).get .output = some 3 ∧
      inner.session.messages = some 4 ∧ inner.result.2.1.messages = some 4 ∧
      ∃ recorded : World, inner.result.2.2 =
        recorded.emit (some 4) (ascii "myshell" ++ ascii ": " ++ ascii "open none: no such file or directory" ++ [Bytes.newline]) := by
  obtain ⟨call, runs, middle, interprets, deeper, runsDeeper, inner, interpretsInner, redirects, redirectsDeeper, fails, name⟩ :
      ∃ call ∈ redirectedTwice.calls, ∃ middle ∈ call.lines, ∃ deeper ∈ middle.calls, ∃ inner ∈ deeper.lines,
        call.stage.stdio = ⟨none, some 3, none⟩ ∧ deeper.stage.stdio = ⟨none, none, some 4⟩ ∧
        inner.fault? = some (.resource (ascii "open") (ascii "none") (.errno 2)) ∧
        inner.session.settings.shellName = ascii "myshell" := by decide +kernel
  have nested := (Inside.here.deeper runs interprets).deeper runsDeeper interpretsInner
  have filled : ∀ slot, nearest slot [⟨middle, deeper⟩, ⟨redirectedTwice, call⟩] =
      (Triple.get ⟨none, none, some 4⟩ slot).or ((Triple.get ⟨none, some 3, none⟩ slot).or none) := by
    intro slot
    rw [nearest_cons, nearest_cons, redirects, redirectsDeeper]
    rfl
  have whole := redirections_nest.2 _ _ _ (redirections_nest.1 _ sourcing_reachable) nested
  have messages : inner.session.messages = some 4 := by
    rw [whole.messages, filled]
    rfl
  obtain ⟨recorded, written⟩ := whole.reported _ fails
  have text : (Fault.resource (ascii "open") (ascii "none") (.errno 2)).message = ascii "open none: no such file or directory" := by
    decide +kernel
  refine ⟨_, inner, nested, filled .input, filled .output, filled .error, ?_, ?_, messages, ?_, recorded, ?_⟩
  · rw [whole.slots, filled]
    rfl
  · rw [whole.slots, filled]
    rfl
  · exact whole.returned.2.2.1.trans messages
  · rw [written, messages, name, text]

end LineShell.Session
