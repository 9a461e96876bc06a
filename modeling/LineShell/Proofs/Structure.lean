import LineShell.Proofs.Acceptance
import LineShell.Proofs.Grants

namespace LineShell
open World

-- Where the file of a slot comes from. Pipes and redirections are counted in the order of the line.
inductive Origin where
  | inherited
  | reader (pipe : Nat)
  | writer (pipe : Nat)
  | target (redirection : Nat)
  deriving DecidableEq, Repr

def Call.isPipe : Call → Bool
  | .piped .. => true
  | _ => false

-- The origin of a file that calls made, the latest of them first.
def originOf (f : FileId) : List Call → Option Origin
  | [] => none
  | .piped reader writer :: earlier =>
    if f = reader then some (.reader (earlier.countP Call.isPipe))
    else if f = writer then some (.writer (earlier.countP Call.isPipe))
    else originOf f earlier
  | .opened g :: earlier => if f = g then some (.target (openings earlier).length) else originOf f earlier
  | _ :: earlier => originOf f earlier

def handleOrigin (calls : List Call) : Option FileId → Option Origin
  | none => some .inherited
  | some f => originOf f calls

-- For each stage the number of its arguments and the origins of its slots.
def Pipeline.layout (p : Pipeline) (calls : List Call) : List (Nat × Triple (Option Origin)) :=
  p.stages.map fun stage => (stage.args.length, stage.stdio.map (handleOrigin calls))

theorem originOf_made (f : FileId) (calls : List Call) (present : f ∈ made calls) : (originOf f calls).isSome = true := by
  induction calls with
  | nil => cases present
  | cons call earlier ih =>
    cases call with
    | piped reader writer =>
      unfold originOf
      split
      · rfl
      · split
        · rfl
        · rename_i notReader notWriter
          refine ih ?_
          simpa [Call.makes, notReader, notWriter] using present
    | opened g =>
      unfold originOf
      split
      · rfl
      · rename_i other
        refine ih ?_
        simpa [Call.makes, other] using present
    | _ => exact ih present

theorem layout_substitute (p : Pipeline) (expand other : Bytes → Bytes) (calls : List Call) :
    (p.substitute expand).layout calls = (p.substitute other).layout calls := by
  simp [Pipeline.layout, Pipeline.substitute, Function.comp_def]

namespace Session
variable {w after : World}

-- Every slot of a compiled line has an origin: what it holds was made for this line.
theorem compile_origins (expand : Bytes → Bytes) (compiled : compile expand line w = (.ok p, after))
    (reached : after.trace = calls ++ w.trace) :
    ∀ stage ∈ p.stages, ∀ slot, (handleOrigin calls (stage.stdio.get slot)).isSome = true := by
  intro stage member slot
  cases handle : stage.stdio.get slot with
  | none => rfl
  | some f =>
    have owes := compile_owes expand line w
    rw [compiled] at owes
    obtain ⟨recorded, account⟩ := owes
    have same : recorded = calls := List.append_cancel_right (account.reached.trace.symm.trans reached)
    subst same
    exact originOf_made f recorded (account.made_of_owed (held_pos member slot handle))

-- The files opened for a compiled line are those of its redirections, each under its target's value.
theorem compile_opened (expand : Bytes → Bytes) (compiled : compile expand line w = (.ok p, after))
    (reached : after.trace = calls ++ w.trace) :
    (openings calls).map after.fileName = (Line.targets line).map expand := by
  obtain ⟨opened, footprint, requests⟩ := compile_footprint expand line w
  rw [compiled] at footprint requests
  obtain ⟨recorded, made, _, _, names⟩ := footprint.calls
  have same : recorded = calls := List.append_cancel_right (made.trace.symm.trans reached)
  subst same
  rw [names, requests (by rintro _ ⟨⟩), ← (compile_ok expand compiled).1]
  simp [Redirection.request]

-- The same session with other values of variables and another last status.
def withValues (s : Session) (locals env : Variables) (status : Int) : Session :=
  { s with locals := locals, env := env, lastStatus := status }

-- Two sessions that differ in values only compile a line alike, if neither is refused a redirection
-- target. What may stop both besides the text of the line is a pipe or close call the system refuses.
theorem compile_structure (line : Bytes) (s : Session) (locals env : Variables) (status : Int) (w : World)
    (opens : Opens (compile s.expand line w).1)
    (opensOther : Opens (compile (s.withValues locals env status).expand line w).1) :
    (∃ cause token, (compile s.expand line w).1 = .error (.parse cause token) ∧
      (compile (s.withValues locals env status).expand line w).1 = .error (.parse cause token)) ∨
    (∃ p q after later calls, compile s.expand line w = (.ok p, after) ∧
      compile (s.withValues locals env status).expand line w = (.ok q, later) ∧
      after.trace = calls ++ w.trace ∧ later.trace = calls ++ w.trace ∧
      p.layout calls = q.layout calls ∧
      (∀ stage ∈ p.stages, ∀ slot, (handleOrigin calls (stage.stdio.get slot)).isSome = true) ∧
      (openings calls).map after.fileName = (Line.targets line).map s.expand ∧
      (openings calls).map later.fileName = (Line.targets line).map (s.withValues locals env status).expand) ∨
    (∃ e, some e ∈ w.faults) ∧
      ∃ call path cause other why, (compile s.expand line w).1 = .error (.resource call path cause) ∧
        (compile (s.withValues locals env status).expand line w).1 = .error (.resource call other why) := by
  generalize (s.withValues locals env status).expand = other at opensOther ⊢
  rcases compile_aligned s.expand other line w opens opensOther with
    ⟨fault, why, failed, failedOther, same⟩ | ⟨p, done, doneOther, worlds⟩
  · cases same with
    | parse cause token => exact .inl ⟨cause, token, failed, failedOther⟩
    | resource call path otherPath cause why =>
      refine .inr (.inr ⟨?_, call, path, cause, otherPath, why, failed, failedOther⟩)
      refine refused_of_not_granted fun granted => ?_
      rcases compile_granted s.expand line granted failed with parse | ⟨_, _, opening⟩
      · cases parse
      · cases opening
        exact opens _ _ failed
  · have first : compile s.expand line w = (.ok (p.substitute s.expand), (compile s.expand line w).2) := Prod.ext done rfl
    have second : compile other line w = (.ok (p.substitute other), (compile other line w).2) := Prod.ext doneOther rfl
    obtain ⟨calls, account⟩ := compile_owes s.expand line w
    have traced := account.reached.trace
    have tracedOther : (compile other line w).2.trace = calls ++ w.trace := worlds.trace.symm.trans traced
    exact .inr (.inl ⟨_, _, _, _, calls, first, second, traced, tracedOther, layout_substitute p s.expand other calls,
      compile_origins s.expand first traced, compile_opened s.expand first traced,
      compile_opened other second tracedOther⟩)

theorem opens_of_isOk {result : Except Fault α} (fine : result.isOk = true) : Opens result := by
  cases result with
  | ok a => exact opens_ok a
  | error fault => cases fine

-- A line of two stages whose first word and whose first target are variables, and values for them
-- that would be operators, quotes and blanks if they stood in the line.

def valueLine : Bytes := ascii "A=$X $Y > $F | B=1 &> g 2> $F"

def plainValues : Variables := ⟨[(ascii "F", ascii "f"), (ascii "X", ascii "1")]⟩

def hostileValues : Variables := ⟨[(ascii "F", ascii "> | h"), (ascii "X", ascii "$(x) | y &"), (ascii "Y", ascii "' <")]⟩

theorem compile_structure_hostile :
    Opens (compile (onConsole.withValues plainValues {} 0).expand valueLine (console [])).1 ∧
    Opens (compile ((onConsole.withValues plainValues {} 0).withValues {} hostileValues 3).expand valueLine
      (console [])).1 ∧
    ∃ p q calls, (compile (onConsole.withValues plainValues {} 0).expand valueLine (console [])).1 = .ok p ∧
      (compile ((onConsole.withValues plainValues {} 0).withValues {} hostileValues 3).expand valueLine
        (console [])).1 = .ok q ∧
      p.layout calls = q.layout calls := by
  have plain : Opens (compile (onConsole.withValues plainValues {} 0).expand valueLine (console [])).1 :=
    opens_of_isOk (by decide +kernel)
  have hostile : Opens (compile ((onConsole.withValues plainValues {} 0).withValues {} hostileValues 3).expand
      valueLine (console [])).1 := opens_of_isOk (by decide +kernel)
  refine ⟨plain, hostile, ?_⟩
  rcases compile_structure valueLine (onConsole.withValues plainValues {} 0) {} hostileValues 3 (console []) plain hostile
    with ⟨cause, token, refused, _⟩ | ⟨p, q, after, later, calls, done, doneOther, _, _, same, _⟩ | ⟨⟨e, member⟩, _⟩
  · have fine : (compile (onConsole.withValues plainValues {} 0).expand valueLine (console [])).1.isOk = true := by
      decide +kernel
    rw [refused] at fine
    cases fine
  · exact ⟨p, q, calls, by rw [done], by rw [doneOther], same⟩
  · cases member

example : (match compile (onConsole.withValues {} hostileValues 3).expand valueLine (console []) with
    | (.ok p, after) => p.layout after.trace
    | (.error _, _) => []) =
      [(2, ⟨some .inherited, some (.target 0), some .inherited⟩),
        (1, ⟨some (.reader 0), some (.target 1), some (.target 2)⟩)] := by
  decide +kernel

end Session
end LineShell
