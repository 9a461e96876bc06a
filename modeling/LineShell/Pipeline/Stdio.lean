import LineShell.World.Basic

namespace LineShell

-- What each slot owns; an empty one uses the shell's own standard file.
abbrev Stdio := Triple (Option FileId)

namespace Stdio

def inherit : Stdio := Triple.replicate none

def refers (s : Stdio) (f : FileId) : Bool := s.toList.contains (some f)

def drop (s : Stdio) (f : FileId) (w : World) : Except Fault Unit × World :=
  if s.refers f then (.ok (), w)
  else
    match w.close f with
    | (.ok (), w) => (.ok (), w)
    | (.error cause, after) => (.error (.resource (ascii "close") (w.fileName f) cause), after)

-- The file a slot owned is closed unless another slot still owns it.
def replace (s : Stdio) (slot : Slot) (handle : Option FileId) (w : World) :
    Except Fault Unit × Stdio × World :=
  let next : Stdio := s.set slot handle
  match s.get slot with
  | none => (.ok (), next, w)
  | some f =>
    let (result, w) := next.drop f w
    (result, next, w)

def firstError (a b : Except Fault Unit) : Except Fault Unit :=
  match a with
  | .error e => .error e
  | .ok () => b

def releaseSlots (s : Stdio) : List Slot → World → Except Fault Unit × Stdio × World
  | [], w => (.ok (), s, w)
  | slot :: rest, w =>
    let (first, s, w) := s.replace slot none w
    let (others, s, w) := releaseSlots s rest w
    (firstError first others, s, w)

-- The first error is reported, and none keeps the other files from being closed.
def release (s : Stdio) (w : World) : Except Fault Unit × Stdio × World :=
  s.releaseSlots Slot.all w

def resolve (s : Stdio) (std : Triple (Option FileId)) : Triple (Option FileId) := s.orElse std

def handleName (w : World) : Option FileId → Bytes
  | none => ascii "inherit"
  | some f => w.fileName f

end Stdio
end LineShell
