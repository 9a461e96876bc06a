import LineShell.Pipeline.Basic

namespace LineShell.Pipeline

inductive Wiring where
  | connected (received : Bytes)
  | broken
  | ended
  | pending
  | unconnected
  deriving DecidableEq, Repr

def probeMessage : Bytes := ascii "ping"

def pipeEnd? (w : World) (handle : Option FileId) : Option (FileId × Channel) := do
  let f ← handle
  let file ← w.file? f
  match file.channel with
  | .reader _ => some (f, file.channel)
  | .writer _ => some (f, file.channel)
  | _ => none

def probe (source target : Stage) (w : World) : Wiring × World :=
  match pipeEnd? w source.stdio.output, pipeEnd? w target.stdio.input with
  | some (f, _), some (g, _) =>
    match w.write f probeMessage with
    | (some _, w) => (.broken, w)
    | (none, w) =>
      match w.take g (some probeMessage.length) with
      | (.ok received, w) => (.connected received, w)
      | (.error _, w) => (.ended, w)
  | some (f, _), none =>
    match w.write f probeMessage with
    | (some _, w) => (.broken, w)
    | (none, w) => (.pending, w)
  | none, some (_, channel) =>
    match channel with
    | .reader p => (if w.hasEnd (.writer p) then .pending else .ended, w)
    | _ => (.pending, w)
  | none, none => (.unconnected, w)

def probeAll : List Stage → World → List Wiring × World
  | source :: target :: rest, w =>
    let (wiring, w) := probe source target w
    let (more, w) := probeAll (target :: rest) w
    (wiring :: more, w)
  | _, w => ([], w)

end LineShell.Pipeline
