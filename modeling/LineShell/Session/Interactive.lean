import LineShell.Session.Interpreter

namespace LineShell

inductive Typed where
  | line (text : Bytes)
  | interrupt
  deriving DecidableEq, Repr

namespace Typed
open Bytes

def interruptKey : Nat := 0x03

def endKey : Nat := 0x04

def completeKey : Nat := 0x09

-- A newline and a carriage return both end a line, as a zero does behind some text.
def ofUnits (pending : Bytes) : List Utf8.Unit → List Typed
  | [] => if pending.isEmpty then [] else [line pending]
  | .stray _ :: rest => ofUnits (pending ++ Utf8.encode 0xFFFD) rest
  | .char n bytes :: rest =>
    if n = 0x0A || n = 0x0D then line pending :: ofUnits [] rest
    else if n = 0 then if pending.isEmpty then [] else line pending :: ofUnits [] rest
    else if n = interruptKey then interrupt :: ofUnits [] rest
    else if n = endKey then if pending.isEmpty then [] else ofUnits pending rest
    else if n = completeKey then ofUnits pending rest
    else ofUnits (pending ++ bytes) rest

def ofInput (input : Bytes) : List Typed := ofUnits [] (Utf8.units input)

end Typed

structure History where
  file : Option FileId := none
  last : Option Bytes := none
  deriving DecidableEq, Repr

namespace History
open Bytes

def lastLine (text : Bytes) : Option Bytes :=
  (((splitOn newline text).dropLast.map Blank.trim).filter (!·.isEmpty)).getLast?

def start (path : Bytes) (w : World) : History × World :=
  if path.isEmpty then ({}, w)
  else
    let last := (Storage.disk.contents path w).toOption.bind lastLine
    match w.openFile path .append with
    | (.ok f, w) => ({ file := some f, last := last }, w)
    | (.error _, w) => ({}, w)

def add (h : History) (text : Bytes) (w : World) : History × World :=
  if text.isEmpty || h.last = some text then (h, w)
  else ({ h with last := some text }, w.emit h.file (text ++ [newline]))

end History

namespace Session

def runTyped : List Typed → History → Session → World → (Int × Option Fault) × Session × World
  | [], _, s, w => ((s.lastStatus, none), s, w)
  | .interrupt :: rest, h, s, w => runTyped rest h s w
  | .line text :: rest, h, s, w =>
    let (h, w) := h.add text w
    match s.interpret text w with
    | ((_, some fault), s, w) => ((1, some fault), s, w)
    | ((_, none), s, w) => if s.exited then ((s.lastStatus, none), s, w) else runTyped rest h s w

def touchHistory (path : Bytes) (w : World) : World :=
  if path.isEmpty then w
  else
    match w.openFile path .touch with
    | (.ok f, w) => (w.close f).2
    | (.error e, w) =>
      let cause := Cause.onPath (ascii "open") path (.errno e)
      w.logLine (ascii "couldn't create history file: " ++ cause.message)

def runInteractive (s : Session) (w : World) : (Int × Option Fault) × Session × World :=
  let path := s.settings.historyPath w
  let w := touchHistory path w
  let (history, w) := History.start path w
  let (input, w) :=
    match s.std.input with
    | none => ([], w)
    | some f =>
      match w.drain f with
      | (.ok data, w) => (data, w)
      | (.error _, w) => ([], w)
  let (result, s, w) := runTyped (Typed.ofInput input) history s w
  let w :=
    match history.file with
    | some f => (w.close f).2
    | none => w
  (result, s, w)

end Session
end LineShell
