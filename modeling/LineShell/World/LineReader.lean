import LineShell.World.Basic

namespace LineShell

-- A reader between two blocks: it has handed out every line that has ended.
structure LineReader where
  channel : Channel
  offset : Nat := 0
  held : Bytes := []
  start : Nat := 0
  size : Nat := 0
  deriving DecidableEq, Repr

inductive LineBlock where
  | lines (ready : List Bytes) (reader : LineReader)
  -- What followed the last newline is a line unless it is empty.
  | last (rest : List Bytes)
  | tooLong
  | unreadable (error : Errno)
  deriving DecidableEq, Repr

def World.bytesAt (w : World) (channel : Channel) (offset count : Nat) : Except Errno Bytes :=
  match channel with
  | .node id =>
    match w.tree.node? id with
    | some (.device .full) => .ok (List.replicate count 0)
    | _ => (w.tree.data id).map fun data => (data.drop offset).take count
  | .memory name => .ok ((((w.memory.read? name).getD []).drop offset).take count)
  | _ => .error Errno.badDescriptor

namespace LineReader
open Bytes

def firstSize : Nat := 4096

-- A line has to fit in the largest buffer together with its newline.
def sizeLimit : Nat := 65536

-- What is held moves to the front when the buffer is full behind it or it lies in the second half;
-- a buffer that is still full doubles.
def makeRoom? (r : LineReader) : Option LineReader :=
  let full := r.start + r.held.length = r.size
  let r := if full ∨ r.size / 2 < r.start then { r with start := 0 } else r
  if r.start + r.held.length < r.size then some r
  else if sizeLimit ≤ r.size then none
  else some { r with start := 0, size := min sizeLimit (max firstSize (2 * r.size)) }

def absorb (r : LineReader) (block : Bytes) : List Bytes × LineReader :=
  let taken := r.held ++ block
  let pieces := splitOn newline taken
  let held := pieces.getLast?.getD []
  (pieces.dropLast,
    { r with offset := r.offset + block.length, held := held, start := r.start + (taken.length - held.length) })

def readBlocks : Nat → LineReader → World → LineBlock
  | 0, _, _ => .tooLong
  | blocks + 1, r, w =>
    match r.makeRoom? with
    | none => .tooLong
    | some r =>
      match w.bytesAt r.channel r.offset (r.size - (r.start + r.held.length)) with
      | .error e => .unreadable e
      | .ok [] => .last (if r.held.isEmpty then [] else [r.held])
      | .ok block =>
        match r.absorb block with
        | ([], r) => readBlocks blocks r w
        | (ready, r) => .lines ready r

-- Each block brings a byte or more, so the largest buffer is full after as many blocks as it has
-- room for bytes.
def next (r : LineReader) (w : World) : LineBlock := readBlocks (sizeLimit + 1) r w

def extent (r : LineReader) (w : World) : Nat := w.extent r.channel

-- More blocks than the file ever has, as each brings a byte or more.
def blockLimit (r : LineReader) (w : World) : Nat := max (r.extent w) World.fileLimit + 1

end LineReader
end LineShell
