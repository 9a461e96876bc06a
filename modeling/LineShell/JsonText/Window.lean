import LineShell.JsonText.Basic

namespace LineShell.JsonText

namespace Problem

def remaining : Problem → Nat
  | invalidCharacter _ rest _ => rest.length + 1
  | invalidEscape rest => rest.length + 1
  | _ => 0

-- How many bytes from the place of a problem on show that it is one.
def evidence : Problem → Nat
  | invalidCharacter .. => 1
  | invalidEscape (0x75 :: digits) => (digits.takeWhile isHex).length + 3
  | invalidEscape _ => 2
  | _ => 0

def truncate (count : Nat) : Problem → Problem
  | invalidCharacter first rest context => invalidCharacter first (rest.take (count - 1)) context
  | invalidEscape rest => invalidEscape (rest.take (count - 1))
  | other => other

end Problem

structure Window where
  start : Nat := 0
  stop : Nat := 0
  size : Nat := 64
  deriving DecidableEq, Repr

namespace Window

def smallSize : Nat := 2048

-- Values up to `used` are done with and make room; the buffer doubles if they were many, or if
-- there are none and it is mostly full.
def advance (length used : Nat) (w : Window) : Window :=
  let grows := (w.size ≤ smallSize && w.size < used / 2) ||
    (used = w.start && 3 * w.size / 4 ≤ w.stop - w.start)
  let size := if grows then 2 * w.size else w.size
  { start := used, stop := min length (used + size), size := size }

def reach (length used need : Nat) : Nat → Window → Window
  | 0, w => w
  | blocks + 1, w => if need ≤ w.stop then w else reach length used need blocks (w.advance length used)

-- A problem as it is noticed in a text of `length` bytes, behind values that end at `ends`.
def notice (length : Nat) (ends : List Nat) (problem : Problem) : Problem :=
  let place := length - problem.remaining
  let (used, w) := ends.foldl (fun (used, w) stop => (stop, reach length used stop (stop + 1) w)) (0, {})
  let need := place + problem.evidence
  problem.truncate ((reach length used need (need + 1) w).stop - place)

end Window
end LineShell.JsonText
