import LineShell.Bytes

namespace LineShell

-- Texts with their counts, by ascending text, every text once.
structure Counter where
  counts : List (Bytes × Nat) := []
  deriving DecidableEq, Repr

namespace Counter

def bump (key : Bytes) : List (Bytes × Nat) → List (Bytes × Nat)
  | [] => [(key, 1)]
  | (k, n) :: rest =>
    if key = k then (k, n + 1) :: rest
    else if Bytes.precedes key k then (key, 1) :: (k, n) :: rest
    else (k, n) :: bump key rest

def increment (c : Counter) (key : Bytes) : Counter := ⟨bump key c.counts⟩

def count (c : Counter) (key : Bytes) : Nat := (c.counts.lookup key).getD 0

def total (c : Counter) : Nat := c.counts.foldl (fun sum e => sum + e.2) 0

def ranksBefore (a b : Bytes × Nat) : Bool := b.2 < a.2 || (a.2 = b.2 && Bytes.notAfter a.1 b.1)

def top (c : Counter) : List (Bytes × Nat) := c.counts.mergeSort ranksBefore

def summary (c : Counter) : Bytes :=
  ascii "map[" ++
    Bytes.join (ascii " ") (c.counts.map fun e => e.1 ++ [Bytes.colon] ++ decimal e.2) ++ ascii "]"

end Counter
end LineShell
