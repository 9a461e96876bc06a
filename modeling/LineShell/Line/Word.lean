import LineShell.Line.Span

namespace LineShell.Line
open Bytes

-- An unpaired single quote is reported before an unpaired double one, both before an open `$(`.
def protectedSpans (line : Bytes) : Except Fault (List Span) := do
  let single ← quoteSpans line singleQuote
  let double ← quoteSpans line doubleQuote
  let subshells ← subshellSpans line
  return single ++ double ++ subshells

def finish (reversed : Bytes) : List Bytes :=
  if reversed.isEmpty then [] else [reversed.reverse]

-- The bytes of the current word come last first.
def wordsFrom (guarded : Nat → Bool) : Nat → Bytes → Bytes → List Bytes
  | _, word, [] => finish word
  | i, word, c :: rest =>
    if c = backslash then
      match rest with
      | [] => finish (c :: word)
      | d :: rest => wordsFrom guarded (i + 2) (d :: c :: word) rest
    else if c ≠ space ∨ guarded i then wordsFrom guarded (i + 1) (c :: word) rest
    else finish word ++ wordsFrom guarded (i + 1) [] rest

def split (line : Bytes) : Except Fault (List Bytes) := do
  let spans ← protectedSpans line
  return wordsFrom (fun i => spans.any (·.contains i)) 0 [] line

end LineShell.Line
