import LineShell.Fault

namespace LineShell

structure Span where
  first : Nat
  last : Nat
  deriving DecidableEq, Repr

def Span.contains (s : Span) (offset : Nat) : Bool := s.first ≤ offset && offset ≤ s.last

namespace Line
open Bytes

-- `opened` is the quote still without a partner: its offset and the line from it on.
def quoteSpansFrom (quote : UInt8) : Nat → Option (Nat × Bytes) → Bytes → Except Fault (List Span)
  | _, none, [] => .ok []
  | _, some (_, tail), [] => .error (.parse .unterminatedQuote tail)
  | i, opened, c :: rest =>
    if c = backslash then
      match rest with
      | [] => quoteSpansFrom quote (i + 1) opened []
      | _ :: rest => quoteSpansFrom quote (i + 2) opened rest
    else if c = quote then
      match opened with
      | none => quoteSpansFrom quote (i + 1) (some (i, c :: rest)) rest
      | some (start, _) => (⟨start, i⟩ :: ·) <$> quoteSpansFrom quote (i + 1) none rest
    else quoteSpansFrom quote (i + 1) opened rest

def quoteSpans (line : Bytes) (quote : UInt8) : Except Fault (List Span) :=
  quoteSpansFrom quote 0 none line

inductive SubshellScan where
  | outside (quoted : Bool)
  -- `tail` is the line from the region on.
  | inside (depth : Nat) (start : Nat) (tail : Bytes)
  deriving DecidableEq, Repr

def subshellSpansFrom : Nat → SubshellScan → Bytes → Except Fault (List Span)
  | _, .outside _, [] => .ok []
  | _, .inside _ _ tail, [] => .error (.parse .unterminatedSubshell tail)
  | i, .outside quoted, c :: rest =>
    if c = backslash then
      match rest with
      | [] => subshellSpansFrom (i + 1) (.outside quoted) []
      | _ :: rest => subshellSpansFrom (i + 2) (.outside quoted) rest
    else if c = singleQuote then subshellSpansFrom (i + 1) (.outside (!quoted)) rest
    else if c = dollar ∧ quoted = false ∧ rest.head? = some openParen then
      subshellSpansFrom (i + 1) (.inside 0 i (c :: rest)) rest
    else subshellSpansFrom (i + 1) (.outside quoted) rest
  | i, .inside depth start tail, c :: rest =>
    if c = backslash then
      match rest with
      | [] => subshellSpansFrom (i + 1) (.inside depth start tail) []
      | _ :: rest => subshellSpansFrom (i + 2) (.inside depth start tail) rest
    else if c = openParen then subshellSpansFrom (i + 1) (.inside (depth + 1) start tail) rest
    else if c = closeParen then
      -- The byte behind the `$` is a parenthesis, so the depth is positive here.
      if depth ≤ 1 then (⟨start, i⟩ :: ·) <$> subshellSpansFrom (i + 1) (.outside false) rest
      else subshellSpansFrom (i + 1) (.inside (depth - 1) start tail) rest
    else subshellSpansFrom (i + 1) (.inside depth start tail) rest

-- Single quotes hide a region, parentheses inside a region belong to it, and a region that is never
-- closed is an error.
def subshellSpans (line : Bytes) : Except Fault (List Span) :=
  subshellSpansFrom 0 (.outside false) line

end Line
end LineShell
