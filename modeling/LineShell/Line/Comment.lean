import LineShell.Bytes

namespace LineShell.Line
open Bytes

inductive Quotes where
  | outside
  | single
  | double
  deriving DecidableEq, Repr

def stripFrom : Quotes → Bytes → Bytes
  | _, [] => []
  | quotes, c :: rest =>
    if c = backslash then
      match rest with
      | [] => [c]
      | d :: rest => c :: d :: stripFrom quotes rest
    else
      match quotes with
      | .single => c :: stripFrom (if c = singleQuote then .outside else .single) rest
      | .double => c :: stripFrom (if c = doubleQuote then .outside else .double) rest
      | .outside =>
        if c = singleQuote then c :: stripFrom .single rest
        else if c = doubleQuote then c :: stripFrom .double rest
        else if c = hash then []
        else c :: stripFrom .outside rest

def stripComment (line : Bytes) : Bytes := stripFrom .outside line

end LineShell.Line
