import LineShell.Bytes.Letter
import LineShell.Number.Binary

namespace LineShell.Yaml.KeyOrder

def number (start : Int) (text : List Char) : Int × Nat :=
  let digits := text.takeWhile fun c => Letter.isDigit c.toNat
  (digits.foldl (fun n c => wrap64 (n * 10 + ((c.toNat : Int) - 0x30))) start, digits.length)

-- Whether the digits right before a place have one other than zero; `before` is the text in front
-- of it, last character first.
def insideNumber (before : List Char) : Bool :=
  (before.takeWhile fun c => Letter.isDigit c.toNat).any (· ≠ '0')

-- Letters come after everything else, and runs of digits are compared as numbers of 64 bits, so
-- `a9` stands before `a10`.
def differ (before : List Char) (a b : Char) (as bs : List Char) : Bool :=
  let aLetter := Letter.isLetter a.toNat
  let bLetter := Letter.isLetter b.toNat
  if aLetter && bLetter then a.toNat < b.toNat
  else if aLetter || bLetter then bLetter
  else
    let start : Int := if (a = '0' || b = '0') && insideNumber before then 1 else 0
    let (m, aCount) := number start (a :: as)
    let (n, bCount) := number start (b :: bs)
    if m ≠ n then m < n
    else if aCount ≠ bCount then aCount < bCount
    else a.toNat < b.toNat

-- Whether a text is written before another; `before` is what both begin with.
def precedesFrom (before : List Char) : List Char → List Char → Bool
  | [], [] => false
  | [], _ :: _ => true
  | _ :: _, [] => false
  | a :: as, b :: bs => if a = b then precedesFrom (a :: before) as bs else differ before a b as bs

def precedes (a b : List Char) : Bool := precedesFrom [] a b

end LineShell.Yaml.KeyOrder
