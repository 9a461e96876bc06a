import LineShell.World.Basic

namespace LineShell

structure Date where
  year : Nat
  month : Nat
  day : Nat
  deriving DecidableEq, Repr

namespace Date

def ofDays (days : Nat) : Date :=
  let z := days + 719468
  let era := z / 146097
  let doe := z % 146097
  let yoe := (doe - doe / 1460 + doe / 36524 - doe / 146096) / 365
  let doy := doe - (365 * yoe + yoe / 4 - yoe / 100)
  let mp := (5 * doy + 2) / 153
  let month := if mp < 10 then mp + 3 else mp - 9
  { year := yoe + era * 400 + (if month ≤ 2 then 1 else 0), month := month, day := doy - (153 * mp + 2) / 5 + 1 }

end Date

def padded (width n : Nat) : Bytes :=
  let digits := decimal n
  List.replicate (width - digits.length) 0x30 ++ digits

def timeText (seconds : Nat) : Bytes :=
  let date := Date.ofDays (seconds / 86400)
  let rest := seconds % 86400
  padded 4 date.year ++ ascii "/" ++ padded 2 date.month ++ ascii "/" ++ padded 2 date.day ++ ascii " " ++
    padded 2 (rest / 3600) ++ ascii ":" ++ padded 2 (rest / 60 % 60) ++ ascii ":" ++ padded 2 (rest % 60)

def World.logLine (w : World) (line : Bytes) : World :=
  w.emit w.log (timeText (w.clock / 1000000000) ++ ascii " " ++ line ++ [Bytes.newline])

end LineShell
