import OtaAgent.Text.Digits

set_option autoImplicit false

namespace OtaAgent

/-- Seconds since the start of 1970 and nanoseconds; a leap second has a thousand million
nanoseconds or more. -/
structure Timestamp where
  seconds : Int
  nanos : Nat
  deriving DecidableEq, Repr

namespace Timestamp

/-- A day of the Gregorian calendar, extended to all years. -/
structure Date where
  year : Int
  month : Nat
  day : Nat
  deriving DecidableEq, Repr

/-- The date of a day counted from the first of January 1970. Years are taken to begin in March,
so that a leap day is the last of its year, in cycles of 400 years and 146097 days. -/
def Date.ofDay (day : Int) : Date :=
  let shifted := day + 719468
  let cycle := shifted.fdiv 146097
  let dayOfCycle := (shifted - cycle * 146097).toNat
  let yearOfCycle :=
    (dayOfCycle - dayOfCycle / 1460 + dayOfCycle / 36524 - dayOfCycle / 146096) / 365
  let dayOfYear := dayOfCycle - (365 * yearOfCycle + yearOfCycle / 4 - yearOfCycle / 100)
  let march := (5 * dayOfYear + 2) / 153
  let month := if march < 10 then march + 3 else march - 9
  { year := cycle * 400 + yearOfCycle + (if month ≤ 2 then 1 else 0)
    month
    day := dayOfYear - (153 * march + 2) / 5 + 1 }

/-- Four digits; a year outside 0 to 9999 carries a sign. -/
def yearText (year : Int) : List Char :=
  if 0 ≤ year ∧ year ≤ 9999 then Text.padded 4 year.toNat
  else (if year < 0 then '-' else '+') :: Text.padded 4 year.natAbs

def dateText (t : Timestamp) : List Char :=
  let date := Date.ofDay (t.seconds.fdiv 86400)
  yearText date.year ++ '-' :: Text.padded 2 date.month ++ '-' :: Text.padded 2 date.day

/-- Hour, minute and second; a leap second is the sixty-first of its minute. -/
def clock (t : Timestamp) : Nat × Nat × Nat :=
  let s := (t.seconds.fmod 86400).toNat
  (s / 3600, s / 60 % 60, s % 60 + t.nanos / 1000000000)

def clockText (separator : Char) (t : Timestamp) : List Char :=
  let (h, m, s) := t.clock
  Text.padded 2 h ++ separator :: Text.padded 2 m ++ separator :: Text.padded 2 s

/-- Date and time to the second. -/
def toSeconds (t : Timestamp) : String :=
  String.ofList (t.dateText ++ 'T' :: t.clockText ':' ++ ['Z'])

/-- Date and time to the millisecond, the rest dropped. -/
def toMillis (t : Timestamp) : String :=
  String.ofList (t.dateText ++ 'T' :: t.clockText ':' ++
    '.' :: Text.padded 3 (t.nanos % 1000000000 / 1000000) ++ ['Z'])

/-- A form that can stand in a file name. -/
def toStamp (t : Timestamp) : String := String.ofList (t.dateText ++ '_' :: t.clockText '-')

end Timestamp
end OtaAgent
