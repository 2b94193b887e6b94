import ApiDrift.Text.Digits
/-! Dates of the Gregorian calendar, from seconds since the beginning of 1970. -/
namespace ApiDrift.CommandLine

structure Date where
  year : Int
  month : Nat
  day : Nat
deriving DecidableEq, Repr

namespace Date

/-- The date of a day, counted from the first of March of the year zero. Years begin in March, so
that a leap day is the last one, and come in cycles of 400. -/
def ofDay (n : Int) : Date :=
  let cycle := n / 146097
  let day := (n % 146097).toNat
  let year := (day - day / 1460 + day / 36524 - day / 146096) / 365
  let dayOfYear := day - (365 * year + year / 4 - year / 100)
  let month := (5 * dayOfYear + 2) / 153
  { year := year + cycle * 400 + (if month < 10 then 0 else 1)
    month := if month < 10 then month + 3 else month - 9
    day := dayOfYear - (153 * month + 2) / 5 + 1 }

def epoch : Int := 719468

def ofSeconds (seconds : Int) : Date := ofDay (seconds / 86400 + epoch)

/-- Years of more than four digits, or before the year zero, have a sign. -/
def yearText (year : Int) : String :=
  if year < 0 then "-" ++ Text.padded 10 4 year.natAbs
  else if year ≤ 9999 then Text.padded 10 4 year.natAbs
  else "+" ++ Text.padded 10 4 year.natAbs

def render (d : Date) : String :=
  yearText d.year ++ "-" ++ Text.padded 10 2 d.month ++ "-" ++ Text.padded 10 2 d.day

end Date

end ApiDrift.CommandLine
