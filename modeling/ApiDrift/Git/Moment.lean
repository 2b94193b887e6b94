import ApiDrift.Text.Split
/-! Moments in revisions: dates, seconds since the beginning of 1970, and words about the past. -/
namespace ApiDrift.Git

inductive Moment where
  | seconds (n : Nat)
  | recent
deriving DecidableEq, Repr

namespace Moment

def digits? (l : List Char) : Option Nat :=
  if l.isEmpty || !l.all Char.isDigit then none
  else some (l.foldl (fun n c => n * 10 + (c.toNat - '0'.toNat)) 0)

/-- Days from the beginning of 1970 to a date, counted by years that begin in March. -/
def dayNumber (year month day : Nat) : Nat :=
  let y := if month ≤ 2 then year - 1 else year
  let m := if month ≤ 2 then month + 9 else month - 3
  365 * y + y / 4 - y / 100 + y / 400 + (153 * m + 2) / 5 + day - 719469

def date? (s : String) : Option Nat :=
  match (Text.splitChars '-' s.toList).map digits? with
  | [some year, some month, some day] =>
    if 1970 ≤ year ∧ year < 2100 ∧ 1 ≤ month ∧ month ≤ 12 ∧ 1 ≤ day ∧ day ≤ 31 then
      some (86400 * dayNumber year month day)
    else none
  | _ => none

def time? (s : String) : Option Nat :=
  match (Text.splitChars ':' s.toList).map digits? with
  | [some h, some m] => if h < 25 ∧ m < 60 then some (3600 * h + 60 * m) else none
  | [some h, some m, some s] =>
    if h < 25 ∧ m < 60 ∧ s ≤ 60 then some (3600 * h + 60 * m + s) else none
  | _ => none

/-- A date with a time of the day. Without one it is any moment of that day. -/
def calendar? (s : String) : Option Nat :=
  match Text.split ' ' (s.map fun c => if c = 'T' then ' ' else c) with
  | [d] => (date? d).map (· + 43200)
  | [d, t] => do pure ((← date? d) + (← time? t))
  | [d, t, "+0000"] => do pure ((← date? d) + (← time? t))
  | _ => none

/-- The number from which on digits are seconds, and not a day or an hour. -/
def leastSeconds : Nat := 100000000

def plain? (s : String) : Option Nat := (digits? s.toList).filter (leastSeconds ≤ ·)

def words : List String :=
  ["yesterday", "noon", "midnight", "tea", "pm", "am", "now", "last", "one", "two", "three", "four",
   "five", "six", "seven", "eight", "nine", "ten"]

def months : List String :=
  ["january", "february", "march", "april", "may", "june", "july", "august", "september", "october",
   "november", "december"]

def isWord (w : String) : Bool :=
  w ∈ words || (3 ≤ w.length && months.any fun m => w.toList.isPrefixOf m.toList)

def wordsOf (s : String) : List String :=
  ((s.map fun c => if c.isAlphanum then c.toLower else ' ').toList |> Text.splitChars ' ').map
    String.ofList

/-- The moment that a text speaks of. Any digit makes it one. -/
def ofText? (s : String) : Option Moment :=
  match (calendar? s).or (plain? s) with
  | some n => some (.seconds n)
  | none =>
    if s = "never" then some (.seconds 0)
    else if s.toList.any Char.isDigit || (wordsOf s).any isWord then some .recent
    else none

end Moment

end ApiDrift.Git
