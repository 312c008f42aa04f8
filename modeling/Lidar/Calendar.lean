/-!
# Dates

A header stores the day of its creation as a year and the number of the day in that year. Dates are
those of the Gregorian calendar, extended to all years.
-/
namespace Lidar

structure Date where
  year : Int
  month : Nat
  day : Nat
  deriving DecidableEq, Repr

namespace Date

def isLeap (year : Int) : Bool := year % 4 == 0 && (year % 100 != 0 || year % 400 == 0)

def monthLengths (year : Int) : List Nat :=
  [31, if isLeap year then 29 else 28, 31, 30, 31, 30, 31, 31, 30, 31, 30, 31]

def dayOfYear (d : Date) : Nat := ((monthLengths d.year).take (d.month - 1)).foldl (· + ·) d.day

/-- The month and the day in it, counting days through these months. -/
def inMonths : List Nat → Nat → Nat → Option (Nat × Nat)
  | [], _, _ => none
  | length :: later, month, day =>
    if day ≤ length then some (month, day) else inMonths later (month + 1) (day - length)

def ofDayOfYear? (year : Int) (day : Nat) : Option Date :=
  if day = 0 then none
  else (inMonths (monthLengths year) 1 day).map fun (month, day) => ⟨year, month, day⟩

def padded (width n : Nat) : String :=
  let digits := (toString n).toList
  String.ofList (List.replicate (width - digits.length) '0' ++ digits)

/-- The text `2017-12-31`. A year outside the four-digit ones carries its sign. -/
def text (d : Date) : String :=
  let year :=
    if 0 ≤ d.year ∧ d.year ≤ 9999 then padded 4 d.year.natAbs
    else (if 0 ≤ d.year then "+" else "-") ++ padded 4 d.year.natAbs
  s!"{year}-{padded 2 d.month}-{padded 2 d.day}"

end Date

end Lidar
