/-
  `Date.prototype.toISOString` for times from the epoch on.

  The civil date of a day number is computed with years that start in March, in the 400-year
  cycle of the calendar.
-/
import Mathlib.Tactic.Common

namespace NexusCode.Lib.JsDate

/-- A day of the proleptic Gregorian calendar. -/
structure Civil where
  year : Nat
  month : Nat
  day : Nat

/-- The date of the `days`-th day after 1970-01-01. -/
def civilOfDays (days : Nat) : Civil :=
  let shifted := days + 719468
  let dayOfEra := shifted % 146097
  let yearOfEra := (dayOfEra - dayOfEra / 1460 + dayOfEra / 36524 - dayOfEra / 146096) / 365
  let dayOfYear := dayOfEra - (365 * yearOfEra + yearOfEra / 4 - yearOfEra / 100)
  let fromMarch := (5 * dayOfYear + 2) / 153
  let month := if fromMarch < 10 then fromMarch + 3 else fromMarch - 9
  { year := yearOfEra + shifted / 146097 * 400 + (if month ≤ 2 then 1 else 0)
    month
    day := dayOfYear - (153 * fromMarch + 2) / 5 + 1 }

/-- A number with at least `width` digits. -/
def padded (width n : Nat) : String :=
  let digits := (Nat.toDigits 10 n)
  String.ofList (List.replicate (width - digits.length) '0' ++ digits)

/-- `new Date(ms).toISOString()`; a `RangeError` past the last representable time. -/
def toISOString (ms : Nat) : Option String :=
  if 8640000000000000 < ms then none
  else
    let civil := civilOfDays (ms / 86400000)
    let year := if civil.year ≤ 9999 then padded 4 civil.year else "+" ++ padded 6 civil.year
    let inDay := ms % 86400000
    some (year ++ "-" ++ padded 2 civil.month ++ "-" ++ padded 2 civil.day ++ "T" ++
      padded 2 (inDay / 3600000) ++ ":" ++ padded 2 (inDay / 60000 % 60) ++ ":" ++
      padded 2 (inDay / 1000 % 60) ++ "." ++ padded 3 (inDay % 1000) ++ "Z")

example : toISOString 1709210096789 = some "2024-02-29T12:34:56.789Z" := by decide +kernel

end NexusCode.Lib.JsDate
