/-
Dates: a time value and its ISO form.

A time value is a number of milliseconds since the epoch, within 100 000 000 days of it, as
ECMAScript has it.  `Date.parse` is left to the engine wherever it is used: beside the ISO
form it may read what it likes.
-/
import HuginAgent.Js.Number

namespace HuginAgent

/-- A time value that is not NaN. -/
structure TimeValue where
  ms : Int
  lower : -8640000000000000 ≤ ms
  upper : ms ≤ 8640000000000000
deriving DecidableEq

/-- `n` in at least `width` digits. -/
def padded (width n : Nat) : JsString :=
  List.replicate (width - (digitUnits n).length) (unit '0') ++ digitUnits n

/-- Year, month and day of the day `days` after 1970-01-01 in the Gregorian calendar; a year is
counted from the first of March, so that the leap day is its last. -/
def civilDate (days : Int) : Int × Nat × Nat :=
  let z := days + 719468
  let era := z / 146097
  let dayOfEra := (z % 146097).toNat
  let yearOfEra := (dayOfEra - dayOfEra / 1460 + dayOfEra / 36524 - dayOfEra / 146096) / 365
  let dayOfYear := dayOfEra - (365 * yearOfEra + yearOfEra / 4 - yearOfEra / 100)
  let month := (5 * dayOfYear + 2) / 153
  let day := dayOfYear - (153 * month + 2) / 5 + 1
  if month < 10 then (yearOfEra + era * 400, month + 3, day)
  else (yearOfEra + era * 400 + 1, month - 9, day)

/-- The year of a date: four digits, or a sign and six. -/
def isoYear (year : Int) : JsString :=
  if 0 ≤ year ∧ year ≤ 9999 then padded 4 year.toNat
  else (if year < 0 then unit '-' else unit '+') :: padded 6 year.natAbs

namespace TimeValue

def year (t : TimeValue) : Int := (civilDate (t.ms / 86400000)).1

/-- `new Date(t).toISOString()`. -/
def toISOString (t : TimeValue) : JsString :=
  let date := civilDate (t.ms / 86400000)
  let inDay := (t.ms % 86400000).toNat
  isoYear date.1 ++ unit '-' :: padded 2 date.2.1 ++ unit '-' :: padded 2 date.2.2 ++
    unit 'T' :: padded 2 (inDay / 3600000) ++ unit ':' :: padded 2 (inDay / 60000 % 60) ++
    unit ':' :: padded 2 (inDay / 1000 % 60) ++ unit '.' :: padded 3 (inDay % 1000) ++ [unit 'Z']

example : toISOString ⟨1783296014123, by decide, by decide⟩ = js "2026-07-06T00:00:14.123Z" := by
  decide +kernel

example : toISOString ⟨-62198755200000, by decide, by decide⟩ = js "-000001-01-01T00:00:00.000Z" := by
  decide +kernel

end TimeValue

end HuginAgent
