import JaszczurHal.HalStatus
import JaszczurHal.Spans

/-!
# The calendar

Dates of the proleptic Gregorian calendar and seconds since 1970. The numbers of
a date are kept in small unsigned fields; a larger number is rejected here as no
field can hold it.
-/

set_option autoImplicit false

namespace JaszczurHal.JhCalendar
open HalStatus

def JH_CALENDAR_MIN_YEAR : ℕ := 1
def JH_CALENDAR_UNIX_EPOCH_YEAR : ℕ := 1970
def JH_CALENDAR_MAX_YEAR : ℕ := 65535
def JH_SECONDS_PER_DAY : ℕ := 86400

structure Datetime where
  year : ℕ
  month : ℕ
  day : ℕ
  hour : ℕ
  minute : ℕ
  second : ℕ
  weekday : ℕ
  deriving DecidableEq, Repr

def daysBeforeMonth : List ℕ := [0, 31, 59, 90, 120, 151, 181, 212, 243, 273, 304, 334]

def monthDays : List ℕ := [31, 28, 31, 30, 31, 30, 31, 31, 30, 31, 30, 31]

def isLeapYear (year : ℕ) : Bool :=
  (decide (year % 4 = 0) && decide (year % 100 ≠ 0)) || decide (year % 400 = 0)

def daysBeforeYear (year : ℕ) : ℕ :=
  let previousYear := year - 1
  previousYear * 365 + previousYear / 4 - previousYear / 100 + previousYear / 400

def monthLength (year month : ℕ) : ℕ :=
  monthDays.getD (month - 1) 0 + if month = 2 ∧ isLeapYear year then 1 else 0

def daysInMonth (year month : ℕ) : Except Status ℕ :=
  if year < JH_CALENDAR_MIN_YEAR ∨ month < 1 ∨ 12 < month then .error .einval
  else .ok (monthLength year month)

def validateDatetime (d : Datetime) (minYear maxYear : ℕ) : Status :=
  if minYear < JH_CALENDAR_MIN_YEAR ∨ maxYear < minYear then .einval
  else if d.year < minYear ∨ maxYear < d.year ∨ d.month < 1 ∨ 12 < d.month ∨ 23 < d.hour ∨
      59 < d.minute ∨ 59 < d.second ∨ 6 < d.weekday then .einval
  else
    match daysInMonth d.year d.month with
    | .error _ => .einval
    | .ok days => if d.day < 1 ∨ days < d.day then .einval else .ok

def daysBeforeDate (year month day : ℕ) : ℕ :=
  daysBeforeMonth.getD (month - 1) 0 + (if 2 < month ∧ isLeapYear year then 1 else 0) + (day - 1)

def dayOfWeek (year month day : ℕ) : Except Status ℕ :=
  if validateDatetime ⟨year, month, day, 0, 0, 0, 0⟩ JH_CALENDAR_MIN_YEAR JH_CALENDAR_MAX_YEAR ≠ .ok
  then .error .einval
  else .ok ((daysBeforeYear year + daysBeforeDate year month day + 1) % 7)

def datetimeToEpoch (d : Datetime) : Except Status ℕ :=
  if validateDatetime d JH_CALENDAR_MIN_YEAR JH_CALENDAR_MAX_YEAR ≠ .ok then .error .einval
  else if d.year < JH_CALENDAR_UNIX_EPOCH_YEAR then .error .eoverflow
  else
    let days := daysBeforeYear d.year - daysBeforeYear JH_CALENDAR_UNIX_EPOCH_YEAR +
      daysBeforeDate d.year d.month d.day
    .ok (days * JH_SECONDS_PER_DAY + d.hour * 3600 + d.minute * 60 + d.second)

def yearLength (year : ℕ) : ℕ := if isLeapYear year then 366 else 365

def epochToDatetime (epoch maxYear : ℕ) : Except Status Datetime :=
  if maxYear < JH_CALENDAR_UNIX_EPOCH_YEAR then .error .einval
  else
    match datetimeToEpoch ⟨maxYear, 12, 31, 23, 59, 59, 0⟩ with
    | .error _ => .error .einval
    | .ok maximumEpoch =>
      if maximumEpoch < epoch then .error .eoverflow
      else
        -- both loops subtract the lengths of whole years and whole months
        let (year, daysOfYear) := Spans.locate yearLength (maxYear + 1 - JH_CALENDAR_UNIX_EPOCH_YEAR)
          JH_CALENDAR_UNIX_EPOCH_YEAR (epoch / JH_SECONDS_PER_DAY)
        if maxYear < year then .error .eoverflow
        else
          let (month, daysOfMonth) := Spans.locate (monthLength year) 12 1 daysOfYear
          if 12 < month then .error .eoverflow
          else
            let secondsOfDay := epoch % JH_SECONDS_PER_DAY
            match dayOfWeek year month (daysOfMonth + 1) with
            | .error _ => .error .einval
            | .ok weekday =>
              .ok ⟨year, month, daysOfMonth + 1, secondsOfDay / 3600, secondsOfDay % 3600 / 60,
                secondsOfDay % 3600 % 60, weekday⟩

example : (datetimeToEpoch ⟨2000, 2, 29, 12, 34, 56, 0⟩).toOption = some 951827696 ∧
    (epochToDatetime 4102444799 2099).toOption = some ⟨2099, 12, 31, 23, 59, 59, 4⟩ := by
  decide

end JaszczurHal.JhCalendar
