import JaszczurHal.JhCalendar
import Mathlib.Data.List.Basic
import Mathlib.Tactic.IntervalCases

/-!
# Dates and seconds

The seconds of a date and the date of seconds undo each other and keep the
order. The weekday of a date is not read; the weekday that is computed follows
from day to day.
-/

set_option autoImplicit false

namespace JaszczurHal.JhCalendar
open HalStatus Spans

def Leap (year : ℕ) : Prop := 4 ∣ year ∧ (100 ∣ year → 400 ∣ year)

instance (year : ℕ) : Decidable (Leap year) := inferInstanceAs (Decidable (_ ∧ _))

def gregorianDays (year month : ℕ) : ℕ :=
  if month = 2 then if Leap year then 29 else 28
  else if month ∈ [4, 6, 9, 11] then 30
  else 31

structure Valid (d : Datetime) : Prop where
  year : 1 ≤ d.year ∧ d.year ≤ 65535
  month : 1 ≤ d.month ∧ d.month ≤ 12
  day : 1 ≤ d.day ∧ d.day ≤ gregorianDays d.year d.month
  hour : d.hour < 24
  minute : d.minute < 60
  second : d.second < 60
  weekday : d.weekday < 7

def key (d : Datetime) : List ℕ := [d.year, d.month, d.day, d.hour, d.minute, d.second]

theorem isLeapYear_iff (year : ℕ) : isLeapYear year = true ↔ Leap year := by
  unfold isLeapYear Leap
  simp only [Bool.or_eq_true, Bool.and_eq_true, decide_eq_true_eq]
  omega

theorem monthLength_gregorian {month : ℕ} (year : ℕ) (h : 1 ≤ month ∧ month ≤ 12) :
    monthLength year month = gregorianDays year month := by
  unfold monthLength gregorianDays
  simp only [isLeapYear_iff]
  obtain ⟨hlow, hhigh⟩ := h
  by_cases hleap : Leap year
  · simp only [hleap]
    interval_cases month <;> rfl
  · simp only [hleap]
    interval_cases month <;> rfl

theorem daysInMonth_ok {year month : ℕ} (hyear : 1 ≤ year) (h : 1 ≤ month ∧ month ≤ 12) :
    daysInMonth year month = .ok (gregorianDays year month) := by
  unfold daysInMonth JH_CALENDAR_MIN_YEAR
  rw [if_neg (by omega), monthLength_gregorian year h]

theorem validateDatetime_ok (d : Datetime) :
    validateDatetime d JH_CALENDAR_MIN_YEAR JH_CALENDAR_MAX_YEAR = .ok ↔ Valid d := by
  unfold validateDatetime JH_CALENDAR_MIN_YEAR JH_CALENDAR_MAX_YEAR
  rw [if_neg (by decide)]
  split_ifs with hfields
  · constructor
    · intro h
      contradiction
    · intro h
      have hyear := h.year
      have hmonth := h.month
      have hhour := h.hour
      have hminute := h.minute
      have hsecond := h.second
      have hweekday := h.weekday
      omega
  · rw [daysInMonth_ok (by omega) (by omega)]
    dsimp only
    split_ifs with hday
    · constructor
      · intro h
        contradiction
      · intro h
        have hdays := h.day
        omega
    · constructor
      · intro _
        constructor <;> omega
      · intro _
        rfl

theorem daysBeforeYear_succ {year : ℕ} (h : 1 ≤ year) :
    daysBeforeYear (year + 1) = daysBeforeYear year + yearLength year := by
  obtain ⟨previous, rfl⟩ : ∃ n, year = n + 1 := ⟨year - 1, by omega⟩
  have hless : previous / 100 ≤ previous / 4 := Nat.div_le_div_left (by decide) (by decide)
  have hleap := isLeapYear_iff (previous + 1)
  unfold Leap at hleap
  have hcentury : 100 ∣ previous + 1 → 4 ∣ previous + 1 := fun h => Nat.dvd_trans (by decide) h
  have hfour : 400 ∣ previous + 1 → 100 ∣ previous + 1 := fun h => Nat.dvd_trans (by decide) h
  simp only [daysBeforeYear, yearLength, hleap, Nat.add_sub_cancel, Nat.succ_div]
  generalize previous / 4 = quarters at *
  generalize previous / 100 = centuries at *
  generalize previous / 400 = periods at *
  -- the three divisibilities are nested: a year is in one of four classes
  by_cases h4 : 4 ∣ previous + 1
  · by_cases h100 : 100 ∣ previous + 1
    · by_cases h400 : 400 ∣ previous + 1
      · simp [h4, h100, h400]
        omega
      · simp [h4, h100, h400]
        omega
    · have h400 : ¬400 ∣ previous + 1 := fun h => h100 (hfour h)
      simp [h4, h100, h400]
      omega
  · have h100 : ¬100 ∣ previous + 1 := fun h => h4 (hcentury h)
    have h400 : ¬400 ∣ previous + 1 := fun h => h100 (hfour h)
    simp [h4, h100, h400]
    omega

theorem daysBeforeYear_before (count : ℕ) :
    daysBeforeYear (1970 + count) = daysBeforeYear 1970 + before yearLength 1970 count := by
  induction count with
  | zero => rfl
  | succ count ih =>
    rw [before_succ, ← Nat.add_assoc, daysBeforeYear_succ (by omega), ih]
    omega

theorem monthsBefore (year : ℕ) {count : ℕ} (h : count ≤ 11) :
    before (monthLength year) 1 count =
      daysBeforeMonth.getD count 0 + if 1 < count ∧ isLeapYear year then 1 else 0 := by
  cases hleap : isLeapYear year with
  | false => interval_cases count <;> simp [before, monthLength, monthDays, daysBeforeMonth, hleap]
  | true => interval_cases count <;> simp [before, monthLength, monthDays, daysBeforeMonth, hleap]

theorem monthsOfYear (year : ℕ) : before (monthLength year) 1 12 = yearLength year := by
  unfold yearLength
  cases hleap : isLeapYear year <;> simp [before, monthLength, monthDays, hleap]

/-- A date that exists is a place in the months of its year. -/
theorem daysBeforeDate_before {d : Datetime} (h : Valid d) :
    daysBeforeDate d.year d.month d.day =
        before (monthLength d.year) 1 (d.month - 1) + (d.day - 1) ∧
      d.day - 1 < monthLength d.year (1 + (d.month - 1)) := by
  have hmonth := h.month
  have hday := h.day
  have hlast : 1 + (d.month - 1) = d.month := by omega
  constructor
  · rw [monthsBefore d.year (by omega), daysBeforeDate]
    have hsame : 2 < d.month ↔ 1 < d.month - 1 := by omega
    simp only [hsame]
  · rw [hlast, monthLength_gregorian d.year hmonth]
    omega

theorem daysBeforeDate_lt {d : Datetime} (h : Valid d) :
    daysBeforeDate d.year d.month d.day < yearLength d.year := by
  have hmonth := h.month
  have hplace := daysBeforeDate_before h
  have hmono : before (monthLength d.year) 1 (d.month - 1 + 1) ≤ before (monthLength d.year) 1 12 :=
    before_mono (by omega)
  rw [before_succ, monthsOfYear] at hmono
  omega

def dayNumber (d : Datetime) : ℕ :=
  before yearLength 1970 (d.year - 1970) + daysBeforeDate d.year d.month d.day

def secondOfDay (d : Datetime) : ℕ := d.hour * 3600 + d.minute * 60 + d.second

theorem secondOfDay_lt {d : Datetime} (h : Valid d) : secondOfDay d < 86400 := by
  have hhour := h.hour
  have hminute := h.minute
  have hsecond := h.second
  unfold secondOfDay
  omega

theorem datetimeToEpoch_valid {d : Datetime} (h : Valid d) (hyear : 1970 ≤ d.year) :
    datetimeToEpoch d = .ok (dayNumber d * 86400 + secondOfDay d) := by
  have hcheck := (validateDatetime_ok d).mpr h
  have hyears := daysBeforeYear_before (d.year - 1970)
  rw [show 1970 + (d.year - 1970) = d.year by omega] at hyears
  unfold datetimeToEpoch
  rw [hcheck, if_neg (by simp), if_neg (by unfold JH_CALENDAR_UNIX_EPOCH_YEAR; omega)]
  simp only [JH_CALENDAR_UNIX_EPOCH_YEAR, JH_SECONDS_PER_DAY, hyears, Nat.add_sub_cancel_left,
    dayNumber, secondOfDay, Nat.add_assoc]

/-- Which dates have seconds, and which are refused. -/
theorem datetimeToEpoch_refuses (d : Datetime) :
    (datetimeToEpoch d = .error .einval ↔ ¬Valid d) ∧
      (datetimeToEpoch d = .error .eoverflow ↔ Valid d ∧ d.year < 1970) := by
  by_cases h : Valid d
  · by_cases hyear : d.year < 1970
    · have hcheck := (validateDatetime_ok d).mpr h
      have hresult : datetimeToEpoch d = .error .eoverflow := by
        unfold datetimeToEpoch
        rw [hcheck, if_neg (by simp), if_pos (show d.year < JH_CALENDAR_UNIX_EPOCH_YEAR from hyear)]
      simp [hresult, h, hyear]
    · simp [datetimeToEpoch_valid h (by omega), h, hyear]
  · have hresult : datetimeToEpoch d = .error .einval := by
      unfold datetimeToEpoch
      rw [if_pos (fun hcheck => h ((validateDatetime_ok d).mp hcheck))]
    simp [hresult, h]

theorem datetimeToEpoch_ok {d : Datetime} {epoch : ℕ} (h : datetimeToEpoch d = .ok epoch) :
    Valid d ∧ 1970 ≤ d.year ∧ epoch = dayNumber d * 86400 + secondOfDay d := by
  have hrefuses := datetimeToEpoch_refuses d
  have hvalid : Valid d := by
    by_contra hnot
    rw [hrefuses.1.mpr hnot] at h
    contradiction
  have hyear : 1970 ≤ d.year := by
    by_contra hnot
    rw [hrefuses.2.mpr ⟨hvalid, by omega⟩] at h
    contradiction
  rw [datetimeToEpoch_valid hvalid hyear] at h
  cases h
  exact ⟨hvalid, hyear, rfl⟩

theorem dayOfWeek_valid {d : Datetime} (h : Valid d) :
    dayOfWeek d.year d.month d.day =
      .ok ((daysBeforeYear d.year + daysBeforeDate d.year d.month d.day + 1) % 7) := by
  have hdate : Valid ⟨d.year, d.month, d.day, 0, 0, 0, 0⟩ := by
    constructor
    · exact h.year
    · exact h.month
    · exact h.day
    all_goals simp
  unfold dayOfWeek
  rw [(validateDatetime_ok _).mpr hdate, if_neg (by simp)]

def daysThrough (maxYear : ℕ) : ℕ := before yearLength 1970 (maxYear + 1 - 1970)

def lastDatetime (maxYear : ℕ) : Datetime := ⟨maxYear, 12, 31, 23, 59, 59, 0⟩

theorem lastDatetime_valid {maxYear : ℕ} (h : 1970 ≤ maxYear ∧ maxYear ≤ 65535) :
    Valid (lastDatetime maxYear) := by
  constructor
  · exact ⟨by simp only [lastDatetime]; omega, h.2⟩
  · simp [lastDatetime]
  · simp [lastDatetime, gregorianDays]
  all_goals simp [lastDatetime]

theorem lastDatetime_epoch {maxYear : ℕ} (h : 1970 ≤ maxYear ∧ maxYear ≤ 65535) :
    datetimeToEpoch (lastDatetime maxYear) = .ok (daysThrough maxYear * 86400 - 1) := by
  have hdate : daysBeforeDate maxYear 12 31 + 1 = yearLength maxYear := by
    simp only [daysBeforeDate, yearLength, daysBeforeMonth]
    cases isLeapYear maxYear <;> rfl
  have hyears : daysThrough maxYear =
      before yearLength 1970 (maxYear - 1970) + yearLength maxYear := by
    unfold daysThrough
    rw [show maxYear + 1 - 1970 = maxYear - 1970 + 1 by omega, before_succ,
      show 1970 + (maxYear - 1970) = maxYear by omega]
  rw [datetimeToEpoch_valid (lastDatetime_valid h) h.1]
  simp only [dayNumber, secondOfDay, lastDatetime, Except.ok.injEq]
  omega

/-- What the code computes from the place of an epoch in the years and months. -/
theorem epochToDatetime_place {maxYear years month dayOfMonth second weekday : ℕ}
    (hmax : 1970 ≤ maxYear ∧ maxYear ≤ 65535) (hyears : 1970 + years ≤ maxYear)
    (hmonth : month ≤ 11) (hday : dayOfMonth < monthLength (1970 + years) (1 + month))
    (hsecond : second < 86400)
    (hweekday : dayOfWeek (1970 + years) (1 + month) (dayOfMonth + 1) = .ok weekday) :
    epochToDatetime ((before yearLength 1970 years +
        (before (monthLength (1970 + years)) 1 month + dayOfMonth)) * 86400 + second) maxYear =
      .ok ⟨1970 + years, 1 + month, dayOfMonth + 1, second / 3600, second % 3600 / 60,
        second % 3600 % 60, weekday⟩ := by
  have hyear : before (monthLength (1970 + years)) 1 month + dayOfMonth <
      yearLength (1970 + years) := by
    have hmono : before (monthLength (1970 + years)) 1 (month + 1) ≤
        before (monthLength (1970 + years)) 1 12 := before_mono (by omega)
    rw [before_succ, monthsOfYear] at hmono
    omega
  have hthrough : before yearLength 1970 (years + 1) ≤ daysThrough maxYear := before_mono (by omega)
  rw [before_succ] at hthrough
  have hmaximum := lastDatetime_epoch hmax
  have hdays : ∀ days, (days * 86400 + second) / 86400 = days := by
    intro days
    omega
  have hrest : ∀ days, (days * 86400 + second) % 86400 = second := by
    intro days
    omega
  unfold lastDatetime at hmaximum
  unfold epochToDatetime JH_SECONDS_PER_DAY JH_CALENDAR_UNIX_EPOCH_YEAR
  rw [if_neg (by omega), hmaximum]
  dsimp only
  rw [if_neg (by omega), hdays, hrest, locate_before (by omega) hyear]
  dsimp only
  rw [if_neg (by omega), locate_before (by omega) hday]
  dsimp only
  rw [if_neg (by omega), hweekday]

theorem epoch_place {maxYear epoch : ℕ} (hmax : 1970 ≤ maxYear ∧ maxYear ≤ 65535)
    (h : epoch < daysThrough maxYear * 86400) :
    ∃ d, Valid d ∧ 1970 ≤ d.year ∧ d.year ≤ maxYear ∧ epoch = dayNumber d * 86400 + secondOfDay d := by
  obtain ⟨years, daysOfYear, _, hyears, hdays, hyear⟩ :=
    @locate_ends yearLength (maxYear + 1 - 1970) 1970 (epoch / 86400)
  have hinside : years < maxYear + 1 - 1970 := by
    by_contra hover
    have hsame : years = maxYear + 1 - 1970 := by omega
    rw [hsame] at hdays
    unfold daysThrough at h
    omega
  obtain ⟨month, dayOfMonth, _, hmonths, hrest, hmonth⟩ :=
    @locate_ends (monthLength (1970 + years)) 12 1 daysOfYear
  have hless := hyear hinside
  have hmonth12 : month < 12 := by
    by_contra hover
    have hsame : month = 12 := by omega
    rw [hsame, monthsOfYear] at hrest
    omega
  have hday := hmonth hmonth12
  rw [monthLength_gregorian _ (by omega)] at hday
  have hvalid : Valid ⟨1970 + years, 1 + month, dayOfMonth + 1, epoch % 86400 / 3600,
      epoch % 86400 % 3600 / 60, epoch % 86400 % 3600 % 60, 0⟩ := by
    constructor
    all_goals dsimp only
    all_goals omega
  have hplace := (daysBeforeDate_before hvalid).1
  simp only [Nat.add_sub_cancel_left, Nat.add_sub_cancel] at hplace
  refine ⟨_, hvalid, by dsimp only; omega, by dsimp only; omega, ?_⟩
  simp only [dayNumber, secondOfDay, hplace, Nat.add_sub_cancel_left]
  omega

def weekdayOf (d : Datetime) : ℕ :=
  (daysBeforeYear d.year + daysBeforeDate d.year d.month d.day + 1) % 7

/-- The date of the seconds of a date is the date with its own weekday. -/
theorem epochToDatetime_date {d : Datetime} {maxYear : ℕ} (h : Valid d) (hyear : 1970 ≤ d.year)
    (hmax : d.year ≤ maxYear ∧ maxYear ≤ 65535) :
    epochToDatetime (dayNumber d * 86400 + secondOfDay d) maxYear =
      .ok { d with weekday := weekdayOf d } := by
  have hmonth := h.month
  have hday := h.day
  have hhour := h.hour
  have hminute := h.minute
  have hsecond := h.second
  have hplace := daysBeforeDate_before h
  have hyears : 1970 + (d.year - 1970) = d.year := by omega
  have hmonths : 1 + (d.month - 1) = d.month := by omega
  have hdays : d.day - 1 + 1 = d.day := by omega
  have hparts : secondOfDay d / 3600 = d.hour ∧ secondOfDay d % 3600 / 60 = d.minute ∧
      secondOfDay d % 3600 % 60 = d.second := by
    unfold secondOfDay
    omega
  have hresult := @epochToDatetime_place maxYear (d.year - 1970) (d.month - 1) (d.day - 1)
    (secondOfDay d) (weekdayOf d) (by omega) (by omega) (by omega)
    (by rw [hyears]; exact hplace.2) (secondOfDay_lt h)
    (by rw [hyears, hmonths, hdays]; exact dayOfWeek_valid h)
  rw [hyears, hmonths, hdays, ← hplace.1, hparts.1, hparts.2.1, hparts.2.2] at hresult
  exact hresult

theorem weekdayOf_lt (d : Datetime) : weekdayOf d < 7 := Nat.mod_lt _ (by decide)

theorem weekday_valid {d : Datetime} (h : Valid d) : Valid { d with weekday := weekdayOf d } :=
  ⟨h.year, h.month, h.day, h.hour, h.minute, h.second, weekdayOf_lt d⟩

/-- Seconds up to the last one have a date, and no later ones. -/
theorem epochToDatetime_range {maxYear epoch : ℕ} (hmax : 1970 ≤ maxYear ∧ maxYear ≤ 65535) :
    (epoch < daysThrough maxYear * 86400 → ∃ d, epochToDatetime epoch maxYear = .ok d) ∧
      (daysThrough maxYear * 86400 ≤ epoch → epochToDatetime epoch maxYear = .error .eoverflow) := by
  constructor
  · intro hless
    obtain ⟨d, hvalid, hyear, hlast, hepoch⟩ := epoch_place hmax hless
    rw [hepoch, epochToDatetime_date hvalid hyear ⟨hlast, hmax.2⟩]
    exact ⟨_, rfl⟩
  · intro hover
    have hmaximum := lastDatetime_epoch hmax
    have hpositive : before yearLength 1970 1 ≤ daysThrough maxYear := before_mono (by omega)
    have hone : before yearLength 1970 1 = 365 := rfl
    unfold lastDatetime at hmaximum
    unfold epochToDatetime
    rw [if_neg (show ¬maxYear < JH_CALENDAR_UNIX_EPOCH_YEAR from Nat.not_lt.mpr hmax.1), hmaximum]
    dsimp only
    rw [if_pos (by omega)]

theorem epochToDatetime_year {maxYear epoch : ℕ} {d : Datetime}
    (h : epochToDatetime epoch maxYear = .ok d) : 1970 ≤ maxYear ∧ maxYear ≤ 65535 := by
  unfold epochToDatetime at h
  split_ifs at h with hlow
  split at h
  · contradiction
  · rename_i maximum hmaximum
    have hvalid := (datetimeToEpoch_ok hmaximum).1.year
    exact ⟨Nat.not_lt.mp hlow, hvalid.2⟩

/-- The date of seconds has these seconds and its own weekday. -/
theorem epochToDatetime_ok {maxYear epoch : ℕ} {d : Datetime}
    (h : epochToDatetime epoch maxYear = .ok d) :
    datetimeToEpoch d = .ok epoch ∧ d.year ≤ maxYear ∧ d.weekday = weekdayOf d := by
  have hmax := epochToDatetime_year h
  have hless : epoch < daysThrough maxYear * 86400 := by
    by_contra hover
    rw [(epochToDatetime_range hmax).2 (by omega)] at h
    contradiction
  obtain ⟨date, hvalid, hyear, hlast, hepoch⟩ := epoch_place hmax hless
  rw [hepoch, epochToDatetime_date hvalid hyear ⟨hlast, hmax.2⟩] at h
  cases h
  rw [datetimeToEpoch_valid (weekday_valid hvalid) hyear, hepoch]
  exact ⟨rfl, hlast, rfl⟩

theorem daysBeforeDate_order {d d' : Datetime} (h : Valid d) (h' : Valid d')
    (hyear : d.year = d'.year) :
    daysBeforeDate d.year d.month d.day < daysBeforeDate d'.year d'.month d'.day ↔
      d.month < d'.month ∨ d.month = d'.month ∧ d.day < d'.day := by
  have hplace := daysBeforeDate_before h
  have hplace' := daysBeforeDate_before h'
  have hmonth := h.month
  have hmonth' := h'.month
  have hday := h.day
  have hday' := h'.day
  rw [hplace.1, hplace'.1, hyear] at *
  rw [place_lt hplace.2 hplace'.2]
  omega

theorem dayNumber_order {d d' : Datetime} (h : Valid d) (h' : Valid d') (hyear : 1970 ≤ d.year)
    (hyear' : 1970 ≤ d'.year) : dayNumber d < dayNumber d' ↔ d.year < d'.year ∨
      d.year = d'.year ∧ (d.month < d'.month ∨ d.month = d'.month ∧ d.day < d'.day) := by
  have hplace : daysBeforeDate d.year d.month d.day < yearLength (1970 + (d.year - 1970)) := by
    rw [Nat.add_sub_cancel' hyear]
    exact daysBeforeDate_lt h
  have hplace' : daysBeforeDate d'.year d'.month d'.day < yearLength (1970 + (d'.year - 1970)) := by
    rw [Nat.add_sub_cancel' hyear']
    exact daysBeforeDate_lt h'
  unfold dayNumber
  rw [place_lt hplace hplace']
  clear hplace hplace'
  constructor
  · intro horder
    cases horder with
    | inl hless => exact Or.inl (by omega)
    | inr hsame =>
      have heq : d.year = d'.year := by omega
      exact Or.inr ⟨heq, (daysBeforeDate_order h h' heq).mp hsame.2⟩
  · intro horder
    cases horder with
    | inl hless => exact Or.inl (by omega)
    | inr hsame => exact Or.inr ⟨by omega, (daysBeforeDate_order h h' hsame.1).mpr hsame.2⟩

theorem secondOfDay_order {d d' : Datetime} (h : Valid d) (h' : Valid d') :
    secondOfDay d < secondOfDay d' ↔ d.hour < d'.hour ∨ d.hour = d'.hour ∧
      (d.minute < d'.minute ∨ d.minute = d'.minute ∧ d.second < d'.second) := by
  have hminute := h.minute
  have hminute' := h'.minute
  have hsecond := h.second
  have hsecond' := h'.second
  unfold secondOfDay
  omega

theorem datetimeToEpoch_order {d d' : Datetime} {epoch epoch' : ℕ}
    (h : datetimeToEpoch d = .ok epoch) (h' : datetimeToEpoch d' = .ok epoch') :
    epoch < epoch' ↔ key d < key d' := by
  obtain ⟨hvalid, hyear, hepoch⟩ := datetimeToEpoch_ok h
  obtain ⟨hvalid', hyear', hepoch'⟩ := datetimeToEpoch_ok h'
  have hdays := dayNumber_order hvalid hvalid' hyear hyear'
  have hdays' := dayNumber_order hvalid' hvalid hyear' hyear
  have hsecond := secondOfDay_lt hvalid
  have hsecond' := secondOfDay_lt hvalid'
  have hsplit : epoch < epoch' ↔ dayNumber d < dayNumber d' ∨
      (¬dayNumber d' < dayNumber d ∧ secondOfDay d < secondOfDay d') := by omega
  rw [hsplit, hdays, hdays', secondOfDay_order hvalid hvalid']
  simp only [key, List.cons_lt_cons_iff, List.not_lt_nil, and_false, or_false]
  clear hsplit hdays hdays' hsecond hsecond' hepoch hepoch' hvalid hvalid'
  generalize (d.hour < d'.hour ∨ d.hour = d'.hour ∧
    (d.minute < d'.minute ∨ d.minute = d'.minute ∧ d.second < d'.second)) = later
  by_cases hlater : later
  · simp only [hlater, and_true]
    omega
  · simp only [hlater, and_false, or_false]

def nextDay (d : Datetime) : Datetime :=
  if d.day < gregorianDays d.year d.month then { d with day := d.day + 1 }
  else if d.month < 12 then { d with month := d.month + 1, day := 1 }
  else { d with year := d.year + 1, month := 1, day := 1 }

theorem nextDay_weekday {d : Datetime} (h : Valid d) :
    weekdayOf (nextDay d) = (weekdayOf d + 1) % 7 := by
  have hmonth := h.month
  have hday := h.day
  have hyear := h.year
  have hplace := (daysBeforeDate_before h).1
  have hlength := monthLength_gregorian d.year hmonth
  have hnext : daysBeforeYear (nextDay d).year +
      daysBeforeDate (nextDay d).year (nextDay d).month (nextDay d).day =
        daysBeforeYear d.year + daysBeforeDate d.year d.month d.day + 1 := by
    unfold nextDay
    split_ifs with hinside hyearEnd
    · simp only [daysBeforeDate]
      omega
    · have hmonths := monthsBefore d.year (show d.month ≤ 11 by omega)
      have hstep := @before_succ (monthLength d.year) 1 (d.month - 1)
      rw [show d.month - 1 + 1 = d.month by omega, show 1 + (d.month - 1) = d.month by omega,
        hmonths] at hstep
      have hsame : 2 < d.month + 1 ↔ 1 < d.month := by omega
      simp only [daysBeforeDate, Nat.add_sub_cancel, hsame] at hplace ⊢
      omega
    · have hstep := @before_succ (monthLength d.year) 1 (d.month - 1)
      rw [show d.month - 1 + 1 = 12 by omega, monthsOfYear,
        show 1 + (d.month - 1) = d.month by omega] at hstep
      have hfirst : daysBeforeDate (d.year + 1) 1 1 = 0 := by
        simp [daysBeforeDate, daysBeforeMonth]
      rw [daysBeforeYear_succ hyear.1, hfirst]
      omega
  unfold weekdayOf
  rw [hnext]
  omega

/-- What a date loses on its way through seconds is the weekday that came with it. -/
theorem conversions_inverse :
    (∀ d, (datetimeToEpoch d = .error .einval ↔ ¬Valid d) ∧
      (datetimeToEpoch d = .error .eoverflow ↔ Valid d ∧ d.year < 1970) ∧
      ((∃ epoch, datetimeToEpoch d = .ok epoch) ↔ Valid d ∧ 1970 ≤ d.year)) ∧
    (∀ d epoch maxYear, datetimeToEpoch d = .ok epoch → d.year ≤ maxYear → maxYear ≤ 65535 →
      epochToDatetime epoch maxYear = .ok { d with weekday := weekdayOf d }) ∧
    (∀ maxYear, 1970 ≤ maxYear → maxYear ≤ 65535 →
      ∃ last, datetimeToEpoch (lastDatetime maxYear) = .ok last ∧
        ∀ epoch, (epoch ≤ last → ∃ d, epochToDatetime epoch maxYear = .ok d) ∧
          (last < epoch → epochToDatetime epoch maxYear = .error .eoverflow)) ∧
    (∀ epoch maxYear d, epochToDatetime epoch maxYear = .ok d → datetimeToEpoch d = .ok epoch ∧
      d.year ≤ maxYear ∧ dayOfWeek d.year d.month d.day = .ok d.weekday) ∧
    (∀ d d' epoch epoch', datetimeToEpoch d = .ok epoch → datetimeToEpoch d' = .ok epoch' →
      (epoch < epoch' ↔ key d < key d')) ∧
    (∀ d d' epoch epoch' maxYear, epochToDatetime epoch maxYear = .ok d →
      epochToDatetime epoch' maxYear = .ok d' → (epoch < epoch' ↔ key d < key d')) ∧
    (∀ d, Valid d → Valid (nextDay d) → ∃ weekday, dayOfWeek d.year d.month d.day = .ok weekday ∧
      dayOfWeek (nextDay d).year (nextDay d).month (nextDay d).day = .ok ((weekday + 1) % 7)) ∧
    dayOfWeek 1 1 1 = .ok 1 := by
  refine ⟨?_, ?_, ?_, ?_, ?_, ?_, ?_, by decide⟩
  · intro d
    obtain ⟨hinvalid, hearly⟩ := datetimeToEpoch_refuses d
    refine ⟨hinvalid, hearly, ?_, ?_⟩
    · rintro ⟨epoch, h⟩
      obtain ⟨hvalid, hyear, _⟩ := datetimeToEpoch_ok h
      exact ⟨hvalid, hyear⟩
    · rintro ⟨hvalid, hyear⟩
      exact ⟨_, datetimeToEpoch_valid hvalid hyear⟩
  · intro d epoch maxYear h hlast hmax
    obtain ⟨hvalid, hyear, hepoch⟩ := datetimeToEpoch_ok h
    rw [hepoch]
    exact epochToDatetime_date hvalid hyear ⟨hlast, hmax⟩
  · intro maxYear hlow hhigh
    have hrange := fun epoch => @epochToDatetime_range maxYear epoch ⟨hlow, hhigh⟩
    have hpositive : before yearLength 1970 1 ≤ daysThrough maxYear := before_mono (by omega)
    have hone : before yearLength 1970 1 = 365 := rfl
    refine ⟨_, lastDatetime_epoch ⟨hlow, hhigh⟩, ?_⟩
    intro epoch
    constructor
    · intro hle
      exact (hrange epoch).1 (by omega)
    · intro hless
      exact (hrange epoch).2 (by omega)
  · intro epoch maxYear d h
    have hdate := epochToDatetime_ok h
    have hvalid := (datetimeToEpoch_ok hdate.1).1
    rw [dayOfWeek_valid hvalid]
    exact ⟨hdate.1, hdate.2.1, by rw [hdate.2.2]; rfl⟩
  · intro d d' epoch epoch' h h'
    exact datetimeToEpoch_order h h'
  · intro d d' epoch epoch' maxYear h h'
    exact datetimeToEpoch_order (epochToDatetime_ok h).1 (epochToDatetime_ok h').1
  · intro d hvalid hnext
    refine ⟨_, dayOfWeek_valid hvalid, ?_⟩
    rw [dayOfWeek_valid hnext]
    exact congrArg Except.ok (nextDay_weekday hvalid)

theorem conversions_inverse_leap :
    epochToDatetime 951827696 2099 = .ok ⟨2000, 2, 29, 12, 34, 56, 2⟩ :=
  conversions_inverse.2.1 ⟨2000, 2, 29, 12, 34, 56, 0⟩ 951827696 2099 (by decide) (by decide)
    (by decide)

/-- The first second was on a Thursday, and a date of it that says Sunday is accepted. -/
theorem conversions_not_inverse : ∃ d, datetimeToEpoch d = .ok 0 ∧
    epochToDatetime 0 2099 ≠ .ok d :=
  ⟨⟨1970, 1, 1, 0, 0, 0, 0⟩, by decide, by decide⟩

end JaszczurHal.JhCalendar
