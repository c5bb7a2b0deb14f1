import Wfe.Library.Lexicographic
import Mathlib.Data.Nat.Find

/-!
# Civil time

The dates of the proleptic Gregorian calendar, with the time of the day to the nanosecond and
without leap seconds. A civil time is an instant, counted in nanoseconds from the start of 1970, and
every instant is one civil time. Civil times are in the order of their instants, from the year down
to the nanosecond.

## Main definitions

* `CivilTime`: a date with a time of the day
* `CivilTime.instant`: its nanoseconds since 1970
* `CivilTime.ofInstant`: the civil time of an instant

## Main results

* `CivilTime.cmp_instant`: civil times compare field by field
* `CivilTime.instant_ofInstant`, `CivilTime.ofInstant_instant`: instants and civil times correspond
-/

namespace Calendar

/-! ## Years and months -/

/-- Every fourth year is a leap year, but of the hundredths only every fourth. -/
def isLeap (y : ℤ) : Bool := y % 4 = 0 ∧ (y % 100 ≠ 0 ∨ y % 400 = 0)

/-- The days from the start of the year 0 to the start of the year. -/
def daysBeforeYear (y : ℤ) : ℤ := 365 * y + (y + 3) / 4 - (y + 99) / 100 + (y + 399) / 400

/-- The days of a month; months are counted from 1. -/
def daysInMonth (leap : Bool) : ℕ → ℕ
  | 2 => if leap then 29 else 28
  | 4 | 6 | 9 | 11 => 30
  | _ => 31

/-- The days of the year in the first months. -/
def daysOfMonths (leap : Bool) : ℕ → ℕ
  | 0 => 0
  | m + 1 => daysOfMonths leap m + daysInMonth leap (m + 1)

theorem daysBeforeYear_succ (y : ℤ) :
    daysBeforeYear (y + 1) = daysBeforeYear y + daysOfMonths (isLeap y) 12 := by
  have hlength : daysOfMonths (isLeap y) 12 = if isLeap y then 366 else 365 := by
    cases isLeap y <;> rfl
  rw [hlength]
  unfold daysBeforeYear isLeap
  split_ifs with h
  · simp only [decide_eq_true_eq] at h
    omega
  · simp only [decide_eq_true_eq] at h
    omega

theorem daysBeforeYear_le {y y' : ℤ} (h : y ≤ y') : daysBeforeYear y ≤ daysBeforeYear y' := by
  unfold daysBeforeYear
  omega

theorem daysOfMonths_mono (leap : Bool) : Monotone (daysOfMonths leap) :=
  monotone_nat_of_le_succ fun _ => Nat.le_add_right _ _

/-! ## The year and the month of a day -/

/-- The year of a day, counted from the start of the year 0. -/
def yearOfDay (d : ℤ) : ℤ :=
  -- A year has 365.2425 days on average.
  let y := d * 400 / 146097
  if d < daysBeforeYear y then y - 1 else if daysBeforeYear (y + 1) ≤ d then y + 1 else y

/-- The month of a day, counted from the start of its year. -/
def monthOfDay (leap : Bool) (k : ℕ) : ℕ :=
  Nat.findGreatest (fun m => daysOfMonths leap m ≤ k) 11 + 1

theorem yearOfDay_spec (d : ℤ) :
    daysBeforeYear (yearOfDay d) ≤ d ∧ d < daysBeforeYear (yearOfDay d + 1) := by
  -- The estimate is off by one year at most.
  have hlow : daysBeforeYear (d * 400 / 146097 - 1) ≤ d := by
    unfold daysBeforeYear
    omega
  have hhigh : d < daysBeforeYear (d * 400 / 146097 + 1 + 1) := by
    unfold daysBeforeYear
    omega
  simp only [yearOfDay]
  split_ifs with hlt hge
  · exact ⟨hlow, by rwa [sub_add_cancel]⟩
  · exact ⟨hge, hhigh⟩
  · exact ⟨not_lt.mp hlt, not_le.mp hge⟩

theorem daysOfMonths_monthOfDay_le (leap : Bool) (k : ℕ) :
    daysOfMonths leap (monthOfDay leap k - 1) ≤ k :=
  Nat.findGreatest_spec (P := fun m => daysOfMonths leap m ≤ k) (Nat.zero_le 11) (Nat.zero_le k)

theorem monthOfDay_le (leap : Bool) (k : ℕ) : monthOfDay leap k ≤ 12 :=
  Nat.succ_le_succ (Nat.findGreatest_le 11)

theorem lt_daysOfMonths_monthOfDay {leap : Bool} {k : ℕ} (hk : k < daysOfMonths leap 12) :
    k < daysOfMonths leap (monthOfDay leap k) := by
  rcases (monthOfDay_le leap k).lt_or_eq with hlt | heq
  · have hnext := Nat.findGreatest_is_greatest (P := fun m => daysOfMonths leap m ≤ k)
      (Nat.lt_succ_self _) (Nat.lt_succ_iff.mp hlt)
    exact Nat.lt_of_not_le hnext
  · rwa [heq]

/-! ## Civil times -/

/-- A date and a time of the day. -/
@[ext]
structure CivilTime where
  year : ℤ
  month : ℕ
  day : ℕ
  hour : ℕ
  minute : ℕ
  second : ℕ
  nano : ℕ
  month_pos : 1 ≤ month
  month_le : month ≤ 12
  day_pos : 1 ≤ day
  day_le : day ≤ daysInMonth (isLeap year) month
  hour_lt : hour < 24
  minute_lt : minute < 60
  second_lt : second < 60
  nano_lt : nano < 1000000000
deriving DecidableEq, Repr

namespace CivilTime

/-- The days of the year before the day. -/
def dayOfYear (t : CivilTime) : ℕ := daysOfMonths (isLeap t.year) (t.month - 1) + (t.day - 1)

/-- The days since the start of 1970. -/
def dayNumber (t : CivilTime) : ℤ := daysBeforeYear t.year + t.dayOfYear - 719528

/-- The nanoseconds since the start of 1970. -/
def instant (t : CivilTime) : ℤ :=
  (((t.dayNumber * 24 + t.hour) * 60 + t.minute) * 60 + t.second) * 1000000000 + t.nano

variable (t u : CivilTime)

/-- A day is in its month. -/
theorem dayOfYear_lt_month :
    t.dayOfYear < daysOfMonths (isLeap t.year) t.month := by
  obtain ⟨m, hm⟩ := Nat.exists_eq_add_of_le' t.month_pos
  have hday := t.day_le
  have hpos := t.day_pos
  rw [dayOfYear, hm, Nat.add_sub_cancel, daysOfMonths]
  rw [hm] at hday
  omega

theorem dayOfYear_lt : t.dayOfYear < daysOfMonths (isLeap t.year) 12 :=
  t.dayOfYear_lt_month.trans_le (daysOfMonths_mono _ t.month_le)

/-- Days of the same year are in the order of their months. -/
theorem dayOfYear_lt_of_month (hyear : t.year = u.year) (h : t.month < u.month) :
    t.dayOfYear < u.dayOfYear := by
  have hle : daysOfMonths (isLeap t.year) t.month ≤ daysOfMonths (isLeap u.year) (u.month - 1) := by
    rw [hyear]
    exact daysOfMonths_mono _ (Nat.le_sub_one_of_lt h)
  exact (t.dayOfYear_lt_month.trans_le hle).trans_le (Nat.le_add_right _ _)

theorem dayNumber_lt_of_year (h : t.year < u.year) : t.dayNumber < u.dayNumber := by
  have hsucc := daysBeforeYear_succ t.year
  have hle : daysBeforeYear (t.year + 1) ≤ daysBeforeYear u.year := daysBeforeYear_le h
  have hday := t.dayOfYear_lt
  unfold dayNumber
  omega

/-- Days are in the order of their years, months and days. -/
theorem cmp_dayNumber : cmp t.dayNumber u.dayNumber =
    (cmp t.year u.year).then ((cmp t.month u.month).then (cmp t.day u.day)) := by
  refine cmp_eq_then (dayNumber_lt_of_year t u) (dayNumber_lt_of_year u t) fun hyear => ?_
  have hdays : cmp t.dayNumber u.dayNumber = cmp t.dayOfYear u.dayOfYear := by
    rw [dayNumber, dayNumber, hyear, sub_eq_add_neg, sub_eq_add_neg, cmp_add_right, cmp_add_left]
    exact Nat.strictMono_cast.cmp_map_eq _ _
  rw [hdays]
  refine cmp_eq_then (dayOfYear_lt_of_month t u hyear)
    (dayOfYear_lt_of_month u t hyear.symm) fun hmonth => ?_
  obtain ⟨d, hd⟩ := Nat.exists_eq_add_of_le' t.day_pos
  obtain ⟨e, he⟩ := Nat.exists_eq_add_of_le' u.day_pos
  rw [dayOfYear, dayOfYear, hyear, hmonth, cmp_add_left, hd, he, Nat.add_sub_cancel,
    Nat.add_sub_cancel, cmp_add_right]

/-- **Civil times are in the order of their instants, field by field.** -/
theorem cmp_instant : cmp t.instant u.instant =
    (cmp t.year u.year).then ((cmp t.month u.month).then ((cmp t.day u.day).then
      ((cmp t.hour u.hour).then ((cmp t.minute u.minute).then
        ((cmp t.second u.second).then (cmp t.nano u.nano)))))) := by
  have hhour {t : CivilTime} : (t.hour : ℤ) < 24 := by exact_mod_cast t.hour_lt
  have hminute {t : CivilTime} : (t.minute : ℤ) < 60 := by exact_mod_cast t.minute_lt
  have hsecond {t : CivilTime} : (t.second : ℤ) < 60 := by exact_mod_cast t.second_lt
  have hnano {t : CivilTime} : (t.nano : ℤ) < 1000000000 := by exact_mod_cast t.nano_lt
  rw [instant, instant, cmp_mul_add hnano hnano, cmp_mul_add hsecond hsecond,
    cmp_mul_add hminute hminute, cmp_mul_add hhour hhour, cmp_dayNumber]
  -- Both sides decide by the same fields, from the year on.
  rw [Ordering.then_assoc, Ordering.then_assoc, Ordering.then_assoc, Ordering.then_assoc,
    Ordering.then_assoc]

/-- A civil time is known by its instant. -/
theorem instant_injective : Function.Injective instant := by
  intro t u h
  have hcmp := cmp_instant t u
  rw [h.cmp_eq_eq] at hcmp
  obtain ⟨hyear, hcmp⟩ := Ordering.then_eq_eq.mp hcmp.symm
  obtain ⟨hmonth, hcmp⟩ := Ordering.then_eq_eq.mp hcmp
  obtain ⟨hday, hcmp⟩ := Ordering.then_eq_eq.mp hcmp
  obtain ⟨hhour, hcmp⟩ := Ordering.then_eq_eq.mp hcmp
  obtain ⟨hminute, hcmp⟩ := Ordering.then_eq_eq.mp hcmp
  obtain ⟨hsecond, hnano⟩ := Ordering.then_eq_eq.mp hcmp
  rw [cmp_eq_eq_iff] at hyear hmonth hday hhour hminute hsecond hnano
  exact CivilTime.ext hyear hmonth hday hhour hminute hsecond hnano

/-! ## The civil time of an instant -/

/-- The day of the year of a day, counted from the start of the year 0. -/
def dayInYear (d : ℤ) : ℕ := (d - daysBeforeYear (yearOfDay d)).toNat

theorem dayInYear_eq (d : ℤ) : (dayInYear d : ℤ) = d - daysBeforeYear (yearOfDay d) :=
  Int.toNat_of_nonneg (sub_nonneg.mpr (yearOfDay_spec d).1)

theorem dayInYear_lt (d : ℤ) : dayInYear d < daysOfMonths (isLeap (yearOfDay d)) 12 := by
  have heq := dayInYear_eq d
  have hlt := (yearOfDay_spec d).2
  rw [daysBeforeYear_succ] at hlt
  omega

/-- The month of a day, counted from the start of the year 0. -/
def monthInYear (d : ℤ) : ℕ := monthOfDay (isLeap (yearOfDay d)) (dayInYear d)

/-- The day of the month of a day, counted from the start of the year 0. -/
def dayInMonth (d : ℤ) : ℕ :=
  dayInYear d - daysOfMonths (isLeap (yearOfDay d)) (monthInYear d - 1) + 1

theorem dayInMonth_le (d : ℤ) :
    dayInMonth d ≤ daysInMonth (isLeap (yearOfDay d)) (monthInYear d) := by
  have hlt := lt_daysOfMonths_monthOfDay (dayInYear_lt d)
  have hle := daysOfMonths_monthOfDay_le (isLeap (yearOfDay d)) (dayInYear d)
  have hmonth : monthInYear d = monthInYear d - 1 + 1 := rfl
  rw [← monthInYear] at hlt hle
  rw [hmonth, daysOfMonths, ← hmonth] at hlt
  rw [dayInMonth]
  omega

/-- The civil time of an instant in nanoseconds since the start of 1970. -/
def ofInstant (n : ℤ) : CivilTime :=
  let second := n / 1000000000
  let minute := second / 60
  let hour := minute / 60
  let day := hour / 24 + 719528
  { year := yearOfDay day
    month := monthInYear day
    day := dayInMonth day
    hour := (hour % 24).toNat
    minute := (minute % 60).toNat
    second := (second % 60).toNat
    nano := (n % 1000000000).toNat
    month_pos := Nat.le_add_left _ _
    month_le := monthOfDay_le _ _
    day_pos := Nat.le_add_left _ _
    day_le := dayInMonth_le _
    hour_lt := by omega
    minute_lt := by omega
    second_lt := by omega
    nano_lt := by omega }

/-- **Every instant is the instant of its civil time.** -/
@[simp] theorem instant_ofInstant (n : ℤ) : (ofInstant n).instant = n := by
  have hday (d : ℤ) : daysBeforeYear (yearOfDay d) +
      (daysOfMonths (isLeap (yearOfDay d)) (monthInYear d - 1) + (dayInMonth d - 1) : ℕ) = d := by
    have hle := daysOfMonths_monthOfDay_le (isLeap (yearOfDay d)) (dayInYear d)
    have heq := dayInYear_eq d
    rw [← monthInYear] at hle
    rw [dayInMonth]
    omega
  simp only [instant, dayNumber, dayOfYear, ofInstant, hday]
  omega

@[simp] theorem ofInstant_instant : ofInstant t.instant = t :=
  instant_injective (instant_ofInstant t.instant)

end CivilTime

end Calendar
