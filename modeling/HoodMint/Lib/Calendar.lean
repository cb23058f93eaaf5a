/-
The Gregorian calendar, carried on to all years, as ECMAScript computes with it.

* `locate` — the part of a partition that a place lies in, and where in it (`locate_add`,
  `add_locate`);
* `isLeap`, `dayFromYear`, `yearFromDay` — the days before a year, and the year of a day;
* `Civil`, `makeDay`, `civil` — a date and its day, counted from 1 January 1970; `civil_makeDay`,
  `makeDay_civil`: they are inverse on the dates that exist, and `makeDay` of no other date is read
  back as that date (`civil_makeDay_iff`).
-/
import Mathlib.Algebra.Order.Ring.Int
import Mathlib.Data.List.Basic
import Mathlib.Data.Nat.Notation

namespace Calendar

/-! ### Partitions -/

/-- The part that a place lies in, and its place there. -/
def locate : List ℕ → ℕ → ℕ × ℕ
  | [], n => (0, n)
  | l :: ls, n => if n < l then (0, n) else ((locate ls (n - l)).1 + 1, (locate ls (n - l)).2)

theorem locate_add {ls : List ℕ} {i l r : ℕ} (hi : ls[i]? = some l) (hr : r < l) :
    locate ls ((ls.take i).sum + r) = (i, r) := by
  induction ls generalizing i with
  | nil => cases hi
  | cons k ls ih =>
    cases i with
    | zero =>
      obtain rfl := Option.some_inj.mp hi
      rw [List.take_zero, List.sum_nil, Nat.zero_add, locate, if_pos hr]
    | succ i =>
      have hrest := ih (i := i) hi
      rw [List.take_succ_cons, List.sum_cons, locate, if_neg (by omega),
        show k + (ls.take i).sum + r - k = (ls.take i).sum + r by omega, hrest]

theorem add_locate {ls : List ℕ} {n : ℕ} (h : n < ls.sum) :
    ∃ l, ls[(locate ls n).1]? = some l ∧ (locate ls n).2 < l ∧
      (ls.take (locate ls n).1).sum + (locate ls n).2 = n := by
  induction ls generalizing n with
  | nil => exact absurd h (Nat.not_lt_zero n)
  | cons k ls ih =>
    rw [List.sum_cons] at h
    rw [locate]
    split
    · next hlt => exact ⟨k, rfl, hlt, by simp⟩
    · next hge =>
      obtain ⟨l, hl, hlt, hsum⟩ := @ih (n - k) (by omega)
      refine ⟨l, hl, hlt, ?_⟩
      rw [List.take_succ_cons, List.sum_cons]
      omega

/-! ### Years -/

def isLeap (year : ℤ) : Bool := year % 4 = 0 ∧ (year % 100 ≠ 0 ∨ year % 400 = 0)

/-- The days from 1970 to the first day of a year. -/
def dayFromYear (year : ℤ) : ℤ :=
  365 * (year - 1970) + (year - 1969) / 4 - (year - 1901) / 100 + (year - 1601) / 400

/-- The last year that has begun on a day: the one that four centuries of average years give, or
the year before or behind. -/
def yearFromDay (day : ℤ) : ℤ :=
  let near := 400 * day / 146097 + 1970
  if day < dayFromYear near then near - 1
  else if day < dayFromYear (near + 1) then near
  else near + 1

theorem dayFromYear_succ (year : ℤ) :
    dayFromYear (year + 1) = dayFromYear year + if isLeap year then 366 else 365 := by
  by_cases hleap : isLeap year = true
  · rw [if_pos hleap]
    have h := of_decide_eq_true hleap
    rw [dayFromYear, dayFromYear]
    omega
  · rw [if_neg hleap]
    have h := of_decide_eq_false (Bool.eq_false_iff.mpr hleap)
    rw [dayFromYear, dayFromYear]
    omega

/-- The leap days of the years up to one. -/
def leapDays (year : ℤ) : ℤ := year / 4 - year / 100 + year / 400

theorem dayFromYear_eq (year : ℤ) :
    dayFromYear year = 365 * (year - 1) + leapDays (year - 1) - 719162 := by
  rw [dayFromYear, leapDays, show (year - 1969) / 4 = (year - 1) / 4 - 492 by omega,
    show (year - 1901) / 100 = (year - 1) / 100 - 19 by omega,
    show (year - 1601) / 400 = (year - 1) / 400 - 4 by omega]
  omega

/-- A leap year has one leap day more than the years before it. -/
theorem leapDays_eq (year : ℤ) :
    leapDays year = leapDays (year - 1) + if isLeap year then 1 else 0 := by
  have h := dayFromYear_succ year
  rw [dayFromYear_eq, dayFromYear_eq, show year + 1 - 1 = year by omega] at h
  split_ifs at h ⊢ <;> omega

theorem dayFromYear_mono {year year' : ℤ} (h : year ≤ year') :
    dayFromYear year ≤ dayFromYear year' := by
  rw [dayFromYear, dayFromYear]
  omega

/-- A year begins close to where years of average length would have it. -/
theorem dayFromYear_near (year : ℤ) :
    146097 * (year - 1970) - 600 ≤ 400 * dayFromYear year ∧
      400 * dayFromYear year ≤ 146097 * (year - 1970) + 600 := by
  rw [dayFromYear]
  omega

/-- **The year of a day.** -/
theorem yearFromDay_spec (day : ℤ) :
    dayFromYear (yearFromDay day) ≤ day ∧ day < dayFromYear (yearFromDay day + 1) := by
  rw [yearFromDay]
  generalize hnear : 400 * day / 146097 + 1970 = near
  have hbefore := dayFromYear_near (near - 1)
  have hbehind := dayFromYear_near (near + 1 + 1)
  show dayFromYear (if day < dayFromYear near then near - 1
    else if day < dayFromYear (near + 1) then near else near + 1) ≤ day ∧ _
  split
  · next hlt =>
    refine ⟨by omega, ?_⟩
    rwa [show near - 1 + 1 = near by omega]
  · next hge =>
    split
    · next hlt => exact ⟨not_lt.mp hge, hlt⟩
    · next hge' => exact ⟨not_lt.mp hge', by omega⟩

/-- A year that has begun on a day is that of the day, or before it. -/
theorem le_yearFromDay {year day : ℤ} (h : dayFromYear year ≤ day) : year ≤ yearFromDay day := by
  by_contra hlater
  have hnext := dayFromYear_mono (Int.add_one_le_iff.mpr (not_le.mp hlater))
  obtain ⟨-, hlt⟩ := yearFromDay_spec day
  omega

theorem yearFromDay_eq {year day : ℤ} (hle : dayFromYear year ≤ day)
    (hlt : day < dayFromYear (year + 1)) : yearFromDay day = year := by
  refine le_antisymm ?_ (le_yearFromDay hle)
  by_contra hlater
  have hnext := dayFromYear_mono (Int.add_one_le_iff.mpr (not_le.mp hlater))
  obtain ⟨hle', -⟩ := yearFromDay_spec day
  omega

/-! ### Dates -/

/-- The days of the months. -/
def monthDays (leap : Bool) : List ℕ :=
  [31, if leap then 29 else 28, 31, 30, 31, 30, 31, 31, 30, 31, 30, 31]

/-- A date; months count from 0, and the days of a month from 1. -/
@[ext]
structure Civil where
  year : ℤ
  month : ℕ
  date : ℕ
deriving DecidableEq

/-- The date exists. -/
def Civil.Exists (c : Civil) : Prop :=
  1 ≤ c.date ∧ ∃ days ∈ (monthDays (isLeap c.year))[c.month]?, c.date ≤ days

instance : DecidablePred Civil.Exists := fun c =>
  (inferInstance : Decidable (1 ≤ c.date ∧
    ∃ days ∈ (monthDays (isLeap c.year))[c.month]?, c.date ≤ days))

/-- The day of a date in one of the twelve months, which need not exist. -/
def makeDay (c : Civil) : ℤ :=
  dayFromYear c.year + ((monthDays (isLeap c.year)).take c.month).sum + c.date - 1

/-- The date of a day. -/
def civil (day : ℤ) : Civil :=
  let year := yearFromDay day
  let place := locate (monthDays (isLeap year)) (day - dayFromYear year).toNat
  ⟨year, place.1, place.2 + 1⟩

theorem sum_monthDays (leap : Bool) : (monthDays leap).sum = if leap then 366 else 365 := by
  cases leap <;> rfl

/-- The days of a year, one by one. -/
theorem dayFromYear_add_lt {year day : ℤ} (h : yearFromDay day = year) :
    (day - dayFromYear year).toNat < (monthDays (isLeap year)).sum := by
  obtain ⟨hle, hlt⟩ := yearFromDay_spec day
  rw [h] at hle hlt
  rw [dayFromYear_succ] at hlt
  rw [sum_monthDays]
  split_ifs at hlt ⊢ <;> omega

/-- **A day** has a date that exists, and is the day of that date. -/
theorem makeDay_civil (day : ℤ) : (civil day).Exists ∧ makeDay (civil day) = day := by
  obtain ⟨days, hdays, hlt, hsum⟩ := add_locate (dayFromYear_add_lt (rfl : yearFromDay day = _))
  obtain ⟨hle, -⟩ := yearFromDay_spec day
  refine ⟨⟨by simp [civil], days, hdays, hlt⟩, ?_⟩
  have hday : makeDay (civil day) = dayFromYear (yearFromDay day) +
      ((monthDays (isLeap (yearFromDay day))).take (locate (monthDays (isLeap (yearFromDay day)))
        (day - dayFromYear (yearFromDay day)).toNat).1).sum +
          ((locate (monthDays (isLeap (yearFromDay day)))
            (day - dayFromYear (yearFromDay day)).toNat).2 + 1 : ℕ) - 1 := rfl
  omega

/-- The date ends no later than its year. -/
theorem Civil.Exists.sum_lt {c : Civil} (h : c.Exists) :
    ((monthDays (isLeap c.year)).take c.month).sum + (c.date - 1) <
      (monthDays (isLeap c.year)).sum := by
  obtain ⟨hdate, days, hdays, hle⟩ := h
  obtain ⟨hlt, rfl⟩ := List.getElem?_eq_some_iff.mp hdays
  have hsum := congrArg List.sum (List.take_append_drop c.month (monthDays (isLeap c.year)))
  rw [List.sum_append, List.drop_eq_getElem_cons hlt, List.sum_cons] at hsum
  omega

/-- **A date that exists** is the date of its day. -/
theorem civil_makeDay {c : Civil} (h : c.Exists) : civil (makeDay c) = c := by
  have hlt := h.sum_lt
  obtain ⟨hdate, days, hdays, hle⟩ := h
  have hyear : yearFromDay (makeDay c) = c.year := by
    refine yearFromDay_eq (by rw [makeDay]; omega) ?_
    rw [dayFromYear_succ, makeDay]
    rw [sum_monthDays] at hlt
    split_ifs at hlt ⊢ <;> omega
  have hplace : (makeDay c - dayFromYear c.year).toNat =
      ((monthDays (isLeap c.year)).take c.month).sum + (c.date - 1) := by
    rw [makeDay]
    omega
  have hlocate := locate_add hdays (show c.date - 1 < days by omega)
  rw [civil]
  simp only [hyear, hplace, hlocate, Nat.sub_add_cancel hdate]

/-- **Only dates that exist** are read back. -/
theorem civil_makeDay_iff {c : Civil} : civil (makeDay c) = c ↔ c.Exists := by
  constructor
  · intro h
    rw [← h]
    exact (makeDay_civil _).1
  · exact civil_makeDay

end Calendar
