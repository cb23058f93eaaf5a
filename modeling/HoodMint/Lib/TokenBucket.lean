/-
Token buckets.

* `level` — what a bucket holds when some time has passed: it fills at a constant rate, up to its
  capacity;
* `level_le_add` — no faster than that rate; `level_level` — whether or not it was looked at in
  between; `level_eq_capacity` — full when it has had the time.
-/
import Mathlib.Algebra.Order.Field.Basic
import Mathlib.Tactic.Linarith

namespace TokenBucket

variable {K : Type*} [Field K] [LinearOrder K] {capacity rate tokens elapsed elapsed' : K}

/-- What a bucket that held `tokens` holds when `elapsed` has passed. -/
def level (capacity rate tokens elapsed : K) : K := min capacity (tokens + elapsed * rate)

theorem level_le_capacity : level capacity rate tokens elapsed ≤ capacity := min_le_left _ _

theorem level_le_add : level capacity rate tokens elapsed ≤ tokens + elapsed * rate :=
  min_le_right _ _

/-- A bucket looked at twice in one instant holds the same. -/
theorem level_zero (h : tokens ≤ capacity) : level capacity rate tokens 0 = tokens := by
  rw [level, zero_mul, add_zero, min_eq_right h]

/-- It is full when what is missing has flowed in. -/
theorem level_eq_capacity (h : capacity ≤ tokens + elapsed * rate) :
    level capacity rate tokens elapsed = capacity :=
  min_eq_left h

variable [IsStrictOrderedRing K]

/-- Time alone takes nothing. -/
theorem le_level (h : tokens ≤ capacity) (hrate : 0 ≤ rate) (helapsed : 0 ≤ elapsed) :
    tokens ≤ level capacity rate tokens elapsed :=
  le_min h (le_add_of_nonneg_right (mul_nonneg helapsed hrate))

/-- A bucket looked at in between holds the same in the end. -/
theorem level_level (hrate : 0 ≤ rate) (helapsed : 0 ≤ elapsed') :
    level capacity rate (level capacity rate tokens elapsed) elapsed' =
      level capacity rate tokens (elapsed + elapsed') := by
  have hmore : 0 ≤ elapsed' * rate := mul_nonneg helapsed hrate
  rw [level, level, level, add_mul, ← add_assoc]
  rcases le_total capacity (tokens + elapsed * rate) with h | h
  · rw [min_eq_left h, min_eq_left (by linarith), min_eq_left (by linarith)]
  · rw [min_eq_right h]

/-- In more time it gains no more than what flows in. -/
theorem level_add_le (hrate : 0 ≤ rate) (helapsed : 0 ≤ elapsed') :
    level capacity rate tokens (elapsed + elapsed') ≤
      level capacity rate tokens elapsed + elapsed' * rate := by
  rw [← level_level hrate helapsed]
  exact level_le_add

end TokenBucket
