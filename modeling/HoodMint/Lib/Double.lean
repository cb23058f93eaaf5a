/-
Doubles, as the rational numbers they are.

`nearest` rounds to one, ties to even, as every operation on doubles rounds its exact result.
Only the significand is bounded here: what is too large or too small for a normal double is
left to the modules that could meet it.
-/
import Mathlib.Data.Int.Log
import Mathlib.Data.Rat.Floor

namespace Double

/-- To the nearest integer, halves to the even one. -/
def roundHalfEven (q : ℚ) : ℤ :=
  if q - ⌊q⌋ < 1 / 2 then ⌊q⌋
  else if 1 / 2 < q - ⌊q⌋ then ⌊q⌋ + 1
  else if 2 ∣ ⌊q⌋ then ⌊q⌋ else ⌊q⌋ + 1

/-- The nearest double. -/
def nearest (q : ℚ) : ℚ :=
  if q = 0 then 0
  else
    let ulp : ℚ := (2 : ℚ) ^ (Int.log 2 |q| - 52)
    roundHalfEven (q / ulp) * ulp

/-- A tenth and a fifth are three tenths and a bit. -/
example : nearest (nearest (1 / 10) + nearest (1 / 5)) ≠ nearest (3 / 10) := by decide +kernel

end Double
