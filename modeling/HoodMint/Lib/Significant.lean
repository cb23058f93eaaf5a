/-
Integers with a bounded number of significant binary digits.

A binary floating-point format keeps the first `p` digits of an integer and rounds the rest
away, to the nearest and in a tie to the even one.

* `round` — a natural number to `p` digits;
* `roundInt` — an integer, its sign apart;
* `roundInt_of_natAbs_lt` — what has at most `p` digits is kept as it is;
* `le_roundInt_iff` — rounding is exact against every bound of at most `p` digits.
-/
import Mathlib.Data.Int.Order.Lemmas
import Mathlib.Algebra.Order.Ring.Int
import Mathlib.Algebra.Group.Nat.Defs

namespace Significant

variable {p n : ℕ}

/-- How many digits of `n` come after its first `p`. -/
def excess (p n : ℕ) : ℕ := n.log2 + 1 - p

/-- `n` to `p` significant digits, ties to even. -/
def round (p n : ℕ) : ℕ :=
  let unit := 2 ^ excess p n
  let q := n / unit
  let r := n % unit
  unit * if 2 * r < unit ∨ (2 * r = unit ∧ q % 2 = 0) then q else q + 1

/-- No digit is dropped from a number that has at most `p`. -/
theorem round_of_lt (h : n < 2 ^ p) : round p n = n := by
  obtain rfl | hn := eq_or_ne n 0
  · simp [round]
  · have hlog : n.log2 < p := (Nat.log2_lt hn).2 h
    have hexcess : excess p n = 0 := by
      rw [excess]
      omega
    simp [round, hexcess, Nat.mod_one]

/-- Rounding keeps the leading digit. -/
theorem pow_log2_le_round (hp : 0 < p) (hn : n ≠ 0) : 2 ^ n.log2 ≤ round p n := by
  by_cases hlt : n < 2 ^ p
  · rw [round_of_lt hlt]
    exact Nat.log2_self_le hn
  · have hlog : p ≤ n.log2 := (Nat.le_log2 hn).2 (by omega)
    have hsplit : 2 ^ n.log2 = 2 ^ excess p n * 2 ^ (p - 1) := by
      rw [← pow_add, excess]
      congr 1
      omega
    have hq : 2 ^ (p - 1) ≤ n / 2 ^ excess p n := by
      rw [Nat.le_div_iff_mul_le (Nat.two_pow_pos _), mul_comm, ← hsplit]
      exact Nat.log2_self_le hn
    rw [hsplit, round]
    refine Nat.mul_le_mul_left _ ?_
    split
    · exact hq
    · omega

/-- A number of more than `p` digits is not rounded below the least of them. -/
theorem le_round (hp : 0 < p) (h : 2 ^ p ≤ n) : 2 ^ p ≤ round p n := by
  have hn : n ≠ 0 := by
    have hpos : 0 < 2 ^ p := Nat.two_pow_pos p
    omega
  have hlog : p ≤ n.log2 := (Nat.le_log2 hn).2 h
  calc 2 ^ p ≤ 2 ^ n.log2 := Nat.pow_le_pow_right (by omega) hlog
    _ ≤ round p n := pow_log2_le_round hp hn

theorem round_pos (hp : 0 < p) (hn : n ≠ 0) : 0 < round p n :=
  lt_of_lt_of_le (Nat.two_pow_pos _) (pow_log2_le_round hp hn)

/-- An integer to `p` significant digits. -/
def roundInt (p : ℕ) (x : ℤ) : ℤ := x.sign * round p x.natAbs

variable {x c : ℤ}

theorem roundInt_of_natAbs_lt (h : x.natAbs < 2 ^ p) : roundInt p x = x := by
  rw [roundInt, round_of_lt h, Int.sign_mul_natAbs]

theorem roundInt_of_pos (h : 0 < x) : roundInt p x = round p x.natAbs := by
  rw [roundInt, Int.sign_eq_one_of_pos h, one_mul]

/-- Rounding keeps the sign. -/
theorem roundInt_nonpos_iff (hp : 0 < p) : roundInt p x ≤ 0 ↔ x ≤ 0 := by
  obtain h | h := lt_or_ge 0 x
  · have hpos : 0 < round p x.natAbs := round_pos hp (by omega)
    rw [roundInt_of_pos h]
    omega
  · have hsign : x.sign ≤ 0 := Int.sign_nonpos_iff.2 h
    have hnonpos : roundInt p x ≤ 0 :=
      mul_nonpos_of_nonpos_of_nonneg hsign (Int.natCast_nonneg _)
    exact iff_of_true hnonpos h

/-- Against a bound of at most `p` digits the rounded number stands as the exact one. -/
theorem le_roundInt_iff (hp : 0 < p) (hx : 0 ≤ x) (hc : c ≤ 2 ^ p) :
    c ≤ roundInt p x ↔ c ≤ x := by
  by_cases hlt : x.natAbs < 2 ^ p
  · rw [roundInt_of_natAbs_lt hlt]
  · have hbig : 2 ^ p ≤ round p x.natAbs := le_round hp (by omega)
    have hcast : ((2 ^ p : ℕ) : ℤ) = 2 ^ p := by push_cast; rfl
    have hpow : 0 < 2 ^ p := Nat.two_pow_pos p
    rw [roundInt_of_pos (by omega)]
    exact iff_of_true (by omega) (by omega)

/-- A minimum with a number of at most `p` digits does not see the rounding. -/
theorem min_roundInt (hp : 0 < p) (hx : 0 ≤ x) (hc : c ≤ 2 ^ p) :
    min c (roundInt p x) = min c x := by
  by_cases hlt : x.natAbs < 2 ^ p
  · rw [roundInt_of_natAbs_lt hlt]
  · have hcast : ((2 ^ p : ℕ) : ℤ) = 2 ^ p := by push_cast; rfl
    have hle : c ≤ x := by omega
    rw [min_eq_left hle, min_eq_left ((le_roundInt_iff hp hx hc).2 hle)]

end Significant
