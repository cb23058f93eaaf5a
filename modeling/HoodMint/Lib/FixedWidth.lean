/-
Numbers written with a fixed count of decimal digits.

* `padded` — a number with zeros in front, one digit for each place;
* `readNumber`, `readChar` — what stands at the front of a text, and the text behind it;
* `readNumber_eq_some`, `readChar_eq_some` — a number is read where `padded` has written it, and
  nowhere else.
-/
import Mathlib.Algebra.Order.Ring.Nat
import Mathlib.Data.List.Basic
import Mathlib.Tactic.IntervalCases

namespace FixedWidth

/-- The digits of a number below `10 ^ width`. -/
def padded : ℕ → ℕ → List Char
  | 0, _ => []
  | width + 1, n => Nat.digitChar (n / 10 ^ width) :: padded width (n % 10 ^ width)

/-- The number in the first `width` characters, if all are digits, and the text behind them. -/
def readNumber : ℕ → List Char → Option (ℕ × List Char)
  | 0, cs => some (0, cs)
  | _ + 1, [] => none
  | width + 1, c :: cs =>
    if c.isDigit then
      (readNumber width cs).map fun read => ((c.toNat - '0'.toNat) * 10 ^ width + read.1, read.2)
    else none

/-- The text behind a character. -/
def readChar (c : Char) : List Char → Option (List Char)
  | [] => none
  | d :: cs => if d = c then some cs else none

theorem readChar_eq_some {c : Char} {cs rest : List Char} :
    readChar c cs = some rest ↔ cs = c :: rest := by
  cases cs with
  | nil => simp [readChar]
  | cons d cs => simp [readChar]

theorem isDigit_digitChar {d : ℕ} (h : d < 10) : (Nat.digitChar d).isDigit = true := by
  interval_cases d <;> rfl

theorem isDigit_of_mem_padded {width n : ℕ} (h : n < 10 ^ width) {c : Char}
    (hc : c ∈ padded width n) : c.isDigit = true := by
  induction width generalizing n with
  | zero => cases hc
  | succ width ih =>
    rcases List.mem_cons.mp hc with rfl | hc
    · exact isDigit_digitChar (Nat.div_lt_of_lt_mul (by rwa [← Nat.pow_succ]))
    · exact ih (Nat.mod_lt n (Nat.pow_pos (by decide))) hc

theorem digitChar_toNat {d : ℕ} (h : d < 10) : (Nat.digitChar d).toNat - '0'.toNat = d := by
  interval_cases d <;> rfl

theorem digitChar_of_isDigit {c : Char} (h : c.isDigit = true) :
    c.toNat - '0'.toNat < 10 ∧ Nat.digitChar (c.toNat - '0'.toNat) = c := by
  have hc : 48 ≤ c.toNat ∧ c.toNat ≤ 57 := Char.isDigit_iff_toNat.mp h
  show c.toNat - 48 < 10 ∧ Nat.digitChar (c.toNat - 48) = c
  refine ⟨by omega, Char.toNat_inj.mp ?_⟩
  rw [Nat.toNat_digitChar_of_lt_ten (by omega)]
  omega

/-- **What is read** is what was written, with the text that followed it. -/
theorem readNumber_padded {width n : ℕ} (h : n < 10 ^ width) (rest : List Char) :
    readNumber width (padded width n ++ rest) = some (n, rest) := by
  induction width generalizing n with
  | zero =>
    rw [Nat.pow_zero] at h
    obtain rfl : n = 0 := by omega
    rfl
  | succ width ih =>
    have hpos : 0 < 10 ^ width := Nat.pow_pos (by decide)
    have hdigit : n / 10 ^ width < 10 := Nat.div_lt_of_lt_mul (by rwa [← Nat.pow_succ])
    rw [padded, List.cons_append, readNumber, if_pos (isDigit_digitChar hdigit),
      ih (Nat.mod_lt n hpos), digitChar_toNat hdigit]
    show some (n / 10 ^ width * 10 ^ width + n % 10 ^ width, rest) = _
    rw [Nat.div_add_mod']

/-- **What is read** was written there. -/
theorem eq_padded_of_readNumber {width n : ℕ} {cs rest : List Char}
    (h : readNumber width cs = some (n, rest)) : n < 10 ^ width ∧ cs = padded width n ++ rest := by
  induction width generalizing n cs with
  | zero =>
    obtain ⟨rfl, rfl⟩ := Prod.mk.injEq _ _ _ _ ▸ Option.some_inj.mp h
    exact ⟨by simp, rfl⟩
  | succ width ih =>
    cases cs with
    | nil => cases h
    | cons c cs =>
      rw [readNumber] at h
      split at h
      · next hc =>
        obtain ⟨⟨m, rest'⟩, hm, heq⟩ := Option.map_eq_some_iff.mp h
        obtain ⟨rfl, rfl⟩ : _ ∧ _ := ⟨congrArg Prod.fst heq, congrArg Prod.snd heq⟩
        obtain ⟨hlt, rfl⟩ := ih hm
        obtain ⟨hdigit, hchar⟩ := digitChar_of_isDigit hc
        have hpos : 0 < 10 ^ width := Nat.pow_pos (by decide)
        generalize c.toNat - '0'.toNat = d at *
        refine ⟨?_, ?_⟩
        · -- the digit is at most nine
          calc d * 10 ^ width + m
            _ < d * 10 ^ width + 10 ^ width := Nat.add_lt_add_left hlt _
            _ = (d + 1) * 10 ^ width := (Nat.succ_mul d _).symm
            _ ≤ 10 * 10 ^ width := Nat.mul_le_mul_right _ hdigit
            _ = 10 ^ (width + 1) := by rw [Nat.pow_succ, Nat.mul_comm]
        · have hdiv : (d * 10 ^ width + m) / 10 ^ width = d := by
            rw [Nat.mul_comm, Nat.mul_add_div hpos, Nat.div_eq_of_lt hlt, Nat.add_zero]
          have hmod : (d * 10 ^ width + m) % 10 ^ width = m := by
            rw [Nat.mul_comm, Nat.mul_add_mod, Nat.mod_eq_of_lt hlt]
          show c :: (padded width m ++ rest') = padded (width + 1) (d * 10 ^ width + m) ++ rest'
          rw [padded, hdiv, hmod, hchar, List.cons_append]
      · cases h

theorem readNumber_eq_some {width n : ℕ} {cs rest : List Char} :
    readNumber width cs = some (n, rest) ↔ n < 10 ^ width ∧ cs = padded width n ++ rest := by
  constructor
  · exact eq_padded_of_readNumber
  · rintro ⟨hlt, rfl⟩
    exact readNumber_padded hlt rest

theorem bind_readChar_eq_some {α : Type*} {c : Char} {cs : List Char} {b : α}
    {next : List Char → Option α} :
    (readChar c cs).bind next = some b ↔ ∃ rest, cs = c :: rest ∧ next rest = some b := by
  simp only [Option.bind_eq_some_iff, readChar_eq_some]

theorem bind_readNumber_eq_some {α : Type*} {width : ℕ} {cs : List Char} {b : α}
    {next : ℕ × List Char → Option α} :
    (readNumber width cs).bind next = some b ↔
      ∃ n rest, (n < 10 ^ width ∧ cs = padded width n ++ rest) ∧ next (n, rest) = some b := by
  simp only [Option.bind_eq_some_iff, Prod.exists, readNumber_eq_some]

end FixedWidth
