/-
Base64, as `Buffer` writes and reads it.

* `digit`, `value?` — the alphabet, and that of base64url, which is read as well
  (`value?_digit`);
* `encode` — `buffer.toString("base64")`;
* `decode` — `Buffer.from(text, "base64")`: up to the first `=`, whatever is not a digit is passed
  over, and bits that do not make a byte are dropped (`decode_encode`).
-/
import Mathlib.Data.Nat.Notation

namespace Base64

/-- The digit of a value below 64. -/
def digit (n : ℕ) : Char :=
  if n < 26 then Char.ofNat (65 + n)
  else if n < 52 then Char.ofNat (71 + n)
  else if n < 62 then Char.ofNat (n - 4)
  else if n = 62 then '+' else '/'

/-- The value of a digit. -/
def value? (c : Char) : Option ℕ :=
  if 65 ≤ c.toNat ∧ c.toNat ≤ 90 then some (c.toNat - 65)
  else if 97 ≤ c.toNat ∧ c.toNat ≤ 122 then some (c.toNat - 71)
  else if 48 ≤ c.toNat ∧ c.toNat ≤ 57 then some (c.toNat + 4)
  else if c = '+' ∨ c = '-' then some 62
  else if c = '/' ∨ c = '_' then some 63
  else none

theorem value?_digit_fin : ∀ n : Fin 64, value? (digit n) = some n.val ∧ digit n ≠ '=' := by
  decide

theorem value?_digit {n : ℕ} (h : n < 64) : value? (digit n) = some n :=
  (value?_digit_fin ⟨n, h⟩).1

theorem digit_ne_pad {n : ℕ} (h : n < 64) : digit n ≠ '=' := (value?_digit_fin ⟨n, h⟩).2

/-! ### Encoding -/

/-- The digits of some bytes, and how many are missing from the last four. -/
def digits : List UInt8 → List ℕ × ℕ
  | [] => ([], 0)
  | [a] => ([a.toNat / 4, a.toNat % 4 * 16], 2)
  | [a, b] => ([a.toNat / 4, a.toNat % 4 * 16 + b.toNat / 16, b.toNat % 16 * 4], 1)
  | a :: b :: c :: rest =>
    ([a.toNat / 4, a.toNat % 4 * 16 + b.toNat / 16, b.toNat % 16 * 4 + c.toNat / 64,
      c.toNat % 64] ++ (digits rest).1, (digits rest).2)

/-- `buffer.toString("base64")`. -/
def encode (bytes : List UInt8) : String :=
  String.ofList ((digits bytes).1.map digit ++ List.replicate (digits bytes).2 '=')

/-! ### Decoding -/

/-- The bytes that the values make. -/
def bytes : List ℕ → List UInt8
  | a :: b :: c :: d :: rest =>
    UInt8.ofNat (a * 4 + b / 16) :: UInt8.ofNat (b % 16 * 16 + c / 4) ::
      UInt8.ofNat (c % 4 * 64 + d) :: bytes rest
  | [a, b, c] => [UInt8.ofNat (a * 4 + b / 16), UInt8.ofNat (b % 16 * 16 + c / 4)]
  | [a, b] => [UInt8.ofNat (a * 4 + b / 16)]
  | _ => []

/-- `Buffer.from(text, "base64")`. -/
def decode (text : String) : List UInt8 :=
  bytes ((text.toList.takeWhile (· ≠ '=')).filterMap value?)

example : encode [104, 111, 111, 100] = "aG9vZA==" := by decide

/-! ### Round trip -/

theorem digits_lt (l : List UInt8) : ∀ n ∈ (digits l).1, n < 64 := by
  induction l using digits.induct with
  | case1 => simp [digits]
  | case2 a =>
    have ha := a.toNat_lt
    simp only [digits, List.mem_cons, List.not_mem_nil, or_false]
    omega
  | case3 a b =>
    have ha := a.toNat_lt
    have hb := b.toNat_lt
    simp only [digits, List.mem_cons, List.not_mem_nil, or_false]
    omega
  | case4 a b c rest ih =>
    have ha := a.toNat_lt
    have hb := b.toNat_lt
    have hc := c.toNat_lt
    intro n hn
    rw [digits, List.mem_append] at hn
    rcases hn with hn | hn
    · simp only [List.mem_cons, List.not_mem_nil, or_false] at hn
      omega
    · exact ih n hn

/-- A byte whose value is known. -/
theorem ofNat_eq {n : ℕ} {a : UInt8} (h : n = a.toNat) : UInt8.ofNat n = a := by
  rw [h, UInt8.ofNat_toNat]

theorem bytes_digits (l : List UInt8) : bytes (digits l).1 = l := by
  induction l using digits.induct with
  | case1 => rfl
  | case2 a =>
    have ha : a.toNat / 4 * 4 + a.toNat % 4 * 16 / 16 = a.toNat := by omega
    rw [digits, bytes, ofNat_eq ha]
  | case3 a b =>
    have hb := b.toNat_lt
    have ha : a.toNat / 4 * 4 + (a.toNat % 4 * 16 + b.toNat / 16) / 16 = a.toNat := by omega
    have hb' : (a.toNat % 4 * 16 + b.toNat / 16) % 16 * 16 + b.toNat % 16 * 4 / 4 = b.toNat := by
      omega
    rw [digits, bytes, ofNat_eq ha, ofNat_eq hb']
  | case4 a b c rest ih =>
    have hb := b.toNat_lt
    have hc := c.toNat_lt
    have ha : a.toNat / 4 * 4 + (a.toNat % 4 * 16 + b.toNat / 16) / 16 = a.toNat := by omega
    have hb' : (a.toNat % 4 * 16 + b.toNat / 16) % 16 * 16 +
        (b.toNat % 16 * 4 + c.toNat / 64) / 4 = b.toNat := by omega
    have hc' : (b.toNat % 16 * 4 + c.toNat / 64) % 4 * 64 + c.toNat % 64 = c.toNat := by omega
    show bytes (_ :: _ :: _ :: _ :: (digits rest).1) = _
    rw [bytes, ofNat_eq ha, ofNat_eq hb', ofNat_eq hc', ih]

/-- The digits are read back. -/
theorem filterMap_digit {l : List ℕ} (h : ∀ n ∈ l, n < 64) :
    (l.map digit).filterMap value? = l := by
  induction l with
  | nil => rfl
  | cons n l ih =>
    obtain ⟨hn, hl⟩ := List.forall_mem_cons.mp h
    rw [List.map_cons, List.filterMap_cons_some (value?_digit hn), ih hl]

/-- Reading stops where the padding starts. -/
theorem takeWhile_digits {l : List ℕ} (h : ∀ n ∈ l, n < 64) (k : ℕ) :
    (l.map digit ++ List.replicate k '=').takeWhile (· ≠ '=') = l.map digit := by
  induction l with
  | nil =>
    cases k with
    | zero => rfl
    | succ k => rfl
  | cons n l ih =>
    obtain ⟨hn, hl⟩ := List.forall_mem_cons.mp h
    rw [List.map_cons, List.cons_append, List.takeWhile_cons_of_pos (by simpa using digit_ne_pad hn),
      ih hl]

/-- **Round trip.** -/
theorem decode_encode (l : List UInt8) : decode (encode l) = l := by
  rw [decode, encode, String.toList_ofList, takeWhile_digits (digits_lt l),
    filterMap_digit (digits_lt l), bytes_digits]

end Base64
