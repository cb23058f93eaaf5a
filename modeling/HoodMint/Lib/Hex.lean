/-
Bytes as hexadecimal text.

* `text`, `parse` — two digits for each byte, behind `0x`; the digits of a text may be of either
  case;
* `parse_text` — bytes are read back from their text;
* `length_parse`, `bytes_isSome` — two digits for each byte are read, and an even number of digits is
  read.
-/
import Mathlib.Data.List.Basic
import Mathlib.Data.Nat.Notation
import Mathlib.Tactic.IntervalCases

namespace Hex

abbrev Byte := BitVec 8

def digits (bytes : List Byte) : List Char :=
  bytes.flatMap fun b => [Nat.digitChar (b.toNat / 16), Nat.digitChar (b.toNat % 16)]

def nibble (c : Char) : Option ℕ :=
  if c.isDigit then some (c.toNat - '0'.toNat)
  else if 'a' ≤ c ∧ c ≤ 'f' then some (c.toNat - 'a'.toNat + 10)
  else if 'A' ≤ c ∧ c ≤ 'F' then some (c.toNat - 'A'.toNat + 10)
  else none

/-- Two digits a byte. -/
def bytes : List Char → Option (List Byte)
  | [] => some []
  | [_] => none
  | a :: b :: cs =>
    (nibble a).bind fun high => (nibble b).bind fun low =>
      (bytes cs).map (BitVec.ofNat 8 (16 * high + low) :: ·)

def text (bytes : List Byte) : String := String.ofList ('0' :: 'x' :: digits bytes)

def parse (text : String) : Option (List Byte) :=
  match text.toList with
  | '0' :: 'x' :: cs => bytes cs
  | _ => none

theorem nibble_digitChar {n : ℕ} (h : n < 16) : nibble (Nat.digitChar n) = some n := by
  interval_cases n <;> rfl

theorem bytes_digits (bs : List Byte) : bytes (digits bs) = some bs := by
  induction bs with
  | nil => rfl
  | cons b bs ih =>
    have hlt := b.isLt
    have hbyte : BitVec.ofNat 8 (16 * (b.toNat / 16) + b.toNat % 16) = b := by
      rw [Nat.div_add_mod, BitVec.ofNat_toNat, BitVec.setWidth_eq]
    show bytes (Nat.digitChar (b.toNat / 16) :: Nat.digitChar (b.toNat % 16) :: digits bs) = _
    rw [bytes, nibble_digitChar (by omega), nibble_digitChar (by omega), ih]
    show some (BitVec.ofNat 8 (16 * (b.toNat / 16) + b.toNat % 16) :: bs) = _
    rw [hbyte]

/-- **Bytes are read back.** -/
theorem parse_text (bs : List Byte) : parse (text bs) = some bs := by
  rw [parse, text, String.toList_ofList]
  exact bytes_digits bs

theorem length_bytes {cs : List Char} {bs : List Byte} (h : bytes cs = some bs) :
    2 * bs.length = cs.length := by
  induction cs using bytes.induct generalizing bs with
  | case1 =>
    obtain rfl := Option.some_inj.mp h
    rfl
  | case2 => cases h
  | case3 a b cs ih =>
    obtain ⟨high, -, h⟩ := Option.bind_eq_some_iff.mp h
    obtain ⟨low, -, h⟩ := Option.bind_eq_some_iff.mp h
    obtain ⟨rest, hrest, rfl⟩ := Option.map_eq_some_iff.mp h
    have hlength := ih hrest
    rw [List.length_cons, List.length_cons, List.length_cons]
    omega

theorem length_parse {text : String} {bs : List Byte} (h : parse text = some bs) :
    text.length = 2 * bs.length + 2 := by
  unfold parse at h
  split at h
  · next cs htext =>
    have hlength := length_bytes h
    rw [← String.length_toList, htext, List.length_cons, List.length_cons]
    omega
  · cases h

theorem bytes_isSome {cs : List Char} (hdigits : ∀ c ∈ cs, (nibble c).isSome)
    (heven : 2 ∣ cs.length) : (bytes cs).isSome := by
  induction cs using bytes.induct with
  | case1 => rfl
  | case2 => exact absurd heven (by simp)
  | case3 a b cs ih =>
    obtain ⟨ha, hb, hcs⟩ := List.forall_mem_cons.mp hdigits |>.imp_right List.forall_mem_cons.mp
    obtain ⟨high, hhigh⟩ := Option.isSome_iff_exists.mp ha
    obtain ⟨low, hlow⟩ := Option.isSome_iff_exists.mp hb
    have hrest := ih hcs (by simpa [Nat.dvd_add_right] using heven)
    rw [bytes, hhigh, hlow, Option.bind_some, Option.bind_some, Option.isSome_map]
    exact hrest

end Hex
