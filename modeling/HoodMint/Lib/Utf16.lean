/-
Strings as JavaScript has them: lists of UTF-16 code units, of which not every surrogate need
have its other half.

* `units`, `slice` — the code units of a text, and `String.prototype.slice` from the start;
* `JsString`, `ofText` — the strings, and the one that a text is written as (`ofText_injective`);
* `isSpace`, `trim` — `String.prototype.trim`.
-/
import HoodMint.Lib.JsonText
import Mathlib.Data.List.DropRight

namespace Utf16

/-- The code units of a text. -/
def units (text : String) : List ℕ := text.toList.flatMap JsonText.units

/-- `text.slice(0, n)`; half a pair at the cut is replaced. -/
def slice (text : String) (n : ℕ) : String := String.ofList (JsonText.ofUnits ((units text).take n))

/-- A string; `length` and `slice` count code units. -/
abbrev JsString := List UInt16

/-- The code units of a text. -/
def ofText (text : String) : JsString := (units text).map UInt16.ofNat

/-- A text is made of code units. -/
theorem units_lt {c : Char} {u : ℕ} (hu : u ∈ JsonText.units c) : u < 65536 := by
  have hvalid := JsonText.toNat_valid c
  rw [JsonText.units] at hu
  split at hu
  · next hc =>
    rw [List.mem_singleton.mp hu]
    exact hc
  · rcases List.mem_cons.mp hu with hhigh | hlow
    · omega
    · have hlow := List.mem_singleton.mp hlow
      omega

/-- **Texts are told apart** by their code units. -/
theorem ofText_injective {text text' : String} (h : ofText text = ofText text') :
    text = text' := by
  have hunits : ∀ t : String,
      (ofText t).map UInt16.toNat = t.toList.flatMap JsonText.units := by
    intro t
    rw [ofText, units, List.map_map]
    conv => rhs; rw [← List.map_id (t.toList.flatMap JsonText.units)]
    refine List.map_congr_left fun u hu => ?_
    obtain ⟨c, -, hc⟩ := List.mem_flatMap.mp hu
    exact UInt16.toNat_ofNat_of_lt' (units_lt hc)
  have hchars : text.toList = text'.toList := by
    rw [← JsonText.ofUnits_units text.toList, ← JsonText.ofUnits_units text'.toList, ← hunits,
      ← hunits, h]
  exact String.toList_inj.mp hchars

/-- White space and line terminators. -/
def isSpace (u : UInt16) : Bool :=
  (9 ≤ u ∧ u ≤ 13) ∨ (0x2000 ≤ u ∧ u ≤ 0x200a) ∨
    u ∈ [0x20, 0xa0, 0x1680, 0x2028, 0x2029, 0x202f, 0x205f, 0x3000, 0xfeff]

/-- `s.trim()`. -/
def trim (s : JsString) : JsString := (s.dropWhile isSpace).rdropWhile isSpace

example : trim (ofText " \t key \n") = ofText "key" := by decide

end Utf16
