/-
Strings as JavaScript trims and compares them.

* `trim` — `String.prototype.trim`, which nothing is left to trim after (`trim_trim`);
* `startsWith`, `includes` — `String.prototype.startsWith`, `String.prototype.includes`;
* `lower` — `String.prototype.toLowerCase`, of ASCII letters;
* `quote` — how `JSON.stringify` writes a string.
-/
import Mathlib.Data.List.DropRight
import Mathlib.Data.List.Infix

namespace Text

/-- White space and line terminators. -/
def isSpace (c : Char) : Bool :=
  (9 ≤ c.toNat ∧ c.toNat ≤ 13) ∨ (0x2000 ≤ c.toNat ∧ c.toNat ≤ 0x200a) ∨
    c.toNat ∈ [0x20, 0xa0, 0x1680, 0x2028, 0x2029, 0x202f, 0x205f, 0x3000, 0xfeff]

/-- `text.trim()`. -/
def trim (text : String) : String :=
  String.ofList ((text.toList.dropWhile isSpace).rdropWhile isSpace)

/-- `text.startsWith(start)`. -/
def startsWith (text start : String) : Bool := decide (start.toList <+: text.toList)

/-- `text.includes(needle)`. -/
def includes (text needle : String) : Bool := decide (needle.toList <:+: text.toList)

/-- `text` without the characters of a class, as `text.replace(/[…]/g, "")`. -/
def without (chars : List Char) (text : String) : String :=
  String.ofList (text.toList.filter fun c => c ∉ chars)

example : trim " \t key \n" = "key" := by decide

theorem trim_trim (text : String) : trim (trim text) = trim text := by
  have hhead : ((text.toList.dropWhile isSpace).rdropWhile isSpace).dropWhile isSpace =
      (text.toList.dropWhile isSpace).rdropWhile isSpace := by
    rw [List.dropWhile_eq_self_iff]
    intro hl
    -- the first character is that of the text without its leading spaces
    have hstart := List.rdropWhile_prefix isSpace (text.toList.dropWhile isSpace)
    rw [hstart.getElem hl]
    exact List.dropWhile_get_zero_not isSpace text.toList (hl.trans_le hstart.length_le)
  rw [trim, trim, String.toList_ofList, hhead, List.rdropWhile_idempotent]

theorem trim_of_not_isSpace {text : String} (h : ∀ c ∈ text.toList, isSpace c = false) :
    trim text = text := by
  have hstart : text.toList.dropWhile isSpace = text.toList := by
    refine List.dropWhile_eq_self_iff.mpr fun hl => ?_
    simp [h _ (List.getElem_mem hl)]
  have hend : text.toList.rdropWhile isSpace = text.toList := by
    refine List.rdropWhile_eq_self_iff.mpr fun hl => ?_
    simp [h _ (List.getLast_mem hl)]
  rw [trim, hstart, hend, String.ofList_toList]

/-- `text.toLowerCase()`, of ASCII letters; the others stay as they are. -/
def lower (text : String) : String := String.ofList (text.toList.map Char.toLower)

theorem toLower_toLower (c : Char) : c.toLower.toLower = c.toLower := by
  have hlower : ¬ (c.toLower.val ≥ 'A'.val ∧ c.toLower.val ≤ 'Z'.val) := by
    show ¬ ((if h : c.val ≥ 'A'.val ∧ c.val ≤ 'Z'.val then ⟨c.val + 32, _⟩ else c : Char).val ≥
      'A'.val ∧ (if h : c.val ≥ 'A'.val ∧ c.val ≤ 'Z'.val then ⟨c.val + 32, _⟩ else c : Char).val ≤
        'Z'.val)
    split
    · next hupper =>
      intro h
      have hle := UInt32.le_iff_toNat_le.mp hupper.1
      have hle' := UInt32.le_iff_toNat_le.mp hupper.2
      have hle'' := UInt32.le_iff_toNat_le.mp h.2
      simp [UInt32.toNat_add] at hle hle' hle''
      omega
    · next hupper => exact hupper
  exact dif_neg hlower

theorem lower_lower (text : String) : lower (lower text) = lower text := by
  rw [lower, lower, String.toList_ofList, List.map_map]
  exact congrArg String.ofList (List.map_congr_left fun c _ => toLower_toLower c)

/-- A character inside a JSON string. -/
def escape (c : Char) : List Char :=
  if c = '"' ∨ c = '\\' then ['\\', c]
  else if c = '\n' then ['\\', 'n']
  else if c = '\r' then ['\\', 'r']
  else if c = '\t' then ['\\', 't']
  else if c.toNat = 8 then ['\\', 'b']
  else if c.toNat = 12 then ['\\', 'f']
  else if c.toNat < 32 then
    ['\\', 'u', '0', '0', Nat.digitChar (c.toNat / 16), Nat.digitChar (c.toNat % 16)]
  else [c]

/-- `JSON.stringify(text)`. -/
def quote (text : String) : String :=
  String.ofList (['"'] ++ text.toList.flatMap escape ++ ['"'])

end Text
