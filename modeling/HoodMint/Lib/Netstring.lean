/-
Lists of words written one behind the other, each behind its length.

* `append_cons_inj` — the first place of a letter splits a word in one way;
* `Numerals` — how lengths are written, and the letter behind them, which no numeral has;
* `framed`, `joined` — a word behind its length, and a list of them with a letter between;
* `framed_append_inj` — where a framed word ends is seen without looking at what it says;
* `joined_injective` — a list of words can be read back.
-/
import Mathlib.Data.List.Basic

namespace Netstring

variable {α : Type*}

/-- A word up to the first place of a letter, and what is behind it. -/
theorem append_cons_inj {a : α} {s s' t t' : List α} (hs : a ∉ s) (hs' : a ∉ s')
    (h : s ++ a :: t = s' ++ a :: t') : s = s' ∧ t = t' := by
  induction s generalizing s' with
  | nil =>
    cases s' with
    | nil => exact ⟨rfl, (List.cons.inj h).2⟩
    | cons b s' =>
      rw [(List.cons.inj h).1] at hs'
      exact absurd List.mem_cons_self hs'
  | cons b s ih =>
    cases s' with
    | nil =>
      rw [(List.cons.inj h).1] at hs
      exact absurd List.mem_cons_self hs
    | cons b' s' =>
      obtain ⟨rfl, hrest⟩ := List.cons.inj h
      obtain ⟨rfl, rfl⟩ := ih (fun hmem => hs (List.mem_cons_of_mem _ hmem))
        (fun hmem => hs' (List.mem_cons_of_mem _ hmem)) hrest
      exact ⟨rfl, rfl⟩

structure Numerals (α : Type*) where
  text : ℕ → List α
  colon : α
  text_injective : ∀ {m n}, text m = text n → m = n
  colon_not_mem : ∀ n, colon ∉ text n

namespace Numerals

variable (ν : Numerals α)

def framed (word : List α) : List α := ν.text word.length ++ ν.colon :: word

/-- Framed words, with `bar` between them. -/
def joined (bar : α) (words : List (List α)) : List α :=
  [bar].intercalate (words.map ν.framed)

variable {ν} {bar : α} {word word' rest rest' : List α} {words words' : List (List α)}

/-- **Where a word ends** is seen from the front. -/
theorem framed_append_inj (h : ν.framed word ++ rest = ν.framed word' ++ rest') :
    word = word' ∧ rest = rest' := by
  have hsplit : ν.text word.length ++ ν.colon :: (word ++ rest) =
      ν.text word'.length ++ ν.colon :: (word' ++ rest') := by
    simpa only [framed, List.append_assoc, List.cons_append] using h
  -- the first colon is the one behind the length, whatever the word holds
  obtain ⟨hlength, hwords⟩ := append_cons_inj (ν.colon_not_mem _) (ν.colon_not_mem _) hsplit
  exact List.append_inj hwords (ν.text_injective hlength)

theorem framed_ne_nil (word : List α) : ν.framed word ≠ [] := by
  intro h
  simp [framed] at h

theorem joined_cons (word : List α) (words : List (List α)) : ν.joined bar (word :: words) =
    ν.framed word ++ match words with
      | [] => []
      | _ :: _ => bar :: ν.joined bar words := by
  cases words with
  | nil => simp [joined, List.intercalate]
  | cons word' words => simp [joined, List.intercalate]

/-- **A list of words is told apart** from every other by what they are joined to. -/
theorem joined_injective (h : ν.joined bar words = ν.joined bar words') : words = words' := by
  induction words generalizing words' with
  | nil =>
    cases words' with
    | nil => rfl
    | cons word' words' =>
      rw [joined_cons] at h
      exact absurd (List.append_eq_nil_iff.mp h.symm).1 (framed_ne_nil word')
  | cons word words ih =>
    cases words' with
    | nil =>
      rw [joined_cons] at h
      exact absurd (List.append_eq_nil_iff.mp h).1 (framed_ne_nil word)
    | cons word' words' =>
      rw [joined_cons, joined_cons] at h
      obtain ⟨rfl, hrest⟩ := framed_append_inj h
      cases words with
      | nil =>
        cases words' with
        | nil => rfl
        | cons => exact absurd hrest (List.cons_ne_nil _ _).symm
      | cons =>
        cases words' with
        | nil => exact absurd hrest (List.cons_ne_nil _ _)
        | cons => rw [ih (List.cons.inj hrest).2]

end Numerals

end Netstring
