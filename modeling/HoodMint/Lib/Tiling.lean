/-
Pieces of a range, one after the other.

* `Tiles` — every piece starts where the one before it has ended;
* `mem_iff` — a place is in some piece exactly when it is in the range;
* `pairwise` — and in one only.
-/
import Mathlib.Data.Nat.Notation

namespace Tiling

variable {α : Type} {first last : α → ℕ} {a b n : ℕ} {w : α} {ws : List α}

/-- The pieces, each from its `first` place to its `last`, cover the places from `a` on and
below `b`. -/
def Tiles (first last : α → ℕ) : ℕ → ℕ → List α → Prop
  | a, b, [] => a = b
  | a, b, w :: ws => first w = a ∧ a ≤ last w ∧ Tiles first last (last w + 1) b ws

theorem Tiles.le (h : Tiles first last a b ws) : a ≤ b := by
  induction ws generalizing a with
  | nil => exact Nat.le_of_eq h
  | cons w ws ih =>
    obtain ⟨-, hle, hrest⟩ := h
    have hrest := ih hrest
    omega

/-- Every piece lies in the range. -/
theorem Tiles.bounds (h : Tiles first last a b ws) (hw : w ∈ ws) :
    a ≤ first w ∧ first w ≤ last w ∧ last w < b := by
  induction ws generalizing a with
  | nil => exact absurd hw List.not_mem_nil
  | cons w' ws ih =>
    obtain ⟨hfirst, hle, hrest⟩ := h
    obtain rfl | hw := List.mem_cons.mp hw
    · have hend := hrest.le
      omega
    · have hbounds := ih hrest hw
      omega

/-- **No gap**: the pieces hold the places of the range and no others. -/
theorem Tiles.mem_iff (h : Tiles first last a b ws) :
    (∃ w ∈ ws, first w ≤ n ∧ n ≤ last w) ↔ a ≤ n ∧ n < b := by
  constructor
  · intro hn
    obtain ⟨w, hw, hn⟩ := hn
    have hbounds := h.bounds hw
    omega
  · intro hn
    induction ws generalizing a with
    | nil =>
      have hab : a = b := h
      omega
    | cons w ws ih =>
      obtain ⟨hfirst, hle, hrest⟩ := h
      by_cases hin : n ≤ last w
      · exact ⟨w, List.mem_cons_self, by omega, hin⟩
      · obtain ⟨w', hw', hn'⟩ := ih hrest (by omega)
        exact ⟨w', List.mem_cons_of_mem w hw', hn'⟩

/-- **No overlap**: every piece ends before the later ones start. -/
theorem Tiles.pairwise (h : Tiles first last a b ws) :
    ws.Pairwise fun w w' => last w < first w' := by
  induction ws generalizing a with
  | nil => exact List.Pairwise.nil
  | cons w ws ih =>
    obtain ⟨-, -, hrest⟩ := h
    refine List.pairwise_cons.mpr ⟨fun w' hw' => ?_, ih hrest⟩
    have hbounds := hrest.bounds hw'
    omega

end Tiling
