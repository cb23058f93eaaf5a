/-
Weights of which one in each slot counts.

Every item has a weight and a slot, and of the items of one slot at most one is ever chosen.

* `exposure` — the largest weight of each slot, summed: what the items can weigh at most;
* `sum_le_exposure` — no choice weighs more; `exposure_mono` — more items, more exposure;
* `exposure_le_of_one_slot` — the items of one slot weigh no more than one of them.
-/
import Mathlib.Algebra.BigOperators.Group.Finset.Basic
import Mathlib.Algebra.Order.BigOperators.Group.Finset
import Mathlib.Order.Interval.Set.Defs
import Mathlib.Data.Finset.Lattice.Fold
import Mathlib.Order.Lattice.Nat

namespace Slots

variable {ι κ : Type} [DecidableEq κ] {slot : ι → κ} {weight : ι → ℕ} {s t : Finset ι}

/-- What the items can weigh at most. -/
def exposure (slot : ι → κ) (weight : ι → ℕ) (s : Finset ι) : ℕ :=
  ∑ k ∈ s.image slot, (s.filter fun i => slot i = k).sup weight

/-- An item weighs no more than the largest of its slot. -/
theorem weight_le_sup {i : ι} (hi : i ∈ s) :
    weight i ≤ (s.filter fun j => slot j = slot i).sup weight :=
  Finset.le_sup (Finset.mem_filter.mpr ⟨hi, rfl⟩)

theorem sum_le_exposure (hts : t ⊆ s) (hinj : Set.InjOn slot t) :
    ∑ i ∈ t, weight i ≤ exposure slot weight s := by
  calc ∑ i ∈ t, weight i
      ≤ ∑ i ∈ t, (s.filter fun j => slot j = slot i).sup weight := by
        exact Finset.sum_le_sum fun i hi => weight_le_sup (hts hi)
    _ = ∑ k ∈ t.image slot, (s.filter fun j => slot j = k).sup weight :=
        (Finset.sum_image (f := fun k => (s.filter fun j => slot j = k).sup weight) hinj).symm
    _ ≤ exposure slot weight s := Finset.sum_le_sum_of_subset (Finset.image_subset_image hts)

theorem exposure_mono (h : t ⊆ s) : exposure slot weight t ≤ exposure slot weight s := by
  calc exposure slot weight t
      ≤ ∑ k ∈ t.image slot, (s.filter fun i => slot i = k).sup weight := by
        refine Finset.sum_le_sum fun k _ => Finset.sup_mono ?_
        exact Finset.filter_subset_filter _ h
    _ ≤ exposure slot weight s := Finset.sum_le_sum_of_subset (Finset.image_subset_image h)

theorem exposure_le_of_one_slot {bound : ℕ} (hslot : ∀ i ∈ s, ∀ j ∈ s, slot i = slot j)
    (hweight : ∀ i ∈ s, weight i ≤ bound) : exposure slot weight s ≤ bound := by
  have hsup : ∀ k, (s.filter fun i => slot i = k).sup weight ≤ bound := by
    intro k
    refine Finset.sup_le fun i hi => ?_
    exact hweight i (Finset.mem_filter.mp hi).1
  rcases s.eq_empty_or_nonempty with rfl | ⟨i, hi⟩
  · exact Nat.zero_le _
  · have himage : s.image slot = {slot i} := by
      refine Finset.eq_singleton_iff_unique_mem.mpr ⟨Finset.mem_image_of_mem slot hi, ?_⟩
      intro k hk
      obtain ⟨j, hj, rfl⟩ := Finset.mem_image.mp hk
      exact hslot j hj i hi
    rw [exposure, himage, Finset.sum_singleton]
    exact hsup _

end Slots
