/-
Sums and counts over the rows a query selects.

* `total` — `sum(weight)`; `countDistinct` — `count(distinct key)`; both can only shrink when
  fewer rows are selected (`total_mono`, `countDistinct_mono`);
* `groupTotals` — `sum(weight) … GROUP BY key`, with `sum_groupTotals`: the groups' sums add up
  to the sum over all rows, `le_total_of_mem`: none of them exceeds it, and `lookup_groupTotals`:
  each is the sum over the rows of its key;
* `total_filter_add` — a sum split by a condition; `total_filter_eq_iff` and
  `countDistinct_filter_eq_iff`: when the rows that meet it make up the whole.
-/
import Mathlib.Algebra.BigOperators.Group.Finset.Piecewise
import Mathlib.Algebra.BigOperators.Group.List.Basic
import Mathlib.Algebra.GroupWithZero.Nat
import Mathlib.Algebra.Order.BigOperators.Group.List
import Mathlib.Algebra.Order.Group.Nat
import Mathlib.Data.List.Dedup

namespace Relational

variable {ρ κ : Type} [DecidableEq κ] {key : ρ → κ} {weight : ρ → ℕ} {rows rows' : List ρ}

/-- `sum(weight)`. -/
def total (weight : ρ → ℕ) (rows : List ρ) : ℕ := (rows.map weight).sum

/-- `count(distinct key)`. -/
def countDistinct (key : ρ → κ) (rows : List ρ) : ℕ := (rows.map key).dedup.length

@[simp] theorem total_nil : total weight [] = 0 := rfl

@[simp] theorem total_cons (r : ρ) : total weight (r :: rows) = weight r + total weight rows :=
  List.sum_cons

theorem total_mono (h : rows.Sublist rows') : total weight rows ≤ total weight rows' :=
  (h.map weight).sum_le_sum fun _ _ => Nat.zero_le _

theorem countDistinct_mono (h : rows ⊆ rows') :
    countDistinct key rows ≤ countDistinct key rows' := by
  refine (List.subperm_of_subset (List.nodup_dedup _) fun k hk => ?_).length_le
  exact List.mem_dedup.mpr (List.map_subset key h (List.mem_dedup.mp hk))

/-- `sum(weight) … GROUP BY key`, a group for each key there is. -/
def groupTotals (key : ρ → κ) (weight : ρ → ℕ) (rows : List ρ) : List (κ × ℕ) :=
  (rows.map key).dedup.map fun k => (k, total weight (rows.filter fun r => key r = k))

@[simp] theorem length_groupTotals :
    (groupTotals key weight rows).length = countDistinct key rows :=
  List.length_map _

theorem le_total_of_mem {g : κ × ℕ} (h : g ∈ groupTotals key weight rows) :
    g.2 ≤ total weight rows := by
  obtain ⟨k, _, rfl⟩ := List.mem_map.mp h
  exact total_mono List.filter_sublist

/-- Over any keys without repetition that cover the rows, the groups make up the whole. -/
theorem sum_total_filter {ks : List κ} (hks : ks.Nodup) (h : ∀ r ∈ rows, key r ∈ ks) :
    (ks.map fun k => total weight (rows.filter fun r => key r = k)).sum = total weight rows := by
  induction rows with
  | nil =>
    refine List.sum_eq_zero fun n hn => ?_
    obtain ⟨k, _, rfl⟩ := List.mem_map.mp hn
    rfl
  | cons r rows ih =>
    have hgroup : ∀ k, total weight ((r :: rows).filter fun r => key r = k) =
        (if k = key r then weight r else 0) + total weight (rows.filter fun r => key r = k) := by
      intro k
      by_cases hk : key r = k
      · simp [hk]
      · simp [hk, Ne.symm hk]
    have hone : (ks.map fun k => if k = key r then weight r else 0).sum = weight r := by
      rw [← List.sum_toFinset _ hks, Finset.sum_ite_eq',
        if_pos (List.mem_toFinset.mpr (h r List.mem_cons_self))]
    calc (ks.map fun k => total weight ((r :: rows).filter fun r => key r = k)).sum
        = (ks.map fun k => (if k = key r then weight r else 0) +
            total weight (rows.filter fun r => key r = k)).sum := by simp only [hgroup]
      _ = weight r + total weight rows := by
        rw [List.sum_map_add, hone, ih fun r hr => h r (List.mem_cons_of_mem _ hr)]
      _ = total weight (r :: rows) := (total_cons r).symm

theorem sum_groupTotals :
    ((groupTotals key weight rows).map Prod.snd).sum = total weight rows := by
  rw [groupTotals, List.map_map]
  refine sum_total_filter (List.nodup_dedup _) fun r hr => ?_
  exact List.mem_dedup.mpr (List.mem_map_of_mem hr)

/-- A group, by its key; a key without rows has none. -/
theorem lookup_groupTotals (k : κ) : ((groupTotals key weight rows).lookup k).getD 0 =
    total weight (rows.filter fun r => key r = k) := by
  have hlookup : ∀ ks : List κ, (k ∈ ks ∨ total weight (rows.filter fun r => key r = k) = 0) →
      ((ks.map fun k => (k, total weight (rows.filter fun r => key r = k))).lookup k).getD 0 =
        total weight (rows.filter fun r => key r = k) := by
    intro ks
    induction ks with
    | nil => exact fun h => (h.resolve_left List.not_mem_nil).symm
    | cons k' ks ih =>
      intro h
      rw [List.map_cons, List.lookup_cons]
      by_cases hk : k = k'
      · simp [hk]
      · rw [beq_eq_false_iff_ne.mpr hk]
        exact ih (h.imp_left fun h => (List.mem_cons.mp h).resolve_left hk)
  refine hlookup _ ?_
  by_cases hk : k ∈ rows.map key
  · exact Or.inl (List.mem_dedup.mpr hk)
  · refine Or.inr ?_
    rw [List.filter_eq_nil_iff.mpr]
    · rfl
    · intro r hr hkey
      exact hk (List.mem_map.mpr ⟨r, hr, of_decide_eq_true hkey⟩)

/-- Rows with a property and those without make up all of them. -/
theorem total_filter_add (p : ρ → Bool) : total weight (rows.filter p) +
    total weight (rows.filter fun r => ! p r) = total weight rows := by
  induction rows with
  | nil => rfl
  | cons r rows ih =>
    rw [total_cons, ← ih]
    cases hp : p r with
    | true =>
      rw [List.filter_cons_of_pos hp, List.filter_cons_of_neg (by simp [hp]), total_cons]
      omega
    | false =>
      rw [List.filter_cons_of_neg (by simp [hp]), List.filter_cons_of_pos (by simp [hp]),
        total_cons]
      omega

/-- The rows left out weigh nothing. -/
theorem total_filter_eq_iff {p : ρ → Bool} : total weight (rows.filter p) = total weight rows ↔
    ∀ r ∈ rows, p r = false → weight r = 0 := by
  have hsplit : total weight (rows.filter p) + total weight (rows.filter fun r => ! p r) =
      total weight rows := total_filter_add p
  have hzero : total weight (rows.filter fun r => ! p r) = 0 ↔
      ∀ r ∈ rows, p r = false → weight r = 0 := by
    rw [total, List.sum_eq_zero_iff, List.forall_mem_map, List.forall_mem_filter]
    simp only [Bool.not_eq_true']
  rw [← hzero]
  omega

/-- The rows left out have keys that are among those of the others. -/
theorem countDistinct_filter_eq_iff {p : ρ → Bool} :
    countDistinct key (rows.filter p) = countDistinct key rows ↔
      ∀ r ∈ rows, p r = false → ∃ r' ∈ rows, p r' = true ∧ key r' = key r := by
  have hsub : (rows.filter p).map key ⊆ rows.map key :=
    List.map_subset key List.filter_sublist.subset
  constructor
  · intro h r hr _
    have hsubperm : ((rows.filter p).map key).dedup.Subperm (rows.map key).dedup :=
      List.subperm_of_subset (List.nodup_dedup _) fun k hk =>
        List.mem_dedup.mpr (hsub (List.mem_dedup.mp hk))
    have hperm := hsubperm.perm_of_length_le (le_of_eq h.symm)
    have hmem := hperm.mem_iff.mpr (List.mem_dedup.mpr (List.mem_map_of_mem (f := key) hr))
    obtain ⟨r', hr', hkey⟩ := List.mem_map.mp (List.mem_dedup.mp hmem)
    obtain ⟨hr', hp⟩ := List.mem_filter.mp hr'
    exact ⟨r', hr', hp, hkey⟩
  · intro h
    refine le_antisymm (countDistinct_mono List.filter_sublist.subset) ?_
    refine (List.subperm_of_subset (List.nodup_dedup _) fun k hk => ?_).length_le
    obtain ⟨r, hr, rfl⟩ := List.mem_map.mp (List.mem_dedup.mp hk)
    refine List.mem_dedup.mpr ?_
    cases hp : p r with
    | true => exact List.mem_map_of_mem (List.mem_filter.mpr ⟨hr, hp⟩)
    | false =>
      obtain ⟨r', hr', hp', hkey⟩ := h r hr hp
      exact List.mem_map.mpr ⟨r', List.mem_filter.mpr ⟨hr', hp'⟩, hkey⟩

end Relational
