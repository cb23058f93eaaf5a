/-
`ORDER BY … LIMIT 1` over rows met in any order.

* `IsTop` — the rows it may give, one of which it does (`isTop_of_argmin`);
* `argmin_front` — any of them, in an order that meets it first;
* `argmin_of_perm` — always the same, when there are not two of them; and only then
  (`argmin_perm_iff`);
* `find?_insertionSort` — the first hit of a stable sort is such a row;
* `find?_perm_iff` — what is read of the first hit does not depend on the order exactly when
  it is the same for all hits.
-/
import Mathlib.Data.List.MinMax
import Mathlib.Data.List.Sort

namespace Relational

variable {ρ β : Type} [LinearOrder β] {rank : ρ → β} {rows rows' : List ρ} {r : ρ}

/-- A row that none comes before. -/
def IsTop (rank : ρ → β) (rows : List ρ) (r : ρ) : Prop := r ∈ rows ∧ ∀ r' ∈ rows, rank r ≤ rank r'

/-- At most one row comes first. -/
def OneTop (rank : ρ → β) (rows : List ρ) : Prop :=
  ∀ r r', IsTop rank rows r → IsTop rank rows r' → r = r'

theorem isTop_of_argmin (h : rows.argmin rank = some r) : IsTop rank rows r :=
  ⟨List.argmin_mem h, fun _ hr' => List.le_of_mem_argmin hr' h⟩

theorem isTop_of_perm (hperm : rows'.Perm rows) (h : IsTop rank rows' r) : IsTop rank rows r :=
  ⟨hperm.mem_iff.mp h.1, fun r' hr' => h.2 r' (hperm.mem_iff.mpr hr')⟩

/-- A first row is given by an order that meets it first. -/
theorem argmin_front [DecidableEq ρ] {p : ρ → Bool} (h : IsTop rank (rows.filter p) r) :
    ((r :: rows.erase r).filter p).argmin rank = some r := by
  have hp : p r = true := (List.mem_filter.mp h.1).2
  rw [List.filter_cons_of_pos hp, List.argmin_eq_some_iff]
  refine ⟨List.mem_cons_self, ?_, ?_⟩
  · intro r' hr'
    rcases List.mem_cons.mp hr' with rfl | hr'
    · exact le_refl _
    · exact h.2 r' ((List.erase_sublist.filter p).subset hr')
  · intro r' _ _
    rw [List.idxOf_cons_self]
    exact Nat.zero_le _

theorem front_perm [DecidableEq ρ] (h : r ∈ rows) : (r :: rows.erase r).Perm rows :=
  (List.perm_cons_erase h).symm

/-- The only first row is given whatever the order. -/
theorem argmin_of_perm (hperm : rows'.Perm rows) (hone : OneTop rank rows) :
    rows'.argmin rank = rows.argmin rank := by
  cases h : rows.argmin rank with
  | none =>
    rw [List.argmin_eq_none] at h ⊢
    exact List.perm_nil.mp (h ▸ hperm)
  | some r =>
    cases h' : rows'.argmin rank with
    | none =>
      rw [List.argmin_eq_none] at h'
      have hnil : rows = [] := List.nil_perm.mp (h' ▸ hperm)
      have hmem := (isTop_of_argmin h).1
      rw [hnil] at hmem
      exact absurd hmem List.not_mem_nil
    | some r' =>
      exact congrArg some (hone r' r (isTop_of_perm hperm (isTop_of_argmin h')) (isTop_of_argmin h))

/-- The row does not depend on the order exactly when there are not two to give. -/
theorem argmin_perm_iff [DecidableEq ρ] {p : ρ → Bool} :
    (∀ rows' : List ρ, rows'.Perm rows →
        (rows'.filter p).argmin rank = (rows.filter p).argmin rank) ↔
      OneTop rank (rows.filter p) := by
  constructor
  · intro h r r' hr hr'
    have hmem := List.mem_of_mem_filter hr.1
    have hmem' := List.mem_of_mem_filter hr'.1
    have hfirst := h _ (front_perm hmem)
    have hfirst' := h _ (front_perm hmem')
    rw [argmin_front hr] at hfirst
    rw [argmin_front hr'] at hfirst'
    exact Option.some_inj.mp (hfirst.trans hfirst'.symm)
  · intro hone rows' hperm
    exact argmin_of_perm (hperm.filter p) hone

/-! ### The first hit of a stable sort -/

/-- Inserting a row before those that it does not come after. -/
theorem find?_orderedInsert {p : ρ → Bool} (hsorted : rows.Pairwise fun a b => rank a ≤ rank b) :
    (rows.orderedInsert (fun a b => rank a ≤ rank b) r).find? p =
      if p r then some (((rows.find? p).filter fun b => rank b < rank r).getD r)
      else rows.find? p := by
  induction rows with
  | nil => by_cases hp : p r = true <;> simp [hp]
  | cons b rest ih =>
    obtain ⟨hb, hrest⟩ := List.pairwise_cons.mp hsorted
    rw [List.orderedInsert_cons]
    split
    · next hle =>
      by_cases hp : p r = true
      · -- everything after `r` is at least as large
        rw [List.find?_cons_of_pos hp, if_pos hp]
        cases hfind : (b :: rest).find? p with
        | none => rfl
        | some c =>
          have hc : rank r ≤ rank c := by
            rcases List.mem_cons.mp (List.mem_of_find?_eq_some hfind) with rfl | hc
            · exact hle
            · exact hle.trans (hb c hc)
          simp [Option.filter, not_lt.mpr hc]
      · rw [List.find?_cons_of_neg hp, if_neg hp]
    · next hlt =>
      have hlt := not_le.mp hlt
      by_cases hpb : p b = true
      · rw [List.find?_cons_of_pos hpb, List.find?_cons_of_pos hpb]
        by_cases hp : p r = true
        · simp [Option.filter, hp, hlt]
        · rw [if_neg hp]
      · rw [List.find?_cons_of_neg hpb, List.find?_cons_of_neg hpb]
        exact ih hrest

theorem find?_insertionSort {p : ρ → Bool} :
    (rows.insertionSort fun a b => rank a ≤ rank b).find? p = (rows.filter p).argmin rank := by
  induction rows with
  | nil => rfl
  | cons a rest ih =>
    have hsorted := List.pairwise_insertionSort (fun a b : ρ => rank a ≤ rank b) rest
    rw [List.insertionSort_cons, find?_orderedInsert hsorted, ih]
    by_cases hp : p a = true
    · rw [if_pos hp, List.filter_cons_of_pos hp, List.argmin_cons]
      cases (rest.filter p).argmin rank with
      | none => rfl
      | some c => by_cases hlt : rank c < rank a <;> simp [Option.filter, hlt]
    · rw [if_neg hp, List.filter_cons_of_neg hp]

/-! ### The first hit in any order -/

theorem isSome_find?_perm {ρ : Type} {p : ρ → Bool} {rows rows' : List ρ}
    (hperm : rows'.Perm rows) : (rows'.find? p).isSome = (rows.find? p).isSome := by
  rw [Bool.eq_iff_iff, List.find?_isSome, List.find?_isSome]
  exact exists_congr fun r => and_congr_left fun _ => hperm.mem_iff

/-- A hit is the first one of an order that meets it first. -/
theorem find?_front {ρ : Type} {p : ρ → Bool} {rows : List ρ} {r : ρ} (hr : r ∈ rows)
    (hp : p r = true) : ∃ rows' : List ρ, rows'.Perm rows ∧ rows'.find? p = some r := by
  obtain ⟨before, after, rfl⟩ := List.append_of_mem hr
  exact ⟨r :: (before ++ after), List.perm_middle.symm, List.find?_cons_of_pos hp⟩

theorem find?_perm_iff {ρ κ : Type} {p : ρ → Bool} {f : ρ → κ} {rows : List ρ} :
    (∀ rows' : List ρ, rows'.Perm rows → (rows'.find? p).map f = (rows.find? p).map f) ↔
      ∀ r ∈ rows, ∀ r' ∈ rows, p r = true → p r' = true → f r = f r' := by
  constructor
  · intro h r hr r' hr' hp hp'
    obtain ⟨rows₁, hperm₁, hfind₁⟩ := find?_front hr hp
    obtain ⟨rows₂, hperm₂, hfind₂⟩ := find?_front hr' hp'
    have h₁ := h rows₁ hperm₁
    have h₂ := h rows₂ hperm₂
    rw [hfind₁] at h₁
    rw [hfind₂] at h₂
    exact Option.some_inj.mp (h₁.trans h₂.symm)
  · intro h rows' hperm
    have hsome := @isSome_find?_perm ρ p rows rows' hperm
    cases hfind : rows.find? p with
    | none =>
      rw [hfind, Option.isSome_none, Option.isSome_eq_false_iff, Option.isNone_iff_eq_none] at hsome
      rw [hsome]
    | some r =>
      rw [hfind, Option.isSome_some, Option.isSome_iff_exists] at hsome
      obtain ⟨r', hfind'⟩ := hsome
      have hmem' := hperm.mem_iff.mp (List.mem_of_find?_eq_some hfind')
      rw [hfind', Option.map_some, Option.map_some,
        h r' hmem' r (List.mem_of_find?_eq_some hfind) (List.find?_some hfind')
          (List.find?_some hfind)]

end Relational
