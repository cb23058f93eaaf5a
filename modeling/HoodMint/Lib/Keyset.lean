/-
Keyset pagination: pages of an ordered listing, each cut after the last row of the one before.

* `follow` — pages one after the other, until one hands on no cursor;
* `follow_iff` — they make up the listing just when every cursor handed on leaves the rest of it;
* `follow_mark_iff` — for a cursor that is compared by a mark of the row: at every page boundary
  the mark must separate the rows as the row's own position does;
* `follow_backward_iff` — a comparison the wrong way around gives the listing on one page or never.
-/
import Mathlib.Data.List.Nodup
import Mathlib.Data.List.Infix
import Mathlib.Order.Lattice

namespace Keyset

section

variable {ρ : Type} {rows : List ρ} {after : ρ → ρ → Bool} {limit fuel k n : ℕ} {r : ρ}
  {cursor : Option ρ} {out : List ρ}

/-- What a page is cut from. -/
def found (rows : List ρ) (after : ρ → ρ → Bool) : Option ρ → List ρ
  | none => rows
  | some r => rows.filter (after r)

/-- The last row of a page that is not the last page. -/
def handOn (limit : ℕ) (found : List ρ) : Option ρ :=
  if limit < found.length then (found.take limit).getLast? else none

/-- Pages one after the other, until one hands on no cursor. -/
def follow (rows : List ρ) (after : ρ → ρ → Bool) (limit : ℕ) : ℕ → Option ρ → Option (List ρ)
  | 0, _ => none
  | fuel + 1, cursor =>
    match handOn limit (found rows after cursor) with
    | none => some ((found rows after cursor).take limit)
    | some r =>
      (follow rows after limit fuel (some r)).map ((found rows after cursor).take limit ++ ·)

/-- Row `r` ends page `k` of the listing, and there are more. -/
def Boundary (rows : List ρ) (limit k : ℕ) (r : ρ) : Prop :=
  (k + 1) * limit < rows.length ∧ rows[(k + 1) * limit - 1]? = some r

/-! ### One page -/

theorem handOn_eq_none (hlimit : 0 < limit) {found : List ρ} :
    handOn limit found = none ↔ found.length ≤ limit := by
  unfold handOn
  split
  · rename_i hmore
    rw [List.getLast?_eq_none_iff, List.take_eq_nil_iff]
    constructor
    · rintro (h | h)
      · omega
      · simp [h] at hmore
    · intro h
      omega
  · rename_i hmore
    exact iff_of_true rfl (Nat.not_lt.mp hmore)

theorem handOn_eq_some {found : List ρ} (h : handOn limit found = some r) :
    limit < found.length ∧ found[limit - 1]? = some r := by
  unfold handOn at h
  split at h
  · rename_i hmore
    refine ⟨hmore, ?_⟩
    have hlength : (found.take limit).length = limit := by
      rw [List.length_take]
      omega
    rw [List.getLast?_eq_getElem?, hlength, List.getElem?_take] at h
    split at h
    · exact h
    · exact absurd h.symm (Option.some_ne_none r)
  · exact absurd h.symm (Option.some_ne_none r)

/-- What remains of the listing hands on the row at its next boundary. -/
theorem boundary_of_handOn (hlimit : 0 < limit)
    (h : handOn limit (rows.drop (k * limit)) = some r) : Boundary rows limit k r := by
  obtain ⟨hmore, hrow⟩ := handOn_eq_some h
  rw [List.length_drop] at hmore
  rw [List.getElem?_drop] at hrow
  have hnext : (k + 1) * limit = k * limit + limit := Nat.succ_mul k limit
  refine ⟨by omega, ?_⟩
  rw [show (k + 1) * limit - 1 = k * limit + (limit - 1) by omega]
  exact hrow

theorem mem_of_boundary (h : Boundary rows limit k r) : r ∈ rows := List.mem_of_getElem? h.2

/-- One page is all when it has no boundary. -/
theorem length_le_iff (hlimit : 0 < limit) :
    rows.length ≤ limit ↔ ∀ k r, ¬ Boundary rows limit k r := by
  constructor
  · intro hlast k r h
    have hmore := h.1
    rw [Nat.succ_mul] at hmore
    omega
  · intro hnone
    refine Nat.le_of_not_lt fun hmore => ?_
    refine hnone 0 (rows.get ⟨limit - 1, by omega⟩) ⟨by omega, ?_⟩
    rw [Nat.zero_add, Nat.one_mul]
    exact List.getElem?_eq_getElem (by omega)

/-- The pages begin with what the first of them finds. -/
theorem head?_follow (hlimit : 0 < limit) (h : follow rows after limit fuel cursor = some out) :
    out.head? = (found rows after cursor).head? := by
  have htake : ((found rows after cursor).take limit).head? = (found rows after cursor).head? := by
    rw [List.head?_take, if_neg (Nat.ne_of_gt hlimit)]
  cases fuel with
  | zero => exact absurd h.symm (Option.some_ne_none out)
  | succ fuel =>
    rw [follow] at h
    cases hon : handOn limit (found rows after cursor) with
    | none =>
      simp only [hon, Option.some.injEq] at h
      exact h ▸ htake
    | some r =>
      simp only [hon, Option.map_eq_some_iff] at h
      obtain ⟨rest, _, rfl⟩ := h
      have hmore := (handOn_eq_some hon).1
      rw [List.head?_append, htake]
      cases hfound : found rows after cursor with
      | nil =>
        rw [hfound] at hmore
        exact absurd hmore (Nat.not_lt_zero limit)
      | cons s rest' => rfl

/-! ### All pages -/

/-- Every cursor leaves the rest of the listing. -/
def Separates (rows : List ρ) (after : ρ → ρ → Bool) (limit : ℕ) : Prop :=
  ∀ k r, Boundary rows limit k r → rows.filter (after r) = rows.drop ((k + 1) * limit)

/-- **What separating cursors give.**  Induction on the pages that are left. -/
theorem follow_of_separates (hlimit : 0 < limit) (hsep : Separates rows after limit) :
    ∀ fuel k cursor, found rows after cursor = rows.drop (k * limit) →
      rows.length ≤ (k + (fuel + 1)) * limit →
      follow rows after limit (fuel + 1) cursor = some (rows.drop (k * limit)) := by
  intro fuel
  induction fuel with
  | zero =>
    intro k cursor hfound hfuel
    have hlast : (rows.drop (k * limit)).length ≤ limit := by
      rw [List.length_drop]
      rw [Nat.add_mul] at hfuel
      omega
    rw [follow, hfound, (handOn_eq_none hlimit).mpr hlast]
    exact congrArg some (List.take_of_length_le hlast)
  | succ fuel ih =>
    intro k cursor hfound hfuel
    rw [follow, hfound]
    cases hon : handOn limit (rows.drop (k * limit)) with
    | none => exact congrArg some (List.take_of_length_le ((handOn_eq_none hlimit).mp hon))
    | some r =>
      have hnext := hsep k r (boundary_of_handOn hlimit hon)
      have hrest := ih (k + 1) (some r) hnext (by
        rw [show k + 1 + (fuel + 1) = k + (fuel + 1 + 1) by omega]
        exact hfuel)
      show (follow rows after limit (fuel + 1) (some r)).map _ = _
      rw [hrest, Option.map_some, Nat.succ_mul, ← List.drop_drop]
      exact congrArg some (List.take_append_drop limit _)

/-- A suffix of a listing without repetition is known by the row it begins with. -/
theorem suffix_eq_drop (hnodup : rows.Nodup) {l : List ρ} (hl : l <:+ rows)
    (hn : n < rows.length) (hhead : l.head? = (rows.drop n).head?) : l = rows.drop n := by
  obtain ⟨pre, rfl⟩ := hl
  rw [List.head?_drop] at hhead
  have hsome : l.head? = some (pre ++ l)[n] := hhead.trans (List.getElem?_eq_getElem hn)
  have hpre : (pre ++ l)[pre.length]? = l.head? := by
    rw [List.getElem?_append_right (Nat.le_refl _), Nat.sub_self, List.head?_eq_getElem?]
  have hlength : pre.length < (pre ++ l).length := by
    refine Nat.lt_of_not_le fun hge => ?_
    rw [List.getElem?_eq_none hge, hsome] at hpre
    exact Option.some_ne_none _ hpre.symm
  have heq : pre.length = n := by
    have hne := List.nodup_iff_getElem?_ne_getElem?.mp hnodup
    rcases Nat.lt_trichotomy pre.length n with hlt | heq | hlt
    · exact absurd (hpre.trans hhead) (hne _ _ hlt hn)
    · exact heq
    · exact absurd (hpre.trans hhead).symm (hne _ _ hlt hlength)
  rw [← heq, List.drop_left]

/-- **What pages that make up the listing need.**  Each is found to begin where the last ended. -/
theorem separates_of_follow (hlimit : 0 < limit) (hnodup : rows.Nodup)
    (hsuffix : ∀ r, rows.filter (after r) <:+ rows) :
    ∀ fuel k cursor, found rows after cursor = rows.drop (k * limit) →
      follow rows after limit fuel cursor = some (rows.drop (k * limit)) →
      ∀ k' r, k ≤ k' → Boundary rows limit k' r →
        rows.filter (after r) = rows.drop ((k' + 1) * limit) := by
  intro fuel
  induction fuel with
  | zero =>
    intro k cursor _ h
    exact absurd h.symm (Option.some_ne_none _)
  | succ fuel ih =>
    intro k cursor hfound h k' r hk hboundary
    rw [follow, hfound] at h
    cases hon : handOn limit (rows.drop (k * limit)) with
    | none =>
      have hlast := (handOn_eq_none hlimit).mp hon
      have hle : (k + 1) * limit ≤ (k' + 1) * limit :=
        Nat.mul_le_mul_right limit (Nat.succ_le_succ hk)
      have hmore := hboundary.1
      rw [List.length_drop] at hlast
      rw [Nat.succ_mul] at hle
      omega
    | some r₁ =>
      have hboundary₁ := boundary_of_handOn hlimit hon
      simp only [hon, Option.map_eq_some_iff] at h
      obtain ⟨rest, hrest, happ⟩ := h
      have hdrop : rest = rows.drop ((k + 1) * limit) := by
        rw [Nat.succ_mul, ← List.drop_drop]
        exact List.append_cancel_left (happ.trans (List.take_append_drop limit _).symm)
      have hnext : rows.filter (after r₁) = rows.drop ((k + 1) * limit) := by
        refine suffix_eq_drop hnodup (hsuffix r₁) hboundary₁.1 ?_
        rw [← hdrop]
        exact (head?_follow hlimit hrest).symm
      rcases Nat.eq_or_lt_of_le hk with rfl | hlt
      · have hsame : r₁ = r := Option.some_inj.mp (hboundary₁.2.symm.trans hboundary.2)
        exact hsame ▸ hnext
      · exact ih (k + 1) (some r₁) hnext (hdrop ▸ hrest) k' r hlt hboundary

/-- **The pages make up the listing** just when the cursors separate it. -/
theorem follow_iff (hlimit : 0 < limit) (hnodup : rows.Nodup)
    (hsuffix : ∀ r, rows.filter (after r) <:+ rows) :
    (∃ fuel, follow rows after limit fuel none = some rows) ↔ Separates rows after limit := by
  have hzero : rows.drop (0 * limit) = rows := by rw [Nat.zero_mul, List.drop_zero]
  constructor
  · rintro ⟨fuel, h⟩ k r
    refine separates_of_follow hlimit hnodup hsuffix fuel 0 none hzero.symm ?_ k r (Nat.zero_le k)
    rw [hzero]
    exact h
  · intro hsep
    refine ⟨rows.length + 1, ?_⟩
    rw [follow_of_separates hlimit hsep rows.length 0 none hzero.symm, hzero]
    exact Nat.le_trans (Nat.le_succ _)
      (Nat.le_trans (Nat.le_mul_of_pos_right _ hlimit) (Nat.mul_le_mul_right _ (by omega)))

end

/-! ### Cursors that are compared by a mark -/

section

variable {ρ κ : Type} [LinearOrder κ] {pos mark : ρ → κ} {rows : List ρ} {limit n : ℕ} {r : ρ}

theorem nodup_of_sorted (hsorted : rows.Pairwise (pos · < pos ·)) : rows.Nodup := by
  refine List.Pairwise.imp ?_ hsorted
  rintro r s h rfl
  exact lt_irrefl (pos r) h

theorem filter_mark_suffix (hsorted : rows.Pairwise (pos · < pos ·)) (c : κ) :
    rows.filter (fun s => c < pos s) <:+ rows := by
  induction rows with
  | nil => exact List.suffix_rfl
  | cons s rows ih =>
    obtain ⟨hfirst, hrest⟩ := List.pairwise_cons.mp hsorted
    by_cases hs : c < pos s
    · rw [List.filter_eq_self.mpr]
      rintro s' hs'
      rcases List.mem_cons.mp hs' with rfl | hs'
      · exact decide_eq_true hs
      · exact decide_eq_true (lt_trans hs (hfirst s' hs'))
    · rw [List.filter_cons_of_neg (by simpa using hs)]
      exact (ih hrest).trans (List.suffix_cons s rows)

theorem filter_pos_eq_drop (hsorted : rows.Pairwise (pos · < pos ·)) (hr : rows[n]? = some r) :
    rows.filter (fun s => pos r < pos s) = rows.drop (n + 1) := by
  obtain ⟨hn, rfl⟩ := List.getElem?_eq_some_iff.mp hr
  have hbefore : (rows.take (n + 1)).filter (fun s => pos rows[n] < pos s) = [] := by
    refine List.filter_eq_nil_iff.mpr fun s hs => ?_
    obtain ⟨i, hi, rfl⟩ := List.mem_iff_getElem.mp hs
    rw [List.length_take] at hi
    rw [List.getElem_take]
    rcases Nat.eq_or_lt_of_le (show i ≤ n by omega) with rfl | hlt
    · simp
    · simpa using le_of_lt (List.pairwise_iff_getElem.mp hsorted i n (by omega) hn hlt)
  have hafter : (rows.drop (n + 1)).filter (fun s => pos rows[n] < pos s) =
      rows.drop (n + 1) := by
    refine List.filter_eq_self.mpr fun s hs => ?_
    obtain ⟨i, hi, rfl⟩ := List.mem_iff_getElem.mp hs
    rw [List.length_drop] at hi
    rw [List.getElem_drop]
    exact decide_eq_true (List.pairwise_iff_getElem.mp hsorted n (n + 1 + i) hn (by omega)
      (by omega))
  calc rows.filter (fun s => pos rows[n] < pos s)
      = (rows.take (n + 1) ++ rows.drop (n + 1)).filter (fun s => pos rows[n] < pos s) := by
        rw [List.take_append_drop]
    _ = rows.drop (n + 1) := by rw [List.filter_append, hbefore, hafter, List.nil_append]

/-- **Marks.**  At every boundary the mark separates the rows as the boundary row does. -/
theorem follow_mark_iff (hlimit : 0 < limit) (hsorted : rows.Pairwise (pos · < pos ·)) :
    (∃ fuel, follow rows (fun r s => mark r < pos s) limit fuel none = some rows) ↔
      ∀ k r, Boundary rows limit k r → ∀ s ∈ rows, (mark r < pos s ↔ pos r < pos s) := by
  rw [follow_iff hlimit (nodup_of_sorted hsorted) fun r => filter_mark_suffix hsorted (mark r)]
  refine forall₃_congr fun k r hboundary => ?_
  have hpos : 0 < (k + 1) * limit := Nat.mul_pos (Nat.succ_pos k) hlimit
  have hdrop := filter_pos_eq_drop hsorted hboundary.2
  rw [Nat.sub_add_cancel hpos] at hdrop
  rw [← hdrop]
  constructor
  · intro h s hs
    have hmem : s ∈ rows.filter (fun s => mark r < pos s) ↔
        s ∈ rows.filter (fun s => pos r < pos s) := by rw [h]
    simpa [hs] using hmem
  · intro h
    exact List.filter_congr fun s hs => decide_eq_decide.mpr (h s hs)

/-- **A comparison the wrong way around.**  The second page holds nothing that is left. -/
theorem follow_backward_iff (hlimit : 0 < limit) (hsorted : rows.Pairwise (pos · < pos ·))
    (hmark : ∀ r, mark r ≤ pos r) :
    (∃ fuel, follow rows (fun r s => pos s < mark r) limit fuel none = some rows) ↔
      rows.length ≤ limit := by
  constructor
  · rintro ⟨fuel, h⟩
    refine Nat.le_of_not_lt fun hmore => ?_
    cases fuel with
    | zero => exact absurd h.symm (Option.some_ne_none _)
    | succ fuel =>
      rw [follow] at h
      cases hon : handOn limit rows with
      | none => exact absurd ((handOn_eq_none hlimit).mp hon) (Nat.not_le.mpr hmore)
      | some r =>
        simp only [found, hon, Option.map_eq_some_iff] at h
        obtain ⟨rest, hrest, happ⟩ := h
        have hdrop : rest = rows.drop limit :=
          List.append_cancel_left (happ.trans (List.take_append_drop limit rows).symm)
        -- The row after the boundary is found below the mark, so below itself.
        have hhead := head?_follow hlimit hrest
        rw [hdrop, List.head?_drop, List.getElem?_eq_getElem hmore] at hhead
        have hbelow : pos rows[limit] < mark r :=
          of_decide_eq_true (List.mem_filter.mp (List.mem_of_head? hhead.symm)).2
        obtain ⟨hr, heq⟩ := List.getElem?_eq_some_iff.mp (handOn_eq_some hon).2
        have habove : pos r < pos rows[limit] := by
          rw [← heq]
          exact List.pairwise_iff_getElem.mp hsorted _ _ hr hmore (by omega)
        exact absurd (lt_of_lt_of_le hbelow (hmark r)) (lt_asymm habove)
  · intro hlast
    refine ⟨1, ?_⟩
    rw [follow, found, (handOn_eq_none hlimit).mpr hlast]
    exact congrArg some (List.take_of_length_le hlast)

end

end Keyset
