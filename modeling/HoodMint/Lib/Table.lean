/-
Tables with a primary key, and the statements of SQL that change them.

* `Table` — the rows, no two of which have the same key;
* `Table.insert`, `Table.upsert` — `INSERT … ON CONFLICT DO NOTHING` and `… DO UPDATE`;
  `Table.update`, `Table.delete` — the statements with a `WHERE` clause; each with the rows it
  leaves (`mem_insert`, `mem_upsert`, `mem_update`, `mem_delete`); `images_update` carries a
  relation between rows to the tables;
* `Table.get?` — the row of a key, and what a statement leaves of it (`get?_upsert`,
  `get?_update`, `get?_delete`, `get?_insert`);
* `Table.mem_foldl_insert`, `Table.exists_foldl_insert` — rows inserted one after the other;
* `Table.keepMax` — the largest row of each key (`weight_le_foldl_keepMax`,
  `exists_foldl_keepMax`);
* `Table.countP_le_of_key`, `Table.countP_lt_of_key` — rows counted by their keys;
* `Table.eq_of_key` — a row is known by its key.
-/
import Mathlib.Data.List.Nodup
import Mathlib.Data.List.Perm.Subperm

namespace Relational

/-- Rows with a key that no two of them share. -/
structure Table (ρ κ : Type) (key : ρ → κ) where
  rows : List ρ
  nodup : (rows.map key).Nodup

namespace Table

variable {ρ κ : Type} {key : ρ → κ} {t : Table ρ κ key} {r r' : ρ} {k : κ}

/-- The table without rows. -/
def empty : Table ρ κ key := ⟨[], List.nodup_nil⟩

instance : Membership ρ (Table ρ κ key) := ⟨fun t r => r ∈ t.rows⟩

instance (P : ρ → Prop) [DecidablePred P] : Decidable (∃ r ∈ t, P r) :=
  (inferInstance : Decidable (∃ r ∈ t.rows, P r))

instance (P : ρ → Prop) [DecidablePred P] : Decidable (∀ r ∈ t, P r) :=
  (inferInstance : Decidable (∀ r ∈ t.rows, P r))

theorem mem_rows : r ∈ t.rows ↔ r ∈ t := Iff.rfl

theorem not_mem_empty : r ∉ (empty : Table ρ κ key) := List.not_mem_nil

/-- A row is known by its key. -/
theorem eq_of_key (hr : r ∈ t) (hr' : r' ∈ t) (h : key r = key r') : r = r' :=
  List.inj_on_of_nodup_map t.nodup hr hr' h

/-! ### Updates and deletions -/

section

variable {p : ρ → Prop} [DecidablePred p] {f : ρ → ρ} {hf : ∀ r, key (f r) = key r}

/-- A column that `f` keeps. -/
theorem map_map_ite {α : Type} {g : ρ → α} (hg : ∀ r, g (f r) = g r) (rows : List ρ) :
    (rows.map fun r => if p r then f r else r).map g = rows.map g := by
  rw [List.map_map]
  refine List.map_congr_left fun r _ => ?_
  show g (if p r then f r else r) = g r
  split
  · exact hg r
  · rfl

/-- `UPDATE … WHERE p`: the rows in `p` are replaced by `f` of them, which keeps keys. -/
def update (t : Table ρ κ key) (p : ρ → Prop) [DecidablePred p] (f : ρ → ρ)
    (hf : ∀ r, key (f r) = key r) : Table ρ κ key where
  rows := t.rows.map fun r => if p r then f r else r
  nodup := by
    rw [map_map_ite hf]
    exact t.nodup

theorem map_update {α : Type} {g : ρ → α} (hg : ∀ r, g (f r) = g r) :
    (t.update p f hf).rows.map g = t.rows.map g :=
  map_map_ite hg t.rows

theorem mem_update : r ∈ t.update p f hf ↔ ∃ r₀ ∈ t, (if p r₀ then f r₀ else r₀) = r :=
  List.mem_map

/-- A row in the `WHERE` clause is replaced. -/
theorem mem_update_of_pos (hr : r ∈ t) (hp : p r) : f r ∈ t.update p f hf :=
  mem_update.mpr ⟨r, hr, if_pos hp⟩

/-- A row outside the `WHERE` clause stays. -/
theorem mem_update_of_neg (hr : r ∈ t) (hp : ¬ p r) : r ∈ t.update p f hf :=
  mem_update.mpr ⟨r, hr, if_neg hp⟩

/-- The rows after an update, one case for the rows replaced and one for the others. -/
theorem mem_update_iff :
    r ∈ t.update p f hf ↔ (∃ r₀ ∈ t, p r₀ ∧ r = f r₀) ∨ (r ∈ t ∧ ¬ p r) := by
  constructor
  · intro h
    obtain ⟨r₀, hr₀, rfl⟩ := mem_update.mp h
    by_cases hp : p r₀
    · rw [if_pos hp]
      exact Or.inl ⟨r₀, hr₀, hp, rfl⟩
    · rw [if_neg hp]
      exact Or.inr ⟨hr₀, hp⟩
  · rintro (⟨r₀, hr₀, hp, rfl⟩ | ⟨hr, hp⟩)
    · exact mem_update_of_pos hr₀ hp
    · exact mem_update_of_neg hr hp

theorem update_cases (h : r ∈ t.update p f hf) : (∃ r₀ ∈ t, p r₀ ∧ r = f r₀) ∨ (r ∈ t ∧ ¬ p r) :=
  mem_update_iff.mp h

/-- Every row of one table has a row of the other in the relation, both ways. -/
def Images (R : ρ → ρ → Prop) (t t' : Table ρ κ key) : Prop :=
  (∀ r ∈ t, ∃ r' ∈ t', R r r') ∧ ∀ r' ∈ t', ∃ r ∈ t, R r r'

/-- What relates each row to what an update makes of it, relates the tables. -/
theorem images_update {R : ρ → ρ → Prop} (hpos : ∀ r ∈ t, p r → R r (f r))
    (hneg : ∀ r ∈ t, ¬ p r → R r r) : t.Images R (t.update p f hf) := by
  constructor
  · intro r hr
    by_cases hp : p r
    · exact ⟨f r, mem_update_of_pos hr hp, hpos r hr hp⟩
    · exact ⟨r, mem_update_of_neg hr hp, hneg r hr hp⟩
  · intro r' hr'
    rcases update_cases hr' with ⟨r, hr, hp, rfl⟩ | ⟨hr, hp⟩
    · exact ⟨r, hr, hpos r hr hp⟩
    · exact ⟨r', hr, hneg r' hr hp⟩

theorem images_refl {R : ρ → ρ → Prop} (h : ∀ r ∈ t, R r r) : t.Images R t :=
  ⟨fun r hr => ⟨r, hr, h r hr⟩, fun r hr => ⟨r, hr, h r hr⟩⟩

/-- `DELETE … WHERE p`. -/
def delete (t : Table ρ κ key) (p : ρ → Prop) [DecidablePred p] : Table ρ κ key where
  rows := t.rows.filter fun r => ¬ p r
  nodup := (List.filter_sublist.map key).nodup t.nodup

theorem mem_delete : r ∈ t.delete p ↔ r ∈ t ∧ ¬ p r := by
  show r ∈ t.rows.filter _ ↔ _
  rw [List.mem_filter, decide_eq_true_iff]
  exact Iff.rfl

end

/-! ### Rows by their key -/

section

variable [DecidableEq κ]

/-- The row of a key. -/
def get? (t : Table ρ κ key) (k : κ) : Option ρ := t.rows.find? fun r => key r = k

theorem get?_eq_some : t.get? k = some r ↔ r ∈ t ∧ key r = k := by
  have hfound : ∀ {r}, t.get? k = some r → r ∈ t ∧ key r = k := by
    intro r h
    have hkey := List.find?_some (p := fun r => decide (key r = k)) h
    exact ⟨List.mem_of_find?_eq_some h, of_decide_eq_true hkey⟩
  refine ⟨hfound, ?_⟩
  rintro ⟨hr, hkey⟩
  cases h : t.get? k with
  | none =>
    have hnone := List.find?_eq_none.mp h r hr
    exact absurd (decide_eq_true hkey) hnone
  | some r₀ =>
    obtain ⟨hr₀, hkey₀⟩ := hfound h
    rw [eq_of_key hr₀ hr (hkey₀.trans hkey.symm)]

theorem get?_eq_none : t.get? k = none ↔ ∀ r ∈ t, key r ≠ k := by
  rw [get?, List.find?_eq_none]
  simp only [decide_eq_true_eq]
  exact Iff.rfl

/-- `INSERT … ON CONFLICT DO NOTHING`. -/
def insert (t : Table ρ κ key) (r : ρ) : Table ρ κ key :=
  if h : key r ∈ t.rows.map key then t else ⟨r :: t.rows, List.nodup_cons.mpr ⟨h, t.nodup⟩⟩

theorem mem_insert : r' ∈ t.insert r ↔ r' ∈ t ∨ (r' = r ∧ ∀ r₀ ∈ t, key r₀ ≠ key r) := by
  have hconflict : key r ∈ t.rows.map key ↔ ∃ r₀ ∈ t, key r₀ = key r := List.mem_map
  rw [insert]
  split
  · next h =>
    obtain ⟨r₀, hr₀, hkey⟩ := hconflict.mp h
    refine ⟨Or.inl, fun h => h.resolve_right ?_⟩
    rintro ⟨_, hnone⟩
    exact hnone r₀ hr₀ hkey
  · next h =>
    have hnone : ∀ r₀ ∈ t, key r₀ ≠ key r := fun r₀ hr₀ hkey => h (hconflict.mpr ⟨r₀, hr₀, hkey⟩)
    constructor
    · intro hr'
      rcases List.mem_cons.mp hr' with rfl | hr'
      · exact Or.inr ⟨rfl, hnone⟩
      · exact Or.inl hr'
    · rintro (hr' | ⟨rfl, _⟩)
      · exact List.mem_cons_of_mem _ hr'
      · exact List.mem_cons_self

/-- A row with a new key is added. -/
theorem insert_rows (h : ∀ r₀ ∈ t, key r₀ ≠ key r) : (t.insert r).rows = r :: t.rows := by
  have hnew : key r ∉ t.rows.map key := by
    intro hmem
    obtain ⟨r₀, hr₀, hkey⟩ := List.mem_map.mp hmem
    exact h r₀ hr₀ hkey
  rw [insert, dif_neg hnew]

/-- An insertion keeps every row. -/
theorem mem_insert_of_mem (h : r' ∈ t) : r' ∈ t.insert r := mem_insert.mpr (Or.inl h)

/-- `INSERT … ON CONFLICT DO UPDATE`, where every column but the key's is set. -/
def upsert (t : Table ρ κ key) (r : ρ) : Table ρ κ key where
  rows := r :: t.rows.filter fun r₀ => key r₀ ≠ key r
  nodup := by
    rw [List.map_cons, List.nodup_cons]
    constructor
    · intro hmem
      obtain ⟨r₀, hr₀, hkey⟩ := List.mem_map.mp hmem
      exact of_decide_eq_true (List.mem_filter.mp hr₀).2 hkey
    · exact (List.filter_sublist.map key).nodup t.nodup

theorem mem_upsert : r' ∈ t.upsert r ↔ r' = r ∨ (r' ∈ t ∧ key r' ≠ key r) := by
  show r' ∈ r :: t.rows.filter _ ↔ _
  rw [List.mem_cons, List.mem_filter, decide_eq_true_iff]
  exact Iff.rfl

/-- The row written is the row of its key; the other keys keep theirs. -/
theorem get?_upsert : (t.upsert r).get? k = if key r = k then some r else t.get? k := by
  split
  · next h => exact get?_eq_some.mpr ⟨mem_upsert.mpr (Or.inl rfl), h⟩
  · next h =>
    have hkept : ∀ r', r' ∈ t ∧ key r' = k → r' ∈ t.upsert r := by
      intro r' hr'
      exact mem_upsert.mpr (Or.inr ⟨hr'.1, fun hkey => h (hkey.symm.trans hr'.2)⟩)
    cases hold : t.get? k with
    | some r' =>
      obtain ⟨hr', hkey⟩ := get?_eq_some.mp hold
      exact get?_eq_some.mpr ⟨hkept r' ⟨hr', hkey⟩, hkey⟩
    | none =>
      refine get?_eq_none.mpr fun r' hr' hkey => ?_
      rcases mem_upsert.mp hr' with rfl | ⟨hr', _⟩
      · exact h hkey
      · exact get?_eq_none.mp hold r' hr' hkey

/-- The row of a key after an update. -/
theorem get?_update {p : ρ → Prop} [DecidablePred p] {f : ρ → ρ} {hf : ∀ r, key (f r) = key r} :
    (t.update p f hf).get? k = (t.get? k).map fun r => if p r then f r else r := by
  cases hold : t.get? k with
  | some r =>
    obtain ⟨hr, hkey⟩ := get?_eq_some.mp hold
    rw [Option.map_some, get?_eq_some]
    refine ⟨mem_update.mpr ⟨r, hr, rfl⟩, ?_⟩
    split
    · exact (hf r).trans hkey
    · exact hkey
  | none =>
    rw [Option.map_none, get?_eq_none]
    intro r hr hkey
    rcases update_cases hr with ⟨r₀, hr₀, _, rfl⟩ | ⟨hr, _⟩
    · exact get?_eq_none.mp hold r₀ hr₀ ((hf r₀).symm.trans hkey)
    · exact get?_eq_none.mp hold r hr hkey

/-- The row of a key after the rows of some other, or of it, are deleted. -/
theorem get?_delete {k' : κ} :
    (t.delete fun r => key r = k').get? k = if k = k' then none else t.get? k := by
  split
  · next h =>
    refine get?_eq_none.mpr fun r hr hkey => ?_
    exact (mem_delete.mp hr).2 (hkey.trans h)
  · next h =>
    cases hold : t.get? k with
    | some r =>
      obtain ⟨hr, hkey⟩ := get?_eq_some.mp hold
      exact get?_eq_some.mpr
        ⟨mem_delete.mpr ⟨hr, fun hkey' => h (hkey.symm.trans hkey')⟩, hkey⟩
    | none =>
      exact get?_eq_none.mpr fun r hr => get?_eq_none.mp hold r (mem_delete.mp hr).1

/-- The row of a key after an insertion. -/
theorem get?_insert :
    (t.insert r).get? k = if key r = k then some ((t.get? k).getD r) else t.get? k := by
  cases hold : t.get? k with
  | some r₀ =>
    obtain ⟨hr₀, hkey⟩ := get?_eq_some.mp hold
    have hkept : (t.insert r).get? k = some r₀ := get?_eq_some.mpr ⟨mem_insert_of_mem hr₀, hkey⟩
    rw [hkept, Option.getD_some, ite_self]
  | none =>
    have hnone := get?_eq_none.mp hold
    split
    · next h =>
      refine get?_eq_some.mpr ⟨mem_insert.mpr (Or.inr ⟨rfl, fun r₀ hr₀ hkey => ?_⟩), h⟩
      exact hnone r₀ hr₀ (hkey.trans h)
    · next h =>
      refine get?_eq_none.mpr fun r' hr' hkey => ?_
      rcases mem_insert.mp hr' with hr' | ⟨rfl, _⟩
      · exact hnone r' hr' hkey
      · exact h hkey

/-- Rows inserted one after the other: what was there stays, -/
theorem mem_foldl_insert_of_mem {rows : List ρ} (h : r ∈ t) : r ∈ rows.foldl insert t := by
  induction rows generalizing t with
  | nil => exact h
  | cons a rows ih => exact ih (mem_insert_of_mem h)

/-- what is there afterwards and was not is one of them, with a new key, -/
theorem mem_foldl_insert {rows : List ρ} (h : r ∈ rows.foldl insert t) :
    r ∈ t ∨ (r ∈ rows ∧ ∀ r₀ ∈ t, key r₀ ≠ key r) := by
  induction rows generalizing t with
  | nil => exact Or.inl h
  | cons a rows ih =>
    rcases ih h with h | ⟨h, hnew⟩
    · rcases mem_insert.mp h with h | ⟨rfl, hnew⟩
      · exact Or.inl h
      · exact Or.inr ⟨List.mem_cons_self, hnew⟩
    · exact Or.inr ⟨List.mem_cons_of_mem a h, fun r₀ hr₀ => hnew r₀ (mem_insert_of_mem hr₀)⟩

/-- and the key of each of them is there. -/
theorem exists_foldl_insert {rows : List ρ} (h : r ∈ rows) :
    ∃ r' ∈ rows.foldl insert t, key r' = key r := by
  induction rows generalizing t with
  | nil => exact absurd h List.not_mem_nil
  | cons a rows ih =>
    rw [List.foldl_cons]
    rcases List.mem_cons.mp h with rfl | h
    · by_cases hold : ∃ r₀ ∈ t, key r₀ = key r
      · obtain ⟨r₀, hr₀, hkey⟩ := hold
        exact ⟨r₀, mem_foldl_insert_of_mem (mem_insert_of_mem hr₀), hkey⟩
      · have hnew : ∀ r₀ ∈ t, key r₀ ≠ key r := fun r₀ hr₀ hkey => hold ⟨r₀, hr₀, hkey⟩
        exact ⟨r, mem_foldl_insert_of_mem (mem_insert.mpr (Or.inr ⟨rfl, hnew⟩)), rfl⟩
    · exact ih h

/-- Rows of different, new keys are all added. -/
theorem foldl_insert_rows {rows : List ρ} (hnodup : (rows.map key).Nodup)
    (hnew : ∀ r ∈ rows, ∀ r₀ ∈ t, key r₀ ≠ key r) :
    (rows.foldl insert t).rows = rows.reverse ++ t.rows := by
  induction rows generalizing t with
  | nil => rfl
  | cons a rows ih =>
    rw [List.map_cons, List.nodup_cons] at hnodup
    have hadded : (t.insert a).rows = a :: t.rows := insert_rows (hnew a List.mem_cons_self)
    have hrest : ∀ r ∈ rows, ∀ r₀ ∈ t.insert a, key r₀ ≠ key r := by
      intro r hr r₀ hr₀
      rcases mem_insert.mp hr₀ with hr₀ | ⟨rfl, -⟩
      · exact hnew r (List.mem_cons_of_mem a hr) r₀ hr₀
      · exact fun hkey => hnodup.1 (hkey ▸ List.mem_map_of_mem hr)
    rw [List.foldl_cons, ih hnodup.2 hrest, hadded, List.reverse_cons, List.append_assoc]
    rfl

/-- Rows written one after the other leave the other keys as they were. -/
theorem get?_foldl_upsert_of_forall_ne {rows : List ρ} (h : ∀ r ∈ rows, key r ≠ k) :
    (rows.foldl upsert t).get? k = t.get? k := by
  induction rows generalizing t with
  | nil => rfl
  | cons a rows ih =>
    have hrest : ∀ r ∈ rows, key r ≠ k := fun r hr => h r (List.mem_cons_of_mem a hr)
    rw [List.foldl_cons, ih hrest, get?_upsert, if_neg (h a List.mem_cons_self)]

/-- Rows of different keys are all there once they are written. -/
theorem get?_foldl_upsert_of_mem {rows : List ρ} (hnodup : (rows.map key).Nodup)
    (hr : r ∈ rows) : (rows.foldl upsert t).get? (key r) = some r := by
  induction rows generalizing t with
  | nil => exact absurd hr List.not_mem_nil
  | cons a rows ih =>
    rw [List.map_cons, List.nodup_cons] at hnodup
    obtain rfl | hr := List.mem_cons.mp hr
    · have hother : ∀ r' ∈ rows, key r' ≠ key r := fun r' hr' hkey =>
        hnodup.1 (hkey ▸ List.mem_map_of_mem hr')
      rw [List.foldl_cons, get?_foldl_upsert_of_forall_ne hother, get?_upsert, if_pos rfl]
    · exact ih hnodup.2 hr

/-! ### The largest row of each key -/

/-- Write a row, unless the one with its key weighs as much. -/
def keepMax (weight : ρ → ℕ) (t : Table ρ κ key) (r : ρ) : Table ρ κ key :=
  if (t.get? (key r)).elim 0 weight < weight r then t.upsert r else t

theorem elim_get?_keepMax {weight : ρ → ℕ} : ((t.keepMax weight r).get? k).elim 0 weight =
    if key r = k ∧ (t.get? k).elim 0 weight < weight r then weight r
    else (t.get? k).elim 0 weight := by
  rw [keepMax]
  by_cases hlt : (t.get? (key r)).elim 0 weight < weight r
  · rw [if_pos hlt, get?_upsert]
    by_cases hk : key r = k
    · subst hk
      rw [if_pos rfl, if_pos ⟨rfl, hlt⟩, Option.elim_some]
    · rw [if_neg hk, if_neg fun h => hk h.1]
  · rw [if_neg hlt, if_neg]
    rintro ⟨rfl, h⟩
    exact hlt h

/-- Rows only add to what there is. -/
theorem le_foldl_keepMax {weight : ρ → ℕ} (rows : List ρ) :
    (t.get? k).elim 0 weight ≤ ((rows.foldl (keepMax weight) t).get? k).elim 0 weight := by
  induction rows generalizing t with
  | nil => exact Nat.le_refl _
  | cons a rows ih =>
    have hstep : (t.get? k).elim 0 weight ≤ ((t.keepMax weight a).get? k).elim 0 weight := by
      rw [elim_get?_keepMax]
      split
      · next h => exact Nat.le_of_lt h.2
      · exact Nat.le_refl _
    exact Nat.le_trans hstep ih

/-- No row weighs more than what is kept of its key, -/
theorem weight_le_foldl_keepMax {weight : ρ → ℕ} {rows : List ρ} (hr : r ∈ rows) :
    weight r ≤ ((rows.foldl (keepMax weight) t).get? (key r)).elim 0 weight := by
  induction rows generalizing t with
  | nil => exact absurd hr List.not_mem_nil
  | cons a rows ih =>
    rcases List.mem_cons.mp hr with rfl | hr
    · have hstep : weight r ≤ ((t.keepMax weight r).get? (key r)).elim 0 weight := by
        rw [elim_get?_keepMax]
        split
        · exact Nat.le_refl _
        · next h => exact Nat.not_lt.mp fun hlt => h ⟨rfl, hlt⟩
      exact Nat.le_trans hstep (le_foldl_keepMax rows)
    · exact ih hr

/-- and some row weighs that much, if it was not there before. -/
theorem exists_foldl_keepMax {weight : ρ → ℕ} (rows : List ρ) :
    ((rows.foldl (keepMax weight) t).get? k).elim 0 weight = (t.get? k).elim 0 weight ∨
      ∃ r ∈ rows, key r = k ∧
        weight r = ((rows.foldl (keepMax weight) t).get? k).elim 0 weight := by
  induction rows generalizing t with
  | nil => exact Or.inl rfl
  | cons a rows ih =>
    rcases @ih (t.keepMax weight a) with h | ⟨r, hr, hkey, hweight⟩
    · rw [elim_get?_keepMax] at h
      split at h
      · next hlt => exact Or.inr ⟨a, List.mem_cons_self, hlt.1, h.symm⟩
      · exact Or.inl h
    · exact Or.inr ⟨r, List.mem_cons_of_mem a hr, hkey, hweight⟩

end

/-! ### Counting -/

variable {t' : Table ρ κ key} {p p' : ρ → Bool}

/-- Rows counted in one table that are counted in the other, under the same keys, are no more. -/
theorem countP_le_of_key
    (h : ∀ r' ∈ t', p' r' = true → ∃ r ∈ t, key r = key r' ∧ p r = true) :
    t'.rows.countP p' ≤ t.rows.countP p := by
  have hnodup : ((t'.rows.filter p').map key).Nodup := (List.filter_sublist.map key).nodup t'.nodup
  have hsub : (t'.rows.filter p').map key ⊆ (t.rows.filter p).map key := by
    intro k hk
    obtain ⟨r', hr', rfl⟩ := List.mem_map.mp hk
    obtain ⟨hmem, hp'⟩ := List.mem_filter.mp hr'
    obtain ⟨r, hr, hkey, hp⟩ := h r' hmem hp'
    exact List.mem_map.mpr ⟨r, List.mem_filter.mpr ⟨hr, hp⟩, hkey⟩
  simpa [List.countP_eq_length_filter] using (List.Nodup.subperm hnodup hsub).length_le

/-- They are fewer when a row counted in the second is not counted in the first. -/
theorem countP_lt_of_key [DecidableEq κ]
    (h : ∀ r' ∈ t', p' r' = true → key r' ≠ k ∧ ∃ r ∈ t, key r = key r' ∧ p r = true)
    (hr : r ∈ t) (hkey : key r = k) (hp : p r = true) :
    t'.rows.countP p' < t.rows.countP p := by
  have hle : t'.rows.countP p' ≤ t.rows.countP fun r => p r && key r ≠ k := by
    refine countP_le_of_key fun r' hr' hp' => ?_
    obtain ⟨hne, r₀, hr₀, hkey₀, hp₀⟩ := h r' hr' hp'
    refine ⟨r₀, hr₀, hkey₀, ?_⟩
    rw [hp₀, hkey₀, decide_eq_true hne]
    rfl
  have hself : 0 < (t.rows.filter fun r => key r = k).countP p :=
    List.countP_pos_iff.mpr ⟨r, List.mem_filter.mpr ⟨hr, decide_eq_true hkey⟩, hp⟩
  have hsplit := List.countP_eq_countP_filter_add t.rows p fun r => key r = k
  have hrest : (t.rows.filter fun r => ! decide (key r = k)).countP p =
      t.rows.countP fun r => p r && key r ≠ k := by
    rw [List.countP_filter]
    simp
  omega

end Table

end Relational
