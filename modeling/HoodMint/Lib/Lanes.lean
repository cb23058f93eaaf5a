/-
Several lanes draining one list of items through a shared cursor.

A lane that is free looks at the cursor, takes the item there and moves the cursor on, all at once;
it is then busy with that item, in steps between which the other lanes go on, until it has a
result.  A lane that finds the cursor past the last item is done.

* `Pool.turn`, `Pool.proceed` — the two kinds of step;
* `Pool.Inv` — the items being worked on and the items with a result are those before the cursor;
* `Pool.Inv.results_perm` — **when every lane is done, every item has been worked on exactly once**;
* `Pool.turn_cases`, `Pool.proceed_cases` — all that a step can do.
-/
import Mathlib.Data.List.Perm.Basic
import Mathlib.Data.List.Range
import Mathlib.Data.Nat.Notation

namespace Lanes

variable {α ι B R : Type*}

/-- Replacing one element of a list by another changes a `filterMap` by what the two give. -/
theorem filterMap_set_perm (f : α → Option ι) {l : List α} {k : ℕ} {old new : α}
    (hold : l[k]? = some old) :
    ((f old).toList ++ (l.set k new).filterMap f).Perm ((f new).toList ++ l.filterMap f) := by
  induction l generalizing k with
  | nil => exact absurd hold nofun
  | cons a rest ih =>
    cases k with
    | zero =>
      obtain rfl : a = old := by simpa using hold
      rw [List.set_cons_zero]
      cases ha : f a <;> cases hn : f new <;> simp [ha, hn, List.Perm.swap]
    | succ k =>
      have hrest := ih (k := k) (by simpa using hold)
      rw [List.set_cons_succ]
      cases ha : f a with
      | none => simpa [List.filterMap_cons, ha] using hrest
      | some i =>
        rw [List.filterMap_cons_some ha, List.filterMap_cons_some ha]
        exact List.perm_middle.trans ((hrest.cons i).trans List.perm_middle.symm)

/-- What a lane is at. -/
inductive Lane (B : Type*)
  | idle
  | busy (item : ℕ) (body : B)
  | done

def Lane.item? : Lane B → Option ℕ
  | .busy item _ => some item
  | _ => none

def Lane.isDone : Lane B → Bool
  | .done => true
  | _ => false

structure Pool (B R : Type*) where
  cursor : ℕ
  lanes : List (Lane B)
  results : List (ℕ × R)

namespace Pool

/-- `count` lanes before the first item. -/
def start (count : ℕ) : Pool B R := ⟨0, List.replicate count .idle, []⟩

/-- The items being worked on. -/
def busy (p : Pool B R) : List ℕ := p.lanes.filterMap Lane.item?

/-- Every lane has ended. -/
def Done (p : Pool B R) : Prop := ∀ lane ∈ p.lanes, lane.isDone = true

instance (p : Pool B R) : Decidable p.Done :=
  inferInstanceAs (Decidable (∀ lane ∈ p.lanes, lane.isDone = true))

/-- Lane `k` looks at the cursor: `n` items, and the work on an item begins with `first`. -/
def turn (n : ℕ) (first : B) (p : Pool B R) (k : ℕ) : Option (Pool B R) :=
  match p.lanes[k]? with
  | some .idle =>
    if p.cursor < n then
      some { p with cursor := p.cursor + 1, lanes := p.lanes.set k (.busy p.cursor first) }
    else some { p with lanes := p.lanes.set k .done }
  | _ => none

/-- Lane `k` goes on with its item, or has its result. -/
def proceed (next : B → B ⊕ R) (p : Pool B R) (k : ℕ) : Option (Pool B R) :=
  match p.lanes[k]? with
  | some (.busy item body) =>
    match next body with
    | .inl body' => some { p with lanes := p.lanes.set k (.busy item body') }
    | .inr result =>
      some { p with lanes := p.lanes.set k .idle, results := (item, result) :: p.results }
  | _ => none

variable {n k : ℕ} {first : B} {next : B → B ⊕ R} {p p' : Pool B R}

theorem turn_cases (h : turn n first p k = some p') :
    p.lanes[k]? = some .idle ∧
      ((p.cursor < n ∧ p' =
          { p with cursor := p.cursor + 1, lanes := p.lanes.set k (.busy p.cursor first) }) ∨
        (n ≤ p.cursor ∧ p' = { p with lanes := p.lanes.set k .done })) := by
  rw [turn] at h
  split at h
  · next hk =>
    refine ⟨hk, ?_⟩
    split at h
    · next hlt => exact .inl ⟨hlt, (Option.some_inj.mp h).symm⟩
    · next hle => exact .inr ⟨Nat.le_of_not_lt hle, (Option.some_inj.mp h).symm⟩
  · exact absurd h nofun

theorem proceed_cases (h : proceed next p k = some p') :
    ∃ item body, p.lanes[k]? = some (.busy item body) ∧
      ((∃ body', next body = .inl body' ∧
          p' = { p with lanes := p.lanes.set k (.busy item body') }) ∨
        ∃ result, next body = .inr result ∧
          p' =
            { p with lanes := p.lanes.set k .idle, results := (item, result) :: p.results }) := by
  rw [proceed] at h
  split at h
  · next item body hk =>
    refine ⟨item, body, hk, ?_⟩
    split at h
    · next body' hnext => exact .inl ⟨body', hnext, (Option.some_inj.mp h).symm⟩
    · next result hnext => exact .inr ⟨result, hnext, (Option.some_inj.mp h).symm⟩
  · exact absurd h nofun

/-! ### Every item once -/

/-- The items under way and the items with a result are those before the cursor, and a lane has
ended only at the end of the list. -/
structure Inv (n : ℕ) (p : Pool B R) : Prop where
  cursor_le : p.cursor ≤ n
  taken : (p.busy ++ p.results.map Prod.fst).Perm (List.range p.cursor)
  ended : ∀ lane ∈ p.lanes, lane.isDone = true → p.cursor = n

theorem inv_start (n count : ℕ) : Inv n (start count : Pool B R) := by
  refine ⟨Nat.zero_le n, ?_, fun lane hlane hdone => ?_⟩
  · have hnone : (List.replicate count (Lane.idle : Lane B)).filterMap Lane.item? = [] :=
      List.filterMap_eq_nil_iff.mpr fun lane hlane => by rw [List.eq_of_mem_replicate hlane]; rfl
    simp [busy, start, hnone]
  · rw [List.eq_of_mem_replicate hlane] at hdone
    exact absurd hdone (by simp [Lane.isDone])

/-- What replacing one lane does to the items under way. -/
theorem busy_set_perm {old : Lane B} (new : Lane B) (hold : p.lanes[k]? = some old) :
    (old.item?.toList ++ (p.lanes.set k new).filterMap Lane.item?).Perm
      (new.item?.toList ++ p.busy) :=
  filterMap_set_perm Lane.item? hold

theorem Inv.turn (h : Inv n p) (hs : turn n first p k = some p') : Inv n p' := by
  obtain ⟨hk, ⟨hlt, rfl⟩ | ⟨hle, rfl⟩⟩ := turn_cases hs
  · refine ⟨hlt, ?_, fun lane hlane hdone => ?_⟩
    · -- the item at the cursor joins those under way
      have hbusy := busy_set_perm (.busy p.cursor first) hk
      rw [List.range_succ]
      refine (hbusy.append_right _).trans ?_
      exact (h.taken.cons p.cursor).trans (List.perm_append_singleton _ _).symm
    · rcases List.mem_or_eq_of_mem_set hlane with hlane | rfl
      · exact absurd (h.ended lane hlane hdone) (Nat.ne_of_lt hlt)
      · exact absurd hdone (by simp [Lane.isDone])
  · have hend : p.cursor = n := Nat.le_antisymm h.cursor_le hle
    refine ⟨h.cursor_le, ?_, fun _ _ _ => hend⟩
    exact ((busy_set_perm .done hk).append_right _).trans h.taken

theorem Inv.proceed (h : Inv n p) (hs : proceed next p k = some p') : Inv n p' := by
  obtain ⟨item, body, hk, ⟨body', -, rfl⟩ | ⟨result, -, rfl⟩⟩ := proceed_cases hs
  · refine ⟨h.cursor_le, ?_, fun lane hlane hdone => ?_⟩
    · have hbusy := busy_set_perm (.busy item body') hk
      exact ((List.perm_cons item).mp hbusy |>.append_right _).trans h.taken
    · rcases List.mem_or_eq_of_mem_set hlane with hlane | rfl
      · exact h.ended lane hlane hdone
      · exact absurd hdone (by simp [Lane.isDone])
  · refine ⟨h.cursor_le, ?_, fun lane hlane hdone => ?_⟩
    · -- the item leaves those under way and joins those with a result
      have hbusy := busy_set_perm .idle hk
      refine List.Perm.trans ?_ h.taken
      exact List.perm_middle.trans (hbusy.append_right _)
    · rcases List.mem_or_eq_of_mem_set hlane with hlane | rfl
      · exact h.ended lane hlane hdone
      · exact absurd hdone (by simp [Lane.isDone])

/-- No item has two results, or a result and work under way. -/
theorem Inv.nodup (h : Inv n p) : (p.busy ++ p.results.map Prod.fst).Nodup :=
  h.taken.nodup_iff.mpr List.nodup_range

/-- **When every lane is done, every item has exactly one result.** -/
theorem Inv.results_perm (h : Inv n p) (hlanes : p.lanes ≠ []) (hdone : p.Done) :
    (p.results.map Prod.fst).Perm (List.range n) := by
  have hbusy : p.busy = [] := List.filterMap_eq_nil_iff.mpr fun lane hlane => by
    cases lane with
    | done => rfl
    | idle => exact absurd (hdone _ hlane) (by simp [Lane.isDone])
    | busy item body => exact absurd (hdone _ hlane) (by simp [Lane.isDone])
  obtain ⟨lane, hlane⟩ := List.exists_mem_of_ne_nil _ hlanes
  have hcursor : p.cursor = n := h.ended lane hlane (hdone lane hlane)
  have htaken := h.taken
  rwa [hbusy, List.nil_append, hcursor] at htaken

theorem length_turn (hs : Pool.turn n first p k = some p') : p'.lanes.length = p.lanes.length := by
  obtain ⟨-, ⟨-, rfl⟩ | ⟨-, rfl⟩⟩ := turn_cases hs <;> exact List.length_set

theorem length_proceed (hs : Pool.proceed next p k = some p') :
    p'.lanes.length = p.lanes.length := by
  obtain ⟨_, _, -, ⟨_, -, rfl⟩ | ⟨_, -, rfl⟩⟩ := proceed_cases hs <;> exact List.length_set

end Pool

end Lanes
