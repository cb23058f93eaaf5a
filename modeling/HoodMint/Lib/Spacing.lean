/-
Instants that keep a distance from one another.

A list of instants, the newest first, is `Spaced gap` when any two of them are at least `gap`
apart.

* `Spaced.cons` — a new instant has to keep the distance from the newest only;
* `Spaced.length_mul_le` — so many of them span at least so much time;
* `Spaced.count_le` — **at most `span / gap + 1` of them lie in a window of length `span`**.
-/
import Mathlib.Algebra.Group.Nat.Defs
import Mathlib.Data.List.Basic

namespace Spacing

variable {gap gap' t a span : ℕ} {instants : List ℕ}

/-- Newest first, each at least `gap` after every older one. -/
def Spaced (gap : ℕ) (instants : List ℕ) : Prop :=
  instants.Pairwise fun newer older => older + gap ≤ newer

namespace Spaced

theorem nil : Spaced gap [] := List.Pairwise.nil

theorem tail (h : Spaced gap (t :: instants)) : Spaced gap instants := (List.pairwise_cons.mp h).2

theorem cons (h : Spaced gap instants) (ht : ∀ x ∈ instants.head?, x + gap ≤ t) :
    Spaced gap (t :: instants) := by
  refine List.pairwise_cons.mpr ⟨fun x hx => ?_, h⟩
  cases instants with
  | nil => exact absurd hx List.not_mem_nil
  | cons y rest =>
    have hy : y + gap ≤ t := ht y rfl
    rcases List.mem_cons.mp hx with rfl | hx
    · exact hy
    · have hxy : x + gap ≤ y := (List.pairwise_cons.mp h).1 x hx
      omega

theorem filter (h : Spaced gap instants) (p : ℕ → Bool) : Spaced gap (instants.filter p) :=
  List.Pairwise.filter p h

/-- The newest of `n + 1` instants from `a` on is at least `n * gap` after `a`. -/
theorem length_mul_le (h : Spaced gap (t :: instants)) (ha : ∀ x ∈ t :: instants, a ≤ x) :
    a + instants.length * gap ≤ t := by
  induction instants generalizing t with
  | nil => simpa using ha t (List.mem_singleton_self t)
  | cons x rest ih =>
    have hxt : x + gap ≤ t := (List.pairwise_cons.mp h).1 x List.mem_cons_self
    have hx : a + rest.length * gap ≤ x :=
      ih h.tail fun y hy => ha y (List.mem_cons_of_mem _ hy)
    rw [List.length_cons, Nat.add_mul]
    omega

/-- **Instants `gap` apart are at most `span / gap + 1` in a window of length `span`.** -/
theorem count_le (h : Spaced gap instants) (hgap : 0 < gap) (a span : ℕ) :
    (instants.filter fun t => decide (a ≤ t ∧ t ≤ a + span)).length ≤ span / gap + 1 := by
  have hin : ∀ t ∈ instants.filter (fun t => decide (a ≤ t ∧ t ≤ a + span)),
      a ≤ t ∧ t ≤ a + span := fun t ht => of_decide_eq_true (List.mem_filter.mp ht).2
  have hspaced := h.filter fun t => decide (a ≤ t ∧ t ≤ a + span)
  -- the window's newest instant is at most `a + span`, and the others span `length * gap` below it
  cases hl : instants.filter fun t => decide (a ≤ t ∧ t ≤ a + span) with
  | nil => simp
  | cons t rest =>
    rw [hl] at hin hspaced
    have hlow := length_mul_le hspaced fun x hx => (hin x hx).1
    have hhigh := (hin t List.mem_cons_self).2
    have hdiv : rest.length ≤ span / gap := by
      rw [Nat.le_div_iff_mul_le hgap]
      omega
    rw [List.length_cons]
    omega

end Spaced

end Spacing
