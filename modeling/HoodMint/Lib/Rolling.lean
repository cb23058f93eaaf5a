/-
Counts of events in a rolling window.

* `rolling` — how many events lie in the window of a given length that ends at an instant;
* `rolling_le_of_le` — once all events are past, a later window holds no more of them;
* `rolling_cons_le` — a bound on every window survives a new event when the window that ends with
  it keeps to the bound.
-/
import Mathlib.Algebra.Order.Group.Int
import Mathlib.Data.List.Count

namespace Rolling

variable {ρ : Type} {instant : ρ → ℤ} {span now t : ℤ} {cap : ℕ} {e : ρ} {events : List ρ}

/-- The events of the last `span`, at `t`. -/
def rolling (instant : ρ → ℤ) (span t : ℤ) (events : List ρ) : ℕ :=
  events.countP fun e => t - span < instant e ∧ instant e ≤ t

/-- A later window holds no more, once all events are past. -/
theorem rolling_le_of_le (hpast : ∀ e ∈ events, instant e ≤ now) (ht : now ≤ t) :
    rolling instant span t events ≤ rolling instant span now events := by
  refine List.countP_mono_left fun e he hin => decide_eq_true ?_
  have hin' := of_decide_eq_true hin
  have hle := hpast e he
  omega

/-- The events of one window, and those of a longer list. -/
theorem rolling_cons_of_le (he : now - span < instant e ∧ instant e ≤ now) :
    rolling instant span now (e :: events) = rolling instant span now events + 1 :=
  List.countP_cons_of_pos (decide_eq_true he)

/-- What is one or the other is no more than both. -/
theorem countP_le_add {p q r : ρ → Bool} (h : ∀ e ∈ events, p e = true → q e = true ∨ r e = true) :
    events.countP p ≤ events.countP q + events.countP r := by
  induction events with
  | nil => exact Nat.zero_le _
  | cons e events ih =>
    have hrest := ih fun e' he' => h e' (List.mem_cons_of_mem _ he')
    have hhead := h e List.mem_cons_self
    rw [List.countP_cons, List.countP_cons, List.countP_cons]
    by_cases hp : p e = true
    · rcases hhead hp with hq | hr
      · rw [if_pos hp, if_pos hq]
        omega
      · rw [if_pos hp, if_pos hr]
        omega
    · rw [if_neg hp]
      omega

/-- **A new event.**  Of all windows only those that end with it or later hold more. -/
theorem rolling_cons_le (hpast : ∀ e ∈ events, instant e ≤ now) (he : instant e = now)
    (hbound : rolling instant span t events ≤ cap)
    (hnow : rolling instant span now (e :: events) ≤ cap) :
    rolling instant span t (e :: events) ≤ cap := by
  by_cases ht : now ≤ t
  · have hpast' : ∀ e' ∈ e :: events, instant e' ≤ now :=
      List.forall_mem_cons.mpr ⟨he.le, hpast⟩
    exact (rolling_le_of_le hpast' ht).trans hnow
  · rw [rolling, List.countP_cons_of_neg]
    · exact hbound
    · intro hin
      have hin' := of_decide_eq_true hin
      omega

end Rolling
