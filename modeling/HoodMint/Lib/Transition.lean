/-
Deterministic transition systems driven by labels.

A system is a partial function `step : S → L → Option S`; the label carries
every choice of the environment, so a list of labels is one interleaving.

* `run` executes a list of labels, `none` as soon as one is not enabled;
* `Reach step φ s₀ s` — `s` is reached from `s₀` by steps whose state and label
  all meet `φ`; the guard `φ` is how a theorem restricts the runs it is about;
* `Reach.invariant` packages the induction: what holds at the start and is kept
  by every step meeting `φ` holds of every reached state;
* `InfiniteRun` — a run that never ends, with its labels, for what happens eventually;
* `reach_of_run` turns an executed list of labels back into a `Reach`, which is
  how a concrete run is exhibited.
-/
import Mathlib.Data.Nat.Notation
import Mathlib.Data.Option.Basic
import Mathlib.Data.List.Basic

namespace Transition

variable {S L : Type*} {step : S → L → Option S} {φ ψ : S → L → Prop}

/-- Run the labels in order. -/
def run (step : S → L → Option S) : S → List L → Option S
  | s, [] => some s
  | s, l :: ls => (step s l).bind fun s' => run step s' ls

@[simp] theorem run_nil (s : S) : run step s [] = some s := rfl

theorem run_cons (s : S) (l : L) (ls : List L) :
    run step s (l :: ls) = (step s l).bind fun s' => run step s' ls := rfl

/-- `s` is reached from `s₀` by steps that all meet `φ`. -/
inductive Reach (step : S → L → Option S) (φ : S → L → Prop) (s₀ : S) : S → Prop
  | refl : Reach step φ s₀ s₀
  | tail {s s' : S} {l : L} :
      Reach step φ s₀ s → φ s l → step s l = some s' → Reach step φ s₀ s'

/-- Reached by any steps at all. -/
abbrev Reachable (step : S → L → Option S) : S → S → Prop :=
  Reach step fun _ _ => True

namespace Reach

variable {s₀ s s' : S} {l : L}

theorem mono (h : Reach step φ s₀ s) (hφ : ∀ s l, φ s l → ψ s l) : Reach step ψ s₀ s := by
  induction h with
  | refl => exact .refl
  | tail _ hl hs ih => exact ih.tail (hφ _ _ hl) hs

theorem reachable (h : Reach step φ s₀ s) : Reachable step s₀ s :=
  h.mono fun _ _ _ => trivial

theorem trans (h : Reach step φ s₀ s) (h' : Reach step φ s s') : Reach step φ s₀ s' := by
  induction h' with
  | refl => exact h
  | tail _ hl hs ih => exact ih.tail hl hs

/-- **Invariants.**  A property of the first state that every step meeting `φ`
keeps holds of every state reached by such steps. -/
theorem invariant {I : S → Prop} (h : Reach step φ s₀ s) (h₀ : I s₀)
    (hstep : ∀ s l s', Reach step φ s₀ s → I s → φ s l → step s l = some s' → I s') :
    I s := by
  induction h with
  | refl => exact h₀
  | tail hr hl hs ih => exact hstep _ _ _ hr ih hl hs

end Reach

/-- A run that never ends. -/
structure InfiniteRun (step : S → L → Option S) (s₀ : S) where
  state : ℕ → S
  label : ℕ → L
  start : Reachable step s₀ (state 0)
  next : ∀ n, step (state n) (label n) = some (state (n + 1))

theorem InfiniteRun.reachable {s₀ : S} (run : InfiniteRun step s₀) (n : ℕ) :
    Reachable step s₀ (run.state n) := by
  induction n with
  | zero => exact run.start
  | succ n ih => exact ih.tail trivial (run.next n)

/-- Every step of an executed run meets the decidable guard `φ`. -/
def runMeets (step : S → L → Option S) (φ : S → L → Prop) [∀ s, DecidablePred (φ s)] :
    S → List L → Bool
  | _, [] => true
  | s, l :: ls => decide (φ s l) && (step s l).elim true fun s' => runMeets step φ s' ls

theorem reach_of_run [∀ s, DecidablePred (φ s)] {s s' : S} :
    ∀ {ls : List L}, runMeets step φ s ls = true → run step s ls = some s' →
      Reach step φ s s' := by
  intro ls
  induction ls generalizing s with
  | nil =>
    intro _ h
    rw [run_nil, Option.some_inj] at h
    exact h ▸ .refl
  | cons l ls ih =>
    intro hm h
    rw [run_cons] at h
    obtain ⟨s₁, hs₁, hrest⟩ := Option.bind_eq_some_iff.mp h
    rw [runMeets, hs₁, Bool.and_eq_true, decide_eq_true_iff] at hm
    exact (Reach.refl.tail hm.1 hs₁).trans (ih hm.2 hrest)

/-- A run that can be executed, whose steps all meet `φ` and whose last state
passes the test `p`. -/
theorem exists_reach_of_run (step : S → L → Option S) (φ : S → L → Prop)
    [∀ s, DecidablePred (φ s)] (s : S) (ls : List L) (p : S → Bool)
    (hm : runMeets step φ s ls = true) (h : (run step s ls).map p = some true) :
    ∃ s', Reach step φ s s' ∧ p s' = true := by
  obtain ⟨s', hs', hp⟩ := Option.map_eq_some_iff.mp h
  exact ⟨s', reach_of_run hm hs', hp⟩

theorem runMeets_true (s : S) (ls : List L) : runMeets step (fun _ _ => True) s ls = true := by
  induction ls generalizing s with
  | nil => rfl
  | cons l ls ih =>
    rw [runMeets, decide_true, Bool.true_and]
    cases step s l with
    | none => rfl
    | some s₁ => exact ih s₁

theorem exists_reachable_of_run (step : S → L → Option S) (s : S) (ls : List L) (p : S → Bool)
    (h : (run step s ls).map p = some true) : ∃ s', Reachable step s s' ∧ p s' = true :=
  exists_reach_of_run step _ s ls p (runMeets_true s ls) h

end Transition
