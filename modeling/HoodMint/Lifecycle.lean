/-
The lifecycle of a project (`packages/core/src/status.ts`, `stages.ts`).

* `isStageLive`, `windowedStages` — half-open windows, in milliseconds;
* `computeLifecycle` — the status that a schedule and a supply give at an instant;
* `computeLifecycle_active` — what it comes to for a schedule without paused stages.
-/
import Mathlib.Data.List.Sort
import Mathlib.Data.Int.Notation
import Mathlib.Order.Lattice.Nat

namespace Projects

inductive LifecycleStatus | live | next | ended | soldOut | paused | unknown
deriving DecidableEq

inductive StageKind | publicSale | allowlist | presale | gtd | community | unknown
deriving DecidableEq

/-- `StageView`. -/
structure StageView where
  label : String
  kind : StageKind
  startsAt : ℤ
  endsAt : Option ℤ
  paused : Bool
deriving DecidableEq

/-- `isStageLive`. -/
def isStageLive (stage : StageView) (now : ℤ) : Bool :=
  if stage.startsAt > now then false
  else match stage.endsAt with
    | some endsAt => ¬ endsAt ≤ now
    | none => true

structure WindowedStage where
  stage : StageView
  msUntilStart : ℤ
  msUntilEnd : Option ℤ

/-- `windowedStages`. -/
def windowedStages (stages : List StageView) (now : ℤ) : List WindowedStage :=
  (stages.map fun stage =>
    ⟨stage, stage.startsAt - now, stage.endsAt.map (· - now)⟩).insertionSort
      fun a b => a.msUntilStart ≤ b.msUntilStart

/-- `SupplyFacts`. -/
structure SupplyFacts where
  minted : Option ℤ
  maxSupply : Option ℤ
  verified : Bool
deriving DecidableEq

/-- Both sides are known, verified, and nothing is left. -/
def SupplyFacts.soldOut (supply : SupplyFacts) : Bool :=
  match supply.verified, supply.minted, supply.maxSupply with
  | true, some minted, some maxSupply => minted ≥ maxSupply
  | _, _, _ => false

/-- `computeLifecycle`. -/
def computeLifecycle (stages : List StageView) (now : ℤ) (paused : Option Bool)
    (supply : SupplyFacts) : LifecycleStatus :=
  if stages = [] ∧ paused ≠ some true then .unknown
  else if supply.soldOut then .soldOut
  else match stages.find? (isStageLive · now) with
    | some stage =>
      if stage.paused ∨ paused = some true then .paused
      else if supply.soldOut then .soldOut
      else .live
    | none =>
      let hasFutureStage := (windowedStages stages now).any fun w => w.msUntilStart > 0
      if paused = some true then (if hasFutureStage then .paused else .ended)
      else if hasFutureStage then .next
      else if stages.all fun stage => stage.endsAt.elim false (· ≤ now) then .ended
      else .unknown

/-! ### Schedules without paused stages -/

section

variable {stages : List StageView} {now : ℤ} {supply : SupplyFacts}

theorem windowedStages_any :
    (windowedStages stages now).any (fun w => w.msUntilStart > 0) =
      stages.any fun stage => stage.startsAt > now := by
  have hperm := List.perm_insertionSort (fun a b : WindowedStage => a.msUntilStart ≤ b.msUntilStart)
    (stages.map fun stage => ⟨stage, stage.startsAt - now, stage.endsAt.map (· - now)⟩)
  rw [windowedStages, hperm.any_eq, List.any_map]
  refine congrArg stages.any (funext fun stage => decide_eq_decide.mpr ?_)
  show stage.startsAt - now > 0 ↔ stage.startsAt > now
  omega

/-- A stage that has started and is not live has ended. -/
theorem ended_of_not_live {stage : StageView} (hlive : isStageLive stage now = false)
    (hstarted : ¬ stage.startsAt > now) : stage.endsAt.elim false (· ≤ now) = true := by
  rw [isStageLive, if_neg hstarted] at hlive
  cases hends : stage.endsAt with
  | none =>
    rw [hends] at hlive
    exact absurd hlive.symm Bool.false_ne_true
  | some endsAt =>
    rw [hends] at hlive
    exact decide_eq_true (not_not.mp (of_decide_eq_false hlive))

/-- **Schedules without paused stages.**  An empty one counts as paused. -/
theorem computeLifecycle_active (hactive : ∀ stage ∈ stages, stage.paused = false) :
    computeLifecycle stages now (if stages = [] then some true else none) supply =
      if supply.soldOut then .soldOut
      else if stages.any (isStageLive · now) then .live
      else if stages.any (fun stage => stage.startsAt > now) then .next
      else .ended := by
  by_cases hempty : stages = []
  · subst hempty
    rw [if_pos rfl, computeLifecycle, if_neg (by rintro ⟨-, h⟩; exact h rfl)]
    rfl
  · rw [if_neg hempty, computeLifecycle, if_neg fun h => hempty h.1]
    by_cases hsold : supply.soldOut = true
    · rw [if_pos hsold, if_pos hsold]
    refine Eq.trans (if_neg hsold) (Eq.trans ?_ (if_neg hsold).symm)
    cases hfind : stages.find? (isStageLive · now) with
    | some stage =>
      have hmem := List.mem_of_find?_eq_some hfind
      have hany : stages.any (isStageLive · now) = true :=
        List.any_eq_true.mpr ⟨stage, hmem, List.find?_some (p := (isStageLive · now)) hfind⟩
      have hnot : ¬ (stage.paused = true ∨ (none : Option Bool) = some true) := by
        rw [hactive stage hmem]
        rintro (h | h)
        · exact Bool.false_ne_true h
        · exact Option.some_ne_none _ h.symm
      show (if stage.paused = true ∨ (none : Option Bool) = some true then _ else _) = _
      rw [if_neg hnot, if_neg hsold, if_pos hany]
    | none =>
      have hnone : ∀ stage ∈ stages, isStageLive stage now = false := fun stage hs =>
        Bool.eq_false_iff.mpr (List.find?_eq_none.mp hfind stage hs)
      have hany : ¬ stages.any (isStageLive · now) = true := by
        intro h
        obtain ⟨stage, hs, hlive⟩ := List.any_eq_true.mp h
        exact Bool.false_ne_true ((hnone stage hs).symm.trans hlive)
      rw [if_neg hany]
      show (if (none : Option Bool) = some true then _ else
        if (windowedStages stages now).any (fun w => w.msUntilStart > 0) then _ else _) = _
      rw [if_neg (fun h => Option.some_ne_none _ h.symm), windowedStages_any]
      by_cases hfuture : stages.any (fun stage => stage.startsAt > now) = true
      · rw [if_pos hfuture, if_pos hfuture]
      · rw [if_neg hfuture, if_neg hfuture]
        refine if_pos (List.all_eq_true.mpr fun stage hs => ?_)
        refine ended_of_not_live (hnone stage hs) fun hlater => hfuture ?_
        exact List.any_eq_true.mpr ⟨stage, hs, decide_eq_true hlater⟩

end

end Projects
