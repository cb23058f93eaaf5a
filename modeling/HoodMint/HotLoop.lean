/-
The hot loop: when it fires, and what the passes it starts may claim
(`packages/core/src/fire-schedule.ts`, `packages/db/src/repositories/execution.ts`,
`apps/worker/src/workers/execution.ts`: `runMintHotLoop`).

* `computeFirePhase` — the phase of a plan, by the clock-corrected target;
* `armedPlansWithStageStart` — the plans the loop looks at;
* `clocksAgree_iff` — the loop and the claim, which reads the target as it is stored, agree
  for every plan exactly when the local clock lags no more than the claim's tolerance allows,
  and is not ahead.
-/
import HoodMint.MintPlans

namespace MintWorker

open Relational

/-! ### Phases -/

/-- `FireScheduleInput`. -/
structure FireScheduleInput where
  stageStartChainMs : ℤ
  clockOffsetMs : ℤ
  localNowMs : ℤ
  hotWindowMs : ℤ
  leadMs : ℤ
  continueForMs : ℤ

inductive FirePhase
  | waiting (msUntilHotWindow : ℤ)
  | hot (msUntilFire : ℤ)
  | fire (msSinceFireTarget : ℤ)
  | expired
deriving DecidableEq

/-- `computeFirePhase`. -/
def computeFirePhase (input : FireScheduleInput) : FirePhase :=
  let localStartMs := chainTimeToLocalMs input.stageStartChainMs input.clockOffsetMs
  let fireAtLocalMs := localStartMs - input.leadMs
  let hotAtLocalMs := fireAtLocalMs - input.hotWindowMs
  let continueUntilLocalMs := localStartMs + input.continueForMs
  let now := input.localNowMs
  if now < hotAtLocalMs then .waiting (hotAtLocalMs - now)
  else if now < fireAtLocalMs then .hot (fireAtLocalMs - now)
  else if now ≤ continueUntilLocalMs then .fire (now - fireAtLocalMs)
  else .expired

/-- `phase === "fire"`. -/
def FirePhase.isFire : FirePhase → Bool
  | .fire _ => true
  | _ => false

/-- The configuration of the hot loop; the lead may be 0. -/
structure HotLoopConfig where
  mintFireHotWindowMs : ℕ
  mintFireLeadMs : ℕ
  mintFireContinueMs : ℕ

/-- How the loop asks for the phase of a target. -/
def HotLoopConfig.phase (config : HotLoopConfig) (clockOffsetMs now target : ℤ) : FirePhase :=
  computeFirePhase
    { stageStartChainMs := target, clockOffsetMs, localNowMs := now
      hotWindowMs := config.mintFireHotWindowMs, leadMs := config.mintFireLeadMs
      continueForMs := config.mintFireContinueMs }

/-- A target fires from its lead on, and through the continue window. -/
theorem isFire_phase {config : HotLoopConfig} {clockOffsetMs now target : ℤ} :
    (config.phase clockOffsetMs now target).isFire = true ↔
      target + clockOffsetMs - config.mintFireLeadMs ≤ now ∧
        now ≤ target + clockOffsetMs + config.mintFireContinueMs := by
  show FirePhase.isFire (if now < target + clockOffsetMs - config.mintFireLeadMs
      - config.mintFireHotWindowMs then .waiting _
    else if now < target + clockOffsetMs - config.mintFireLeadMs then .hot _
    else if now ≤ target + clockOffsetMs + config.mintFireContinueMs then .fire _
    else .expired) = true ↔ _
  split_ifs
  · simp only [FirePhase.isFire, Bool.false_eq_true, false_iff]
    omega
  · simp only [FirePhase.isFire, Bool.false_eq_true, false_iff]
    omega
  · simp only [FirePhase.isFire, true_iff]
    omega
  · simp only [FirePhase.isFire, Bool.false_eq_true, false_iff]
    omega

/-! ### Plans -/

/-- `coalesce(fire_at, starts_at)`. -/
def MintPlan.fireTarget (r : MintPlan) (stages : DropStages) : Option ℤ :=
  r.fireAt.or ((r.stage stages).map DropStage.startsAt)

/-- The rows of `armedPlansWithStageStart`. -/
def MintPlan.Candidate (r : MintPlan) (stages : DropStages) (now : ℤ) : Prop :=
  r.status = .armed ∧ (∃ u ∈ r.armedUntil, now < u) ∧ (r.fireTarget stages).isSome

instance (r : MintPlan) (stages : DropStages) (now : ℤ) : Decidable (r.Candidate stages now) :=
  (inferInstance : Decidable (_ ∧ (∃ u ∈ r.armedUntil, now < u) ∧ _))

/-- `armedPlansWithStageStart`. -/
def MintPlans.armedPlansWithStageStart (plans : MintPlans) (stages : DropStages) (now : ℤ) :
    List (MintPlan × ℤ) :=
  (plans.rows.filter fun r => r.Candidate stages now).filterMap fun r =>
    (r.fireTarget stages).map fun target => (r, target)

/-- The time condition of the claim. -/
def MintPlan.InTime (r : MintPlan) (stages : DropStages) (now leadMs : ℤ) : Prop :=
  ∃ target ∈ r.claimTarget stages, target ≤ now + claimTolerance leadMs

theorem claimTarget_of_fireTarget {r : MintPlan} {stages : DropStages} {target : ℤ}
    (h : target ∈ r.fireTarget stages) : r.claimTarget stages = some target := by
  rw [MintPlan.claimTarget, show r.fireAt.or ((r.stage stages).map DropStage.startsAt) =
    some target from h, Option.some_or]

/-- What is due is due in time. -/
theorem MintPlan.Due.inTime {r : MintPlan} {stages : DropStages} {now leaseMs leadMs : ℤ}
    (h : r.Due stages now leaseMs leadMs) : r.InTime stages now leadMs := h.2.1

/-! ### The two clocks -/

/-- What the loop fires, the claim hands over at that instant; and the claim hands over
nothing earlier than its tolerance before the clock-corrected target. -/
def ClocksAgree (config : HotLoopConfig) (clockOffsetMs : ℤ) : Prop :=
  ∀ (r : MintPlan) (stages : DropStages) (now target : ℤ), target ∈ r.fireTarget stages →
    (r.Candidate stages now → (config.phase clockOffsetMs now target).isFire = true →
      r.InTime stages now config.mintFireLeadMs) ∧
    ∀ leaseMs, r.Due stages now leaseMs config.mintFireLeadMs →
      chainTimeToLocalMs target clockOffsetMs - claimTolerance config.mintFireLeadMs ≤ now

/-- A plan armed past an instant, with an instant of the operator's. -/
def armedFor (fireAt now : ℤ) : MintPlan :=
  { id := "p", projectId := "q", walletId := "w", stageId := none, signerId := none
    fireAt := some fireAt, quantity := 1, perPlanCeilingWei := 0, status := .armed
    armedAt := some fireAt, armedUntil := some (now + 1), armedByUserId := none
    cachedTx := none, cachedTxAt := none, presignedRawTx := none, presignedNonce := none
    presignedTxHash := none, presignedAt := none, createdAt := 0, updatedAt := 0 }

theorem candidate_armedFor (fireAt now : ℤ) : (armedFor fireAt now).Candidate .empty now :=
  ⟨rfl, ⟨now + 1, rfl, by omega⟩, rfl⟩

theorem due_armedFor {fireAt now leaseMs leadMs : ℤ} (h : fireAt ≤ now + claimTolerance leadMs) :
    (armedFor fireAt now).Due .empty now leaseMs leadMs :=
  ⟨⟨now + 1, rfl, by omega⟩, ⟨fireAt, rfl, h⟩, fun hpaused => Option.some_ne_none _ hpaused.1,
    Or.inl rfl⟩

/-- The tolerance covers the lead. -/
theorem lead_le_claimTolerance (leadMs : ℤ) : leadMs + 50 ≤ claimTolerance leadMs := by
  rw [claimTolerance]
  exact Int.add_le_add_right (le_max_right _ _) 50

section

variable {config : HotLoopConfig} {clockOffsetMs : ℤ}

/-- When the local clock lags further, a plan at its lead is not handed over. -/
theorem ClocksAgree.le_offset (h : ClocksAgree config clockOffsetMs) :
    config.mintFireLeadMs - claimTolerance config.mintFireLeadMs ≤ clockOffsetMs := by
  set now : ℤ := clockOffsetMs - config.mintFireLeadMs with hnow
  have hfire : (config.phase clockOffsetMs now 0).isFire = true := by
    rw [isFire_phase]
    omega
  obtain ⟨target, htarget, hle⟩ :=
    (h (armedFor 0 now) .empty now 0 rfl).1 (candidate_armedFor 0 now) hfire
  obtain rfl : (0 : ℤ) = target := Option.some_inj.mp htarget
  omega

/-- When the local clock is ahead, a plan is handed over too early. -/
theorem ClocksAgree.offset_le (h : ClocksAgree config clockOffsetMs) : clockOffsetMs ≤ 0 := by
  set now : ℤ := -claimTolerance config.mintFireLeadMs with hnow
  have hdue : (armedFor 0 now).Due .empty now 0 config.mintFireLeadMs := due_armedFor (by omega)
  have hearly := (h (armedFor 0 now) .empty now 0 rfl).2 0 hdue
  rw [chainTimeToLocalMs] at hearly
  omega

/-- **The loop and the claim agree on time** exactly when the stored offset is not positive
and no further below zero than the claim's tolerance exceeds the lead. -/
theorem clocksAgree_iff :
    ClocksAgree config clockOffsetMs ↔
      config.mintFireLeadMs - claimTolerance config.mintFireLeadMs ≤ clockOffsetMs ∧
        clockOffsetMs ≤ 0 := by
  constructor
  · intro h
    exact ⟨h.le_offset, h.offset_le⟩
  · rintro ⟨hlag, hahead⟩ r stages now target htarget
    constructor
    · intro _ hfire
      have hstart := (isFire_phase.mp hfire).1
      exact ⟨target, claimTarget_of_fireTarget htarget, by omega⟩
    · intro leaseMs hdue
      obtain ⟨target', htarget', hle⟩ := hdue.inTime
      rw [claimTarget_of_fireTarget htarget] at htarget'
      obtain rfl : target = target' := Option.some_inj.mp htarget'
      rw [chainTimeToLocalMs]
      omega

end

/-- With the defaults, a second of drift either way: ahead, the claim takes plans before the
loop's clock reaches them; behind, the loop spins for plans the claim refuses. -/
theorem clocks_disagree_by_a_second :
    ¬ ClocksAgree ⟨2000, 150, 4000⟩ 1000 ∧ ¬ ClocksAgree ⟨2000, 150, 4000⟩ (-1000) := by
  constructor
  · intro h
    exact absurd h.offset_le (by decide)
  · intro h
    exact absurd h.le_offset (by decide)

end MintWorker
