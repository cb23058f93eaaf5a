/-
Eligibility of wallets for stages (`packages/core/src/eligibility.ts`, `schedule.ts`; the rows of
`packages/db/src/schema.ts`).

* `classifyEligibility` — one state for the answers about several stages;
* `relevantStage`, `eligibilityRetryDelayMs` — when to ask again; `recheckDelay`, of one stage;
* `StageRow`, `EligibilityCheck`, `WalletRow` — the rows that the checks are about.

Instants and delays are in milliseconds.
-/
import HoodMint.Projects

namespace Eligibility

open Projects

inductive EligibilityState
  | eligibleRestricted | ineligibleRestricted | publicOnly | authRequired | unknown | error
deriving DecidableEq

/-! ### Rows -/

/-- A row of `drop_stages`, with its id. -/
structure StageRow extends DropStage where
  id : String
deriving DecidableEq

/-- A row of `eligibility_checks`.  Every writer names the stage. -/
structure EligibilityCheck where
  walletId : String
  projectId : String
  stageId : String
  status : EligibilityState
  maxMintable : Option ℕ
  priceWei : Option String
  checkedAt : ℤ
  nextDueAt : Option ℤ
  errorCode : Option String
deriving DecidableEq

def EligibilityCheck.key (c : EligibilityCheck) : String × String × String :=
  (c.walletId, c.projectId, c.stageId)

/-- A row of `wallets`. -/
structure WalletRow where
  id : String
  address : String
  enabled : Bool
deriving DecidableEq

/-! ### Verdicts -/

/-- `isRestrictedStage`. -/
def isRestrictedStage (kind : StageKind) : Bool := kind ≠ .publicSale

inductive StageEligibilityOutcome
  | restricted (eligible : Bool) | publicStage | unknown | error (reasonCategory : String)
deriving DecidableEq

structure EligibilityCheckResult where
  stageLabel : String
  stageKind : StageKind
  outcome : StageEligibilityOutcome
deriving DecidableEq

def StageEligibilityOutcome.isRestricted : StageEligibilityOutcome → Bool
  | .restricted _ => true
  | _ => false

def StageEligibilityOutcome.isError : StageEligibilityOutcome → Bool
  | .error _ => true
  | _ => false

/-- `classifyEligibility`. -/
def classifyEligibility (checks : List EligibilityCheckResult) (authAvailable : Bool) :
    EligibilityState :=
  if ¬ authAvailable then
    if checks.any fun c => isRestrictedStage c.stageKind then .authRequired else .unknown
  else
    let sawRestricted := checks.any fun c => c.outcome.isRestricted
    let sawEligibleRestricted := checks.any fun c => c.outcome = .restricted true
    let sawPublic := checks.any fun c => c.outcome = .publicStage
    let sawError := checks.any fun c => c.outcome.isError
    if sawEligibleRestricted then .eligibleRestricted
    else if sawError ∧ ¬ sawRestricted then .error
    else if sawRestricted ∧ ¬ sawError then .ineligibleRestricted
    else if sawRestricted ∧ sawError then .error
    else if sawPublic then .publicOnly
    else .unknown

/-! ### When to ask again -/

/-- `currentStage`. -/
def currentStage (stages : List StageView) (now : ℤ) : Option StageView :=
  ((windowedStages stages now).find? fun w =>
    w.msUntilStart ≤ 0 ∧ w.msUntilEnd.elim true (· > 0) ∧ ¬ w.stage.paused).map (·.stage)

/-- `nextStage`. -/
def nextStage (stages : List StageView) (now : ℤ) : Option StageView :=
  ((windowedStages stages now).find? fun w =>
    w.msUntilStart > 0 ∧ ¬ w.stage.paused).map (·.stage)

/-- `relevantStage`. -/
def relevantStage (stages : List StageView) (now : ℤ) : Option StageView :=
  (currentStage stages now).or (nextStage stages now)

namespace ScheduleIntervals

def far : ℤ := 6 * 60 * 60 * 1000
def near : ℤ := 30 * 60 * 1000
def imminent : ℤ := 5 * 60 * 1000

end ScheduleIntervals

/-- `eligibilityRetryDelayMs`: nothing stops the checks. -/
def eligibilityRetryDelayMs (stages : List StageView) (lifecycle : LifecycleStatus) (now : ℤ)
    (currentlyEligible : Bool) : Option ℤ :=
  if lifecycle = .ended ∨ lifecycle = .soldOut then none
  else match relevantStage stages now with
    | none => if lifecycle = .unknown then some ScheduleIntervals.near else none
    | some stage =>
      if stage.startsAt ≤ now ∧ stage.endsAt.elim true (now < ·) then
        some (if currentlyEligible then ScheduleIntervals.near else ScheduleIntervals.imminent)
      else if stage.startsAt - now > 24 * 60 * 60 * 1000 then some ScheduleIntervals.far
      else if stage.startsAt - now > 60 * 60 * 1000 then some ScheduleIntervals.near
      else some ScheduleIntervals.imminent

/-- How long until the next check of a stage, by its start. -/
def recheckDelay (start now : ℤ) (eligible : Bool) : ℤ :=
  if start ≤ now then if eligible then ScheduleIntervals.near else ScheduleIntervals.imminent
  else if start - now > 24 * 60 * 60 * 1000 then ScheduleIntervals.far
  else if start - now > 60 * 60 * 1000 then ScheduleIntervals.near
  else ScheduleIntervals.imminent

/-- A single stage that never ends is the relevant one. -/
theorem relevantStage_single (stage : StageView) (now : ℤ) (hends : stage.endsAt = none)
    (hpaused : stage.paused = false) : relevantStage [stage] now = some stage := by
  have hwindows : windowedStages [stage] now = [⟨stage, stage.startsAt - now, none⟩] := by
    simp [windowedStages, hends]
  rw [relevantStage, currentStage, nextStage, hwindows]
  by_cases hstarted : stage.startsAt - now ≤ 0
  · simp [hstarted, hpaused]
  · have hlater : now < stage.startsAt := by omega
    simp [hstarted, hpaused, hlater]

theorem eligibilityRetryDelayMs_single {lifecycle : LifecycleStatus} {start now : ℤ}
    {eligible : Bool} (hended : lifecycle ≠ .ended) (hsold : lifecycle ≠ .soldOut) :
    eligibilityRetryDelayMs [⟨"stage", .allowlist, start, none, false⟩] lifecycle now eligible =
      some (recheckDelay start now eligible) := by
  rw [eligibilityRetryDelayMs, if_neg (by simp [hended, hsold]),
    relevantStage_single _ _ rfl rfl, recheckDelay]
  by_cases hlive : start ≤ now
  · simp [hlive]
  · simp only [hlive, false_and, if_false]
    split_ifs
    · rfl
    · rfl
    · rfl

/-- **A restricted verdict** is an explicit answer for a restricted stage. -/
theorem classifyEligibility_eq_eligible_iff {checks : List EligibilityCheckResult} :
    classifyEligibility checks true = .eligibleRestricted ↔
      ∃ c ∈ checks, c.outcome = .restricted true := by
  rw [classifyEligibility, if_neg (by simp)]
  constructor
  · intro h
    by_cases hsaw : checks.any (fun c => c.outcome = .restricted true) = true
    · obtain ⟨c, hc, houtcome⟩ := List.any_eq_true.mp hsaw
      exact ⟨c, hc, of_decide_eq_true houtcome⟩
    · have hrest := (if_neg hsaw).symm.trans h
      repeat' split at hrest
      all_goals exact absurd hrest (by decide)
  · rintro ⟨c, hc, houtcome⟩
    exact if_pos (List.any_eq_true.mpr ⟨c, hc, decide_eq_true houtcome⟩)

end Eligibility
