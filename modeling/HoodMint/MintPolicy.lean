/-
The decisions of the fire path that need no I/O, and the pipeline they are made in
(`packages/core/src/execution.ts`, `packages/core/src/fire-schedule.ts`,
`packages/execution/src/pipeline.ts`, `apps/worker/src/mint-tx.ts`).

* `canFireMintPlan` — the policy check, with its reasons;
* `precheckAllowance`, `mintedOutIsTerminal` — what the contract's counters say;
* `fireTargetMs`, `isNearFireInstant` — the instant a plan aims at;
* `runExecutionPipeline` — policy, simulation, shadow mode, signer capability.
-/
import HoodMint.ExecutionEffects

namespace MintWorker

open Effect

/-! ### Policy -/

/-- `MINT_PLAN_STATUSES`. -/
inductive PlanStatus | draft | armed | executing | executed | expired | cancelled | failed
deriving DecidableEq

/-- The status as the source spells it. -/
def PlanStatus.name : PlanStatus → String
  | .draft => "draft"
  | .armed => "armed"
  | .executing => "executing"
  | .executed => "executed"
  | .expired => "expired"
  | .cancelled => "cancelled"
  | .failed => "failed"

/-- `MintPlanFireCheck`. -/
structure MintPlanFireCheck where
  status : PlanStatus
  armedUntil : Option ℤ
  signerCeilingWei : ℕ
  perPlanCeilingWei : ℕ
  spentWei : ℕ
  txValueWei : ℕ

/-- `canFireMintPlan`: the reason when the plan may not fire. -/
def canFireMintPlan (input : MintPlanFireCheck) (now : ℤ) : Except String Unit :=
  if input.status ≠ .armed then
    .error s!"plan status is '{input.status.name}', not 'armed'"
  else match input.armedUntil with
    | none => .error "plan has no arm window set"
    | some armedUntil =>
      if armedUntil ≤ now then .error "arm window has expired"
      else if input.perPlanCeilingWei = 0 then .error "per-plan ceiling must be positive"
      else if input.signerCeilingWei < input.perPlanCeilingWei then
        .error "per-plan ceiling exceeds the signer's coarse on-chain ceiling (ADR 0004 cap tiering)"
      else if input.perPlanCeilingWei ≤ input.spentWei then
        .error "per-plan spend ceiling already reached"
      else if input.perPlanCeilingWei < input.spentWei + input.txValueWei then
        .error "transaction value exceeds the per-plan spend ceiling"
      else .ok ()

/-- `PrecheckVerdict`. -/
inductive PrecheckVerdict
  | ok (quantity : ℕ)
  | mintedOut
  | allowanceExhausted (cap : ℕ)

/-- `Number.MAX_SAFE_INTEGER`. -/
def maxSafeInteger : ℤ := 9007199254740991

/-- `precheckAllowance`.  A `maxSupply` of 0 publishes no cap; without one the source
takes the largest safe integer for what is left. -/
def precheckAllowance (requested : ℕ) (cap : Option ℕ) (stats : MintStats) : PrecheckVerdict :=
  let supplyLeft : ℤ :=
    if 0 < stats.maxSupply then (stats.maxSupply : ℤ) - stats.currentTotalSupply else maxSafeInteger
  if supplyLeft ≤ 0 then .mintedOut
  else match cap with
    | some cap =>
      if cap ≤ stats.minterNumMinted then .allowanceExhausted cap
      else .ok (max 1 (min (min requested (cap - stats.minterNumMinted)) supplyLeft.toNat))
    | none => .ok (max 1 (min requested supplyLeft.toNat))

/-- `MINTED_OUT_CLOCK_LAG_GRACE_MS`. -/
def mintedOutClockLagGraceMs : ℤ := 5000

/-- `mintedOutIsTerminal`: the contract's supply decides, else the clock. -/
def mintedOutIsTerminal (nowMs : ℤ) (fireTargetMs : Option ℤ) (supply : Option MintStats) : Bool :=
  match supply.filter fun s => 0 < s.maxSupply with
  | some s => s.maxSupply ≤ s.currentTotalSupply
  | none =>
    match fireTargetMs with
    | none => true
    | some target => target + mintedOutClockLagGraceMs ≤ nowMs

/-! ### The fire target -/

/-- `chainTimeToLocalMs`. -/
def chainTimeToLocalMs (chainMs clockOffsetMs : ℤ) : ℤ := chainMs + clockOffsetMs

/-- `fireTargetMs`: the operator's override, else the start of the stage. -/
def fireTargetMs (plan : Plan) : Worker (Option ℤ) :=
  match plan.fireAt, plan.stageId with
  | some fireAt, _ => return some fireAt
  | none, none => return none
  | none, some stageId => ask (.selectStageStart stageId)

/-- `FIRE_BURST_WINDOW_MS`. -/
def fireBurstWindowMs : ℤ := 20000

/-- `isNearFireInstant`. -/
def isNearFireInstant (plan : Plan) : Worker Bool := do
  match ← fireTargetMs plan with
  | none => return false
  | some target =>
    let nowMs ← ask .now
    return (nowMs - target).natAbs ≤ fireBurstWindowMs

/-! ### The pipeline -/

/-- `PipelineOutcome`.  The hand-offs carry the transaction they are about. -/
inductive PipelineOutcome
  | blockedPolicy (reason : String)
  | blockedSimulation (revertReason : String)
  | shadowWouldFire (gasEstimate : ℕ)
  | blockedSchemeNotImplemented (error : String)
  | readyForBrowserSignature (signRequest : Tx)
  | readyForDelegatedSignature (tx : Tx) (gasEstimate : ℕ)

/-- The stage of an outcome, as the source spells it. -/
def PipelineOutcome.stage : PipelineOutcome → String
  | .blockedPolicy _ => "blocked_policy"
  | .blockedSimulation _ => "blocked_simulation"
  | .shadowWouldFire _ => "shadow_would_fire"
  | .blockedSchemeNotImplemented _ => "blocked_scheme_not_implemented"
  | .readyForBrowserSignature _ => "ready_for_browser_signature"
  | .readyForDelegatedSignature .. => "ready_for_delegated_signature"

/-- `assertSignable`, with the message of `NotImplementedSigningSchemeError`. -/
def assertSignable : SignerScheme → Except String Unit
  | .eip7702SafeZodiac =>
    .error ("signing scheme 'eip7702_safe_zodiac' is not implemented in this codebase yet — " ++
      "Phase 2 delegated custody (ADR 0004) requires the owner's Ledger hardware confirmation, a " ++
      "registered WebAuthn step-up factor, and explicit ToS-risk acceptance before it can be built " ++
      "and used for real. See docs/execution-architecture.md.")
  | _ => .ok ()

/-- `runExecutionPipeline`. -/
def runExecutionPipeline (check : MintPlanFireCheck) (scheme : SignerScheme) (tx : Tx)
    (liveExecutionEnabled : Bool) (simulate : Worker SimulateResult) : Worker PipelineOutcome := do
  let nowMs ← ask .now
  match canFireMintPlan check nowMs with
  | .error reason => return .blockedPolicy reason
  | .ok _ =>
    match ← simulate with
    | .error revertReason => return .blockedSimulation revertReason
    | .ok gasEstimate =>
      if liveExecutionEnabled = false then return .shadowWouldFire gasEstimate
      else match assertSignable scheme with
        | .error error => return .blockedSchemeNotImplemented error
        | .ok _ =>
          if scheme = .browserWallet then return .readyForBrowserSignature tx
          else return .readyForDelegatedSignature tx gasEstimate

end MintWorker
