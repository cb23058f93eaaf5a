/-
The rows of `mint_plans` and the statements that change them
(`packages/db/src/repositories/execution.ts`, `packages/db/src/repositories/mint-allowance.ts`).

Every repository function is one SQL statement, so it is a function on the table; what the
statement reads of a clock is an argument.

* `MintPlan` — a row;
* `MintPlans.createMintPlan`, `MintPlans.armMintPlan`, … — the repository functions;
* `MintPlan.Due`, `MintPlans.claimArmedMintPlan` — which plans may be claimed, and the claim:
  it takes a due plan (`due_of_dueForClaim`), and, since rows that others have locked are
  skipped, any due plan may be the one (`exists_dueForClaim`);
* `PlanStatement`, `PlanDb.exec` — the statements as labels, over the plans and the stages
  they point to.
-/
import HoodMint.Lib.Table
import HoodMint.MintPolicy
import Mathlib.Data.List.MinMax
import Mathlib.Data.Prod.Lex

namespace MintWorker

open Relational

/-! ### Rows -/

/-- A row of `mint_plans`. -/
structure MintPlan where
  id : String
  projectId : String
  walletId : String
  stageId : Option String
  signerId : Option String
  fireAt : Option ℤ
  quantity : ℕ
  perPlanCeilingWei : ℕ
  status : PlanStatus
  armedAt : Option ℤ
  armedUntil : Option ℤ
  armedByUserId : Option String
  cachedTx : Option Tx
  cachedTxAt : Option ℤ
  presignedRawTx : Option String
  presignedNonce : Option ℕ
  presignedTxHash : Option String
  presignedAt : Option ℤ
  createdAt : ℤ
  updatedAt : ℤ

/-- A row of `drop_stages`, as far as a claim reads it. -/
structure DropStage where
  id : String
  startsAt : ℤ
  paused : Bool

abbrev MintPlans := Table MintPlan String MintPlan.id

abbrev DropStages := Table DropStage String DropStage.id

/-- The statuses no plan is meant to leave. -/
def PlanStatus.Terminal (s : PlanStatus) : Prop :=
  s = .executed ∨ s = .expired ∨ s = .cancelled ∨ s = .failed

instance : DecidablePred PlanStatus.Terminal := fun _ => inferInstanceAs (Decidable (_ ∨ _))

/-- `PURGE_PRESIGNED`. -/
def MintPlan.purged (r : MintPlan) : MintPlan :=
  { r with
    presignedRawTx := none, presignedNonce := none, presignedTxHash := none, presignedAt := none }

/-- `CreateMintPlanInput`. -/
structure CreateMintPlanInput where
  projectId : String
  walletId : String
  stageId : Option String
  signerId : Option String
  quantity : Option ℕ
  perPlanCeilingWei : ℕ
  fireAt : Option ℤ

/-! ### The operator's statements -/

namespace MintPlans

/-- `createMintPlan`; the identifier is the database's. -/
def createMintPlan (plans : MintPlans) (id : String) (input : CreateMintPlanInput) (now : ℤ) :
    MintPlans :=
  plans.insert
    { id, projectId := input.projectId, walletId := input.walletId, stageId := input.stageId
      signerId := input.signerId, fireAt := input.fireAt, quantity := input.quantity.getD 1
      perPlanCeilingWei := input.perPlanCeilingWei, status := .draft
      armedAt := none, armedUntil := none, armedByUserId := none
      cachedTx := none, cachedTxAt := none, presignedRawTx := none, presignedNonce := none
      presignedTxHash := none, presignedAt := none, createdAt := now, updatedAt := now }

/-- `armMintPlan`; it reads the clock three times. -/
def armMintPlan (plans : MintPlans) (id armedByUserId : String)
    (windowMinutes armedAt nowMs updatedAt : ℤ) : MintPlans :=
  plans.update (fun r => r.id = id ∧ r.status = .draft)
    (fun r => { r with
      status := .armed, armedAt := some armedAt
      armedUntil := some (nowMs + windowMinutes * 60000)
      armedByUserId := some armedByUserId, updatedAt }) fun _ => rfl

/-- `disarmMintPlan`. -/
def disarmMintPlan (plans : MintPlans) (id : String) (now : ℤ) : MintPlans :=
  plans.update (fun r => r.id = id ∧ r.status = .armed)
    (fun r => { r.purged with status := .cancelled, updatedAt := now }) fun _ => rfl

/-- `cancelOpenPlansForWallet`. -/
def cancelOpenPlansForWallet (plans : MintPlans) (walletId : String) (now : ℤ) : MintPlans :=
  plans.update
    (fun r => r.walletId = walletId ∧
      (r.status = .draft ∨ r.status = .armed ∨ r.status = .executing))
    (fun r => { r.purged with status := .cancelled, updatedAt := now }) fun _ => rfl

/-- `deleteMintPlan`. -/
def deleteMintPlan (plans : MintPlans) (id : String) : MintPlans :=
  plans.delete fun r => r.id = id ∧ r.status = .draft

/-- `setDraftMintPlanQuantity`; a number that is no integer is refused like one below 1. -/
def setDraftMintPlanQuantity (plans : MintPlans) (planId : String) (quantity now : ℤ) :
    MintPlans :=
  if quantity < 1 then plans
  else plans.update (fun r => r.id = planId ∧ r.status = .draft)
    (fun r => { r with quantity := quantity.toNat, updatedAt := now }) fun _ => rfl

/-! ### The worker's statements -/

/-- `cacheMintPlanTx`. -/
def cacheMintPlanTx (plans : MintPlans) (id : String) (tx : Tx) (now : ℤ) : MintPlans :=
  plans.update (fun r => r.id = id)
    (fun r => { r with cachedTx := some tx, cachedTxAt := some now, updatedAt := now }) fun _ => rfl

/-- `savePresignedTx`. -/
def savePresignedTx (plans : MintPlans) (planId rawTx : String) (nonce : ℕ) (txHash : String)
    (now : ℤ) : MintPlans :=
  plans.update (fun r => r.id = planId)
    (fun r => { r with
      presignedRawTx := some rawTx, presignedNonce := some nonce, presignedTxHash := some txHash
      presignedAt := some now, updatedAt := now }) fun _ => rfl

/-- `clearPresignedTx`. -/
def clearPresignedTx (plans : MintPlans) (planId : String) (now : ℤ) : MintPlans :=
  plans.update (fun r => r.id = planId) (fun r => { r.purged with updatedAt := now }) fun _ => rfl

/-- `clearPresignedForWallet`. -/
def clearPresignedForWallet (plans : MintPlans) (walletId : String) (now : ℤ) : MintPlans :=
  plans.update (fun r => r.walletId = walletId) (fun r => { r.purged with updatedAt := now })
    fun _ => rfl

/-- `expireStaleMintPlans`; the events it publishes leave the plans alone. -/
def expireStaleMintPlans (plans : MintPlans) (now : ℤ) : MintPlans :=
  plans.update
    (fun r => (r.status = .armed ∨ r.status = .executing) ∧ ∃ u ∈ r.armedUntil, u ≤ now)
    (fun r => { r.purged with status := .expired, updatedAt := now }) fun _ => rfl

/-- `releaseMintPlanToArmed`. -/
def releaseMintPlanToArmed (plans : MintPlans) (id : String) (now : ℤ) : MintPlans :=
  plans.update (fun r => r.id = id ∧ r.status = .executing ∧ ∃ u ∈ r.armedUntil, now < u)
    (fun r => { r with status := .armed, updatedAt := now }) fun _ => rfl

/-- `markMintPlanExecuted` and `failMintPlanExecution` differ in the status they set. -/
def endExecution (plans : MintPlans) (id : String) (status : PlanStatus) (now : ℤ) : MintPlans :=
  plans.update (fun r => r.id = id ∧ r.status = .executing)
    (fun r => { r.purged with status, updatedAt := now }) fun _ => rfl

/-- `markMintPlanExecuted`. -/
def markMintPlanExecuted (plans : MintPlans) (id : String) (now : ℤ) : MintPlans :=
  endExecution plans id .executed now

/-- `failMintPlanExecution`. -/
def failMintPlanExecution (plans : MintPlans) (id : String) (now : ℤ) : MintPlans :=
  endExecution plans id .failed now

end MintPlans

/-! ### The claim -/

/-- `CLAIM_FIRE_TOLERANCE_MS`. -/
def claimFireToleranceMs : ℤ := 500

/-- The stage of a plan. -/
def MintPlan.stage (r : MintPlan) (stages : DropStages) : Option DropStage :=
  r.stageId.bind stages.get?

/-- `coalesce(fire_at, starts_at, armed_at)`. -/
def MintPlan.claimTarget (r : MintPlan) (stages : DropStages) : Option ℤ :=
  (r.fireAt.or ((r.stage stages).map DropStage.startsAt)).or r.armedAt

/-- `fireTolerance`: how far ahead of its target a plan may be claimed. -/
def claimTolerance (leadMs : ℤ) : ℤ := max claimFireToleranceMs leadMs + 50

/-- The stage has been superseded and the operator has set no instant of his own. -/
def MintPlan.Superseded (r : MintPlan) (stages : DropStages) : Prop :=
  r.fireAt = none ∧ ∃ s ∈ r.stage stages, s.paused = true

/-- The `WHERE` clause of the claim. -/
def MintPlan.Due (r : MintPlan) (stages : DropStages) (now leaseMs leadMs : ℤ) : Prop :=
  (∃ u ∈ r.armedUntil, now < u) ∧
    (∃ target ∈ r.claimTarget stages, target ≤ now + claimTolerance leadMs) ∧
    ¬ r.Superseded stages ∧
    (r.status = .armed ∨ (r.status = .executing ∧ r.updatedAt < now - leaseMs))

instance (r : MintPlan) (stages : DropStages) : Decidable (r.Superseded stages) :=
  (inferInstance : Decidable (_ ∧ ∃ s ∈ r.stage stages, s.paused = true))

instance (r : MintPlan) (stages : DropStages) (now leaseMs leadMs : ℤ) :
    Decidable (r.Due stages now leaseMs leadMs) :=
  (inferInstance : Decidable ((∃ u ∈ r.armedUntil, now < u) ∧
    (∃ target ∈ r.claimTarget stages, target ≤ now + claimTolerance leadMs) ∧ _ ∧ _))

/-- The order of the claim: `order by target, armed_until`. -/
abbrev claimOrder : LinearOrder (ℤ ×ₗ ℤ) :=
  @Prod.Lex.instLinearOrder ℤ ℤ Int.instLinearOrder Int.instLinearOrder

local instance claimPreorder : Preorder (ℤ ×ₗ ℤ) := claimOrder.toPreorder

local instance decidableClaimLT : DecidableLT (ℤ ×ₗ ℤ) := claimOrder.toDecidableLT

/-- `due`: the row a claim takes, the due
row of the earliest target among those no other statement has locked. -/
def MintPlans.dueForClaim (plans : MintPlans) (stages : DropStages) (now leaseMs leadMs : ℤ)
    (locked : List String) : Option MintPlan :=
  (plans.rows.filter fun r => r.Due stages now leaseMs leadMs ∧ r.id ∉ locked).argmin fun r =>
    toLex ((r.claimTarget stages).getD 0, r.armedUntil.getD 0)

/-- The update of the claim; `updated_at` is the database's clock. -/
def MintPlans.claimRow (plans : MintPlans) (id : String) (dbNow : ℤ) : MintPlans :=
  plans.update (fun r => r.id = id) (fun r => { r with status := .executing, updatedAt := dbNow })
    fun _ => rfl

/-- The columns a claim returns. -/
def MintPlan.claimed (r : MintPlan) : Plan :=
  { id := r.id, projectId := r.projectId, stageId := r.stageId, fireAt := r.fireAt
    signerId := r.signerId, walletId := r.walletId, quantity := r.quantity
    perPlanCeilingWei := r.perPlanCeilingWei, armedUntil := r.armedUntil
    cachedTx := r.cachedTx, cachedTxAt := r.cachedTxAt }

/-- `claimArmedMintPlan`. -/
def MintPlans.claimArmedMintPlan (plans : MintPlans) (stages : DropStages)
    (now leaseMs leadMs dbNow : ℤ) (locked : List String) : Option Plan × MintPlans :=
  match dueForClaim plans stages now leaseMs leadMs locked with
  | none => (none, plans)
  | some r => (some r.claimed, claimRow plans r.id dbNow)

namespace MintPlans

variable {plans : MintPlans} {stages : DropStages} {now leaseMs leadMs dbNow : ℤ}
  {locked : List String} {r : MintPlan}

/-- A claim takes a due row. -/
theorem due_of_dueForClaim (h : dueForClaim plans stages now leaseMs leadMs locked = some r) :
    r ∈ plans ∧ r.Due stages now leaseMs leadMs := by
  have hmem := List.argmin_mem (Option.mem_def.mpr h)
  obtain ⟨hr, hdue⟩ := List.mem_filter.mp hmem
  exact ⟨hr, (of_decide_eq_true hdue).1⟩

/-- Any due row may be the one a claim takes, when the others are locked. -/
theorem exists_dueForClaim (hr : r ∈ plans) (h : r.Due stages now leaseMs leadMs) :
    ∃ locked, dueForClaim plans stages now leaseMs leadMs locked = some r := by
  refine ⟨(plans.rows.map MintPlan.id).filter (· ≠ r.id), ?_⟩
  set locked := (plans.rows.map MintPlan.id).filter (· ≠ r.id) with hlocked
  have hfree : ∀ r' ∈ plans, r'.id ∉ locked → r' = r := by
    intro r' hr' hout
    by_contra hne
    refine hout (List.mem_filter.mpr ⟨List.mem_map.mpr ⟨r', hr', rfl⟩, ?_⟩)
    exact decide_eq_true fun hid => hne (Table.eq_of_key hr' hr hid)
  have hself : r.id ∉ locked := by simp [hlocked]
  cases hdue : dueForClaim plans stages now leaseMs leadMs locked with
  | none =>
    have hnil := List.argmin_eq_none.mp hdue
    have hnone := List.filter_eq_nil_iff.mp hnil r hr
    exact absurd (decide_eq_true ⟨h, hself⟩) hnone
  | some r' =>
    obtain ⟨hr', hout⟩ := List.mem_filter.mp (List.argmin_mem (Option.mem_def.mpr hdue))
    rw [hfree r' hr' (of_decide_eq_true hout).2]

end MintPlans

/-! ### The statements as labels -/

/-- The plans, and the stages they point to. -/
structure PlanDb where
  plans : MintPlans
  stages : DropStages

/-- What is done to the plans; `stages` is whatever the providers' sweeps make of the
stages. -/
inductive PlanStatement
  | createMintPlan (id : String) (input : CreateMintPlanInput) (now : ℤ)
  | armMintPlan (id armedByUserId : String) (windowMinutes armedAt nowMs updatedAt : ℤ)
  | disarmMintPlan (id : String) (now : ℤ)
  | cancelOpenPlansForWallet (walletId : String) (now : ℤ)
  | deleteMintPlan (id : String)
  | setDraftMintPlanQuantity (planId : String) (quantity now : ℤ)
  | claimArmedMintPlan (now leaseMs leadMs dbNow : ℤ) (locked : List String)
  | expireStaleMintPlans (now : ℤ)
  | releaseMintPlanToArmed (id : String) (now : ℤ)
  | markMintPlanExecuted (id : String) (now : ℤ)
  | failMintPlanExecution (id : String) (now : ℤ)
  | cacheMintPlanTx (id : String) (tx : Tx) (now : ℤ)
  | savePresignedTx (planId rawTx : String) (nonce : ℕ) (txHash : String) (now : ℤ)
  | clearPresignedTx (planId : String) (now : ℤ)
  | clearPresignedForWallet (walletId : String) (now : ℤ)
  | stages (stages : DropStages)

namespace PlanDb

/-- The plans after a statement. -/
def plansAfter (db : PlanDb) : PlanStatement → MintPlans
  | .createMintPlan id input now => MintPlans.createMintPlan db.plans id input now
  | .armMintPlan id user windowMinutes armedAt nowMs updatedAt =>
    MintPlans.armMintPlan db.plans id user windowMinutes armedAt nowMs updatedAt
  | .disarmMintPlan id now => MintPlans.disarmMintPlan db.plans id now
  | .cancelOpenPlansForWallet walletId now =>
    MintPlans.cancelOpenPlansForWallet db.plans walletId now
  | .deleteMintPlan id => MintPlans.deleteMintPlan db.plans id
  | .setDraftMintPlanQuantity planId quantity now =>
    MintPlans.setDraftMintPlanQuantity db.plans planId quantity now
  | .claimArmedMintPlan now leaseMs leadMs dbNow locked =>
    (MintPlans.claimArmedMintPlan db.plans db.stages now leaseMs leadMs dbNow locked).2
  | .expireStaleMintPlans now => MintPlans.expireStaleMintPlans db.plans now
  | .releaseMintPlanToArmed id now => MintPlans.releaseMintPlanToArmed db.plans id now
  | .markMintPlanExecuted id now => MintPlans.markMintPlanExecuted db.plans id now
  | .failMintPlanExecution id now => MintPlans.failMintPlanExecution db.plans id now
  | .cacheMintPlanTx id tx now => MintPlans.cacheMintPlanTx db.plans id tx now
  | .savePresignedTx planId rawTx nonce txHash now =>
    MintPlans.savePresignedTx db.plans planId rawTx nonce txHash now
  | .clearPresignedTx planId now => MintPlans.clearPresignedTx db.plans planId now
  | .clearPresignedForWallet walletId now =>
    MintPlans.clearPresignedForWallet db.plans walletId now
  | .stages _ => db.plans

/-- The effect of a statement. -/
def exec (db : PlanDb) (s : PlanStatement) : PlanDb :=
  ⟨db.plansAfter s, match s with
    | .stages stages => stages
    | _ => db.stages⟩

end PlanDb

/-! ### A sample -/

namespace Sample

/-- A plan armed by the operator, for an instant a minute after its arming. -/
def mintPlan : MintPlan :=
  { id := "p", projectId := "q", walletId := "w", stageId := none, signerId := none
    fireAt := some 60000, quantity := 1, perPlanCeilingWei := 10, status := .armed
    armedAt := some 0, armedUntil := some 120000, armedByUserId := some "operator"
    cachedTx := none, cachedTxAt := none, presignedRawTx := none, presignedNonce := none
    presignedTxHash := none, presignedAt := none, createdAt := 0, updatedAt := 0 }

/-- The table that holds this plan. -/
def mintPlans : MintPlans := ⟨[mintPlan], List.nodup_singleton _⟩

end Sample

end MintWorker
