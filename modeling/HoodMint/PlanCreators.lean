/-
Who makes and arms mint plans (`apps/web/src/app/actions.ts`,
`apps/worker/src/workers/auto-mint.ts`).

* `createMintPlanAction` — the ordinary form: a draft for every wallet;
* `createSpecialMintAction` — the special-mints console: a draft for every managed wallet that has
  no live plan for the phase, sized to what its cap leaves;
* `armSpecialMintPlansAction` — the console arms drafts, each for a window of its own;
* `runAutoMintPlanner` — the worker makes and arms plans for what its policy allows.
-/
import HoodMint.CreatorEffects

namespace PlanCreators

open AutoMint Effect Eligibility MintAllowance Projects

open MintWorker (MintPlan CreateMintPlanInput)

/-- Why an action does nothing. -/
inductive Refusal
  | role | stepUp | project | noWallet | tooManyWallets (count : ℕ) | walletId | ceiling | quantity
  | stageId | stage | signerId | signer | signerInactive | fireTime | firePast | noFireInstant
  | walletQuantity | unmanaged (count : ℕ) | allPlanned | allExhausted | noPlan
  | tooManyPlans (count : ℕ)
deriving DecidableEq

/-! ### The ordinary form -/

/-- What the form sends. -/
structure MintPlanForm where
  projectId : String
  walletIds : List String
  stageId : Option String
  signerId : Option String
  quantity : Option ℚ
  perPlanCeilingWei : String

/-- The wallets of a form, trimmed and each once. -/
def typedIds (ids : List String) : List String := (ids.map Text.trim).eraseDups.filter (· ≠ "")

/-- The checks before anything is read: the wallets, the ceiling and the quantity. -/
def MintPlanForm.check (form : MintPlanForm) : Except Refusal (List String × ℕ × ℕ) := do
  let walletIds := typedIds form.walletIds
  if ¬ isUuid form.projectId then throw .project
  if walletIds.length = 0 then throw .noWallet
  if walletIds.length > 50 then throw (.tooManyWallets walletIds.length)
  if ¬ walletIds.all isUuid then throw .walletId
  let some ceilingWei := ceiling? form.perPlanCeilingWei | throw .ceiling
  let some quantity := form.quantity | throw .quantity
  return (walletIds, ceilingWei, (max 1 ⌊quantity⌋).toNat)

/-- The stage that was picked, if one was: it must be one of the project. -/
def pickedStage (projectId : String) (picked : Option String) (valid : String → Bool) :
    Creator (Except Refusal (Option StageRow)) := do
  let stageId := typedText picked
  if stageId = "" then return .ok none
  else if ¬ valid stageId then return .error .stageId
  else
    match ← ask (.getDropStage stageId) with
    | none => return .error .stage
    | some stage =>
      if stage.projectId = projectId then return .ok (some { stage with id := stageId })
      else return .error .stage

/-- The signer that was picked, if one was: it must be active. -/
def pickedSigner (picked : Option String) : Creator (Except Refusal (Option String)) := do
  let signerId := typedText picked
  if signerId = "" then return .ok none
  else if ¬ isUuid signerId then return .error .signerId
  else
    match ← ask (.getSigner signerId) with
    | none => return .error .signer
    | some signer => return if signer.active then .ok (some signerId) else .error .signerInactive

/-- A draft is created, and audited. -/
def createDraft (actor : String) (action : AuditAction) (input : CreateMintPlanInput) :
    Creator Unit := do
  let id ← ask (.createMintPlan input)
  ask (.recordAudit ⟨actor, action, id, true⟩)

/-- The drafts, one after the other. -/
def createDrafts (actor : String) (action : AuditAction) : List CreateMintPlanInput → Creator Unit
  | [] => return ()
  | input :: inputs => do
    createDraft actor action input
    createDrafts actor action inputs

/-- `createMintPlanAction`; what it answers is the number of drafts. -/
def createMintPlanAction (form : MintPlanForm) : Creator (Except Refusal ℕ) := do
  match ← (ask (.requireApi "execution:operate")).attempt with
  | .error _ => return .error .role
  | .ok actor =>
    match form.check with
    | .error refusal => return .error refusal
    | .ok (walletIds, perPlanCeilingWei, quantity) =>
      match ← pickedStage form.projectId form.stageId isUuid with
      | .error refusal => return .error refusal
      | .ok stage =>
        match ← pickedSigner form.signerId with
        | .error refusal => return .error refusal
        | .ok signerId => do
          createDrafts actor .planCreate <| walletIds.map fun walletId =>
            { projectId := form.projectId, walletId, stageId := stage.map (·.id), signerId
              quantity := some quantity, perPlanCeilingWei, fireAt := none }
          return .ok walletIds.length

/-! ### The special-mints console -/

/-- `SpecialMintWalletInput`. -/
structure SpecialMintWalletInput where
  walletId : String
  quantity : Option ℚ

/-- What the console sends. -/
structure SpecialMintForm where
  projectId : String
  stageId : Option String
  fireAtGmt7 : Option String
  wallets : List SpecialMintWalletInput
  perPlanCeilingWei : String

/-- A wallet with the number of tokens it is to mint. -/
structure Selection where
  walletId : String
  quantity : ℕ
deriving DecidableEq

/-- `SPECIAL_MINT_MAX_WALLETS`. -/
def specialMintMaxWallets : ℕ := 50

/-- `SPECIAL_MINT_MAX_QUANTITY`. -/
def specialMintMaxQuantity : ℕ := 20

/-- The selections: a wallet named again is skipped, one that is not valid refuses them all. -/
def selectionsOf : List SpecialMintWalletInput → List String → Except Refusal (List Selection)
  | [], _ => .ok []
  | entry :: entries, seen =>
    let walletId := Text.trim entry.walletId
    if walletId = "" ∨ walletId ∈ seen then selectionsOf entries seen
    else if ¬ isTypedUuid walletId then .error .walletId
    else
      match entry.quantity with
      | none => .error .walletQuantity
      | some quantity =>
        if ⌊quantity⌋ < 1 ∨ ⌊quantity⌋ > specialMintMaxQuantity then .error .quantity
        else (selectionsOf entries (walletId :: seen)).map (⟨walletId, ⌊quantity⌋.toNat⟩ :: ·)

/-- The fire time that was typed, if one was: it must be ahead. -/
def typedFireAt (typed : Option String) : Creator (Except Refusal (Option ℤ)) := do
  let fireAt := typedText typed
  if fireAt = "" then return .ok none
  else
    match gmt7LocalToUtc fireAt with
    | none => return .error .fireTime
    | some fireAt => do
      let now ← ask .now
      return if fireAt ≤ now then .error .firePast else .ok (some fireAt)

/-- The selections of a form, when they are of managed wallets. -/
def managedSelections (wallets : List SpecialMintWalletInput) :
    Creator (Except Refusal (List Selection)) := do
  match selectionsOf wallets [] with
  | .error refusal => return .error refusal
  | .ok selections =>
    if selections.length = 0 then return .error .noWallet
    else if selections.length > specialMintMaxWallets then
      return .error (.tooManyWallets selections.length)
    else do
      let listed ← ask .listEnabledWallets
      let managed := (listed.filter (·.hasSigningKey)).map (·.id)
      let unusable := selections.filter fun s => s.walletId ∉ managed
      return if unusable.length > 0 then .error (.unmanaged unusable.length) else .ok selections

/-- On a stage without a price the ceiling is clamped. -/
def effectiveCeiling (freeStageCap : ℕ) (stage : Option StageRow) (ceilingWei : ℕ) : ℕ :=
  if weiOrZero (stage.bind (·.priceWei)) = 0 ∧ ceilingWei > freeStageCap then freeStageCap
  else ceilingWei

/-- The cap of a wallet: OpenSea's answer for it, else what the stage publishes. -/
def capFor (caps : List (String × ℕ)) (stage : Option StageRow) (walletId : String) : Option ℕ :=
  (caps.lookup walletId).or (stage.bind (·.maxPerWallet))

/-- What is charged against the cap of a wallet. -/
def mintedOf (totals : List WalletDropMintTotals) (walletId : String) : ℕ :=
  (totals.find? fun t => t.walletId = walletId).elim 0 (·.alreadyMinted)

/-- What a wallet may still mint. -/
def allowanceOf (cap : Option ℕ) (minted : ℕ) (quantity : ℕ) : RemainingAllowance :=
  remainingAllowance (cap.map Nat.cast) (some minted) quantity

/-- What was answered, or nothing when the read has failed. -/
def orNothing {α : Type} (answer : Except Thrown (List α)) : List α :=
  match answer with
  | .ok rows => rows
  | .error _ => []

/-- The selections that have no live plan for the phase; when that cannot be read, all of them. -/
def freshSelections (projectId : String) (stageId : Option String) (selections : List Selection) :
    Creator (List Selection) := do
  let live ← (ask (.walletsWithLivePlanForStage projectId stageId)).attempt
  return selections.filter fun s => s.walletId ∉ orNothing live

/-- The selections sized to what the caps leave; those with nothing left are dropped. -/
def sizedSelections (projectId : String) (caps : List (String × ℕ)) (stage : Option StageRow)
    (selections : List Selection) : Creator (List Selection) := do
  if (stage.bind (·.maxPerWallet)).isNone ∧ caps.length = 0 then return selections
  else
    let totals ← (ask (.walletMintTotalsForProject projectId)).attempt
    return selections.filterMap fun s =>
      let allowance := allowanceOf (capFor caps stage s.walletId)
        (mintedOf (orNothing totals) s.walletId) s.quantity
      if allowance.exhausted then none else some { s with quantity := allowance.effective }

/-- The caps of the stage that was picked. -/
def capsOfStage (stage : Option StageRow) : Creator (List (String × ℕ)) :=
  match stage with
  | none => return []
  | some stage => ask (.stageWalletCaps stage.id)

/-- The drafts of the console, once the form has been checked. -/
def createSpecialDrafts (freeStageCap : ℕ) (actor projectId : String) (stage : Option StageRow)
    (fireAt : Option ℤ) (ceilingWei : ℕ) (selections : List Selection) :
    Creator (Except Refusal ℕ) := do
  let caps ← capsOfStage stage
  let fresh ← freshSelections projectId (stage.map (·.id)) selections
  if fresh.length = 0 then return .error .allPlanned
  else
    let planned ← sizedSelections projectId caps stage fresh
    if planned.length = 0 then return .error .allExhausted
    else
      createDrafts actor .specialMintCreate <| planned.map fun s =>
        { projectId, walletId := s.walletId, stageId := stage.map (·.id), signerId := none
          quantity := some s.quantity
          perPlanCeilingWei := effectiveCeiling freeStageCap stage ceilingWei, fireAt }
      return .ok planned.length

/-- `createSpecialMintAction`. -/
def createSpecialMintAction (freeStageCap : ℕ) (form : SpecialMintForm) :
    Creator (Except Refusal ℕ) := do
  match ← (ask (.requireApi "execution:configure")).attempt with
  | .error _ => return .error .role
  | .ok actor =>
    if ¬ isTypedUuid form.projectId then return .error .project
    else
      match ceiling? form.perPlanCeilingWei with
      | none => return .error .ceiling
      | some ceilingWei =>
        match ← pickedStage form.projectId form.stageId isTypedUuid with
        | .error refusal => return .error refusal
        | .ok stage =>
          match ← typedFireAt form.fireAtGmt7 with
          | .error refusal => return .error refusal
          | .ok fireAt =>
            if stage.isNone ∧ fireAt.isNone then return .error .noFireInstant
            else
              match ← managedSelections form.wallets with
              | .error refusal => return .error refusal
              | .ok selections =>
                createSpecialDrafts freeStageCap actor form.projectId stage fireAt ceilingWei
                  selections

/-! ### The console arms -/

inductive ArmProblem
  | invalidId | notFound | window (refusal : ArmRefusal) | stagePaused
  | ineligible (status : EligibilityState) | exhausted | funding | notDraft
deriving DecidableEq

inductive ArmWarning
  | eligibility (status : EligibilityState) | funding (reason : String)
deriving DecidableEq

/-- A plan that has been armed, and whether its quantity was clamped. -/
structure ArmedPlan where
  quantity : ℕ
  windowMinutes : ℤ
  warnings : List ArmWarning
  clamped : Bool
deriving DecidableEq

/-- What the caches of a batch hold. -/
structure ArmCaches where
  eligibility : List ((String × String) × List (String × EligibilityState))
  minted : List (String × List WalletDropMintTotals)

/-- `specialMintEligibilityForStage`. -/
def specialMintEligibilityForStage (caches : ArmCaches) (projectId stageId : String) :
    Creator (List (String × EligibilityState) × ArmCaches) := do
  match caches.eligibility.lookup (projectId, stageId) with
  | some statuses => return (statuses, caches)
  | none =>
    let answer ← (ask (.eligibilityForStage projectId stageId)).attempt
    return (orNothing answer, { caches with
      eligibility := ((projectId, stageId), orNothing answer) :: caches.eligibility })

/-- `specialMintMintedTotals`. -/
def specialMintMintedTotals (caches : ArmCaches) (projectId : String) :
    Creator (List WalletDropMintTotals × ArmCaches) := do
  match caches.minted.lookup projectId with
  | some totals => return (totals, caches)
  | none =>
    let answer ← (ask (.walletMintTotalsForProject projectId)).attempt
    return (orNothing answer,
      { caches with minted := (projectId, orNothing answer) :: caches.minted })

/-- A plan is not armed, which is audited unless it could not be looked at. -/
def refuseArm (actor planId : String) (problem : ArmProblem) :
    Creator (Except ArmProblem ArmedPlan) := do
  ask (.recordAudit ⟨actor, .specialMintArm, planId, false⟩)
  return .error problem

/-- The eligibility gate of a restricted phase: why the plan is not armed, or the warnings. -/
def eligibilityGate (caches : ArmCaches) (plan : MintPlan) (stage : Option StageRow) :
    Creator (Except EligibilityState (List ArmWarning) × ArmCaches) := do
  match stage with
  | none => return (.ok [], caches)
  | some stage =>
    if ¬ isRestrictedStage stage.type then return (.ok [], caches)
    else
      let (statuses, caches) ← specialMintEligibilityForStage caches plan.projectId stage.id
      let status := (statuses.lookup plan.walletId).getD .unknown
      return (if status = .ineligibleRestricted ∨ status = .publicOnly then .error status
        else if status = .eligibleRestricted then .ok []
        else .ok [.eligibility status], caches)

/-- The allowance gate: the quantity to arm for, of which the draft is rewritten when it is
clamped. -/
def allowanceGate (caches : ArmCaches) (actor : String) (plan : MintPlan)
    (stage : Option StageRow) : Creator (Except ArmProblem (ℕ × Bool) × ArmCaches) := do
  match stage with
  | none => return (.ok (plan.quantity, false), caches)
  | some stage =>
    let caps ← ask (.stageWalletCaps stage.id)
    match capFor caps (some stage) plan.walletId with
    | none => return (.ok (plan.quantity, false), caches)
    | some cap =>
      let (totals, caches) ← specialMintMintedTotals caches plan.projectId
      let allowance := allowanceOf (some cap) (mintedOf totals plan.walletId) plan.quantity
      if allowance.exhausted then return (.error .exhausted, caches)
      else if allowance.clamped then
        match ← ask (.setDraftMintPlanQuantity plan.id allowance.effective) with
        | none => return (.error .notDraft, caches)
        | some stored =>
          ask (.recordAudit ⟨actor, .specialMintClampQuantity, plan.id, true⟩)
          return (.ok (stored, true), caches)
      else return (.ok (plan.quantity, false), caches)

/-- The funding gate, and the arming itself. -/
def fundAndArm (actor : String) (plan : MintPlan) (stage : Option StageRow) (windowMinutes : ℤ)
    (warnings : List ArmWarning) (quantity : ℕ) (clamped : Bool) :
    Creator (Except ArmProblem ArmedPlan) := do
  let funding ← ask (.checkArmFunding
    ⟨plan.walletId, quantity, plan.perPlanCeilingWei, stage.bind (·.priceWei),
      stage.bind (·.currency)⟩)
  match funding with
  | .short => refuseArm actor plan.id .funding
  | funding =>
    let warnings := match funding with
      | .notChecked reason => warnings ++ [.funding reason]
      | _ => warnings
    if ← ask (.armMintPlan plan.id actor windowMinutes) then
      ask (.recordAudit ⟨actor, .specialMintArm, plan.id, true⟩)
      return .ok ⟨quantity, windowMinutes, warnings, clamped⟩
    else return .error .notDraft

/-- The gates of a plan whose window has been computed. -/
def gateAndArm (caches : ArmCaches) (actor : String) (plan : MintPlan) (stage : Option StageRow)
    (windowMinutes : ℤ) : Creator (Except ArmProblem ArmedPlan × ArmCaches) := do
  if stage.elim false (·.paused) ∧ plan.fireAt = none then
    return (← refuseArm actor plan.id .stagePaused, caches)
  else
    match ← eligibilityGate caches plan stage with
    | (.error status, caches) => return (← refuseArm actor plan.id (.ineligible status), caches)
    | (.ok warnings, caches) =>
      match ← allowanceGate caches actor plan stage with
      | (.error .exhausted, caches) => return (← refuseArm actor plan.id .exhausted, caches)
      | (.error problem, caches) => return (.error problem, caches)
      | (.ok (quantity, clamped), caches) =>
        return (← fundAndArm actor plan stage windowMinutes warnings quantity clamped, caches)

/-- The window of a stage. -/
def stageWindow (stage : StageRow) : StageWindow := ⟨stage.startsAt, stage.endsAt⟩

/-- The stage of a plan. -/
def stageOfPlan (plan : MintPlan) : Creator (Option StageRow) :=
  match plan.stageId with
  | none => return none
  | some stageId => ask (.getDropStage stageId)

/-- One plan of the batch. -/
def armPlan (caches : ArmCaches) (actor : String) (now : ℤ) (planId : String) :
    Creator (Except ArmProblem ArmedPlan × ArmCaches) := do
  if ¬ isTypedUuid planId then return (.error .invalidId, caches)
  else
    match ← ask (.getMintPlan planId) with
    | none => return (.error .notFound, caches)
    | some plan =>
      let stage ← stageOfPlan plan
      match specialMintArmWindow now plan.fireAt (stage.map stageWindow) with
      | .error refusal => return (← refuseArm actor plan.id (.window refusal), caches)
      | .ok windowMinutes => gateAndArm caches actor plan stage windowMinutes

/-- The plans of the batch, one after the other. -/
def armPlans (actor : String) (now : ℤ) :
    List String → ArmCaches → Creator (List (String × Except ArmProblem ArmedPlan))
  | [], _ => return []
  | planId :: planIds, caches => do
    let (outcome, caches) ← armPlan caches actor now planId
    let outcomes ← armPlans actor now planIds caches
    return (planId, outcome) :: outcomes

/-- `armSpecialMintPlansAction`. -/
def armSpecialMintPlansAction (planIds : List String) :
    Creator (Except Refusal (List (String × Except ArmProblem ArmedPlan))) := do
  match ← (ask (.requireFreshStepUp "execution:configure")).attempt with
  | .error _ => return .error .stepUp
  | .ok actor =>
    let ids := typedIds planIds
    if ids.length = 0 then return .error .noPlan
    else if ids.length > specialMintMaxWallets then return .error (.tooManyPlans ids.length)
    else
      let now ← ask .now
      return .ok (← armPlans actor now ids ⟨[], []⟩)

/-! ### The planner -/

/-- `MAX_ATTEMPTS_PER_STAGE`. -/
def maxAttemptsPerStage : ℕ := 2

/-- `AutoMintSummary`. -/
structure AutoMintSummary where
  enabled : Bool
  candidates : ℕ
  planned : ℕ
  skipped : ℕ
deriving DecidableEq

/-- A plan is created, armed and audited. -/
def planStage (policy : AutoMintPolicy) (owner walletId : String) (s : AutoMintCandidate)
    (ceilingWei : ℕ) (armMinutes : ℤ) : Creator Unit := do
  let id ← ask (.createMintPlan
    { projectId := s.projectId, walletId, stageId := some s.stageId, signerId := none
      quantity := some policy.quantity.toNat, perPlanCeilingWei := ceilingWei, fireAt := none })
  let armed ← ask (.armMintPlan id owner armMinutes)
  ask (.recordAudit ⟨owner, .automintPlanArmed, id, armed⟩)

/-- The stages for one wallet, while its budget lasts. -/
def planStages (policy : AutoMintPolicy) (owner : String) (nowMs : ℤ) (walletId : String) :
    List AutoMintCandidate → ℤ → AutoMintSummary → Creator AutoMintSummary
  | [], _, t => return t
  | s :: stages, budget, t =>
    if budget ≤ 0 then return t
    else
      match decideAutoMint policy s nowMs with
      | .skip _ => planStages policy owner nowMs walletId stages budget
          { t with skipped := t.skipped + 1 }
      | .plan ceilingWei armMinutes => do
        if ← ask (.blockingPlanExists walletId s.stageId) then
          planStages policy owner nowMs walletId stages budget t
        else if (← ask (.attemptsForStage walletId s.stageId)) ≥ maxAttemptsPerStage then
          planStages policy owner nowMs walletId stages budget { t with skipped := t.skipped + 1 }
        else
          planStage policy owner walletId s ceilingWei armMinutes
          planStages policy owner nowMs walletId stages (budget - 1)
            { t with planned := t.planned + 1 }

/-- The wallets, one after the other. -/
def planWallets (policy : AutoMintPolicy) (owner : String) (nowMs : ℤ)
    (stages : List AutoMintCandidate) : List String → AutoMintSummary → Creator AutoMintSummary
  | [], t => return t
  | walletId :: wallets, t => do
    let executedToday ← ask (.executedLast24h walletId)
    let t ← planStages policy owner nowMs walletId stages
      (policy.maxPerWalletPerDay - executedToday) t
    planWallets policy owner nowMs stages wallets t

/-- `runAutoMintPlanner`. -/
def runAutoMintPlanner : Creator AutoMintSummary := do
  match (← ask .loadPolicy).map parseAutoMintPolicy with
  | none => return ⟨false, 0, 0, 0⟩
  | some policy =>
    match policy.enabled, policy.ownerUserId with
    | true, some owner => do
      let wallets ← ask (.managedWalletsAmong policy.walletIds)
      if wallets.length = 0 then return ⟨true, 0, 0, 0⟩
      else
        let nowMs ← ask .now
        let stages ← ask (.autoMintCandidateStages policy.lookaheadHours)
        planWallets policy owner nowMs stages wallets ⟨true, stages.length, 0, 0⟩
    | _, _ => return ⟨false, 0, 0, 0⟩

/-! ### The gates -/

/-- The command is one of the gates': it reads no plan, no stage and no clock, and makes and arms
nothing. -/
def Cmd.Plain : Cmd → Prop
  | .now | .getDropStage _ | .autoMintCandidateStages _ | .getMintPlan _ | .createMintPlan _
  | .armMintPlan .. | .walletsWithLivePlanForStage .. | .blockingPlanExists .. => False
  | _ => True

abbrev Plain {α : Type} (p : Creator α) : Prop := p.Only (S := signature) Cmd.Plain

theorem plain_ask {c : Cmd} (h : c.Plain) : Plain (ask c) := Prog.Only.issue h

section

variable {caches : ArmCaches} {actor projectId stageId planId : String} {plan : MintPlan}
  {stage : Option StageRow}

theorem plain_refuseArm {problem : ArmProblem} : Plain (refuseArm actor planId problem) :=
  Prog.Only.bind (plain_ask trivial) fun _ => .pure _

theorem plain_specialMintEligibilityForStage :
    Plain (specialMintEligibilityForStage caches projectId stageId) := by
  rw [specialMintEligibilityForStage]
  split
  · exact .pure _
  · exact Prog.Only.bind (Prog.Only.attempt (plain_ask trivial)) fun _ => .pure _

theorem plain_specialMintMintedTotals : Plain (specialMintMintedTotals caches projectId) := by
  rw [specialMintMintedTotals]
  split
  · exact .pure _
  · exact Prog.Only.bind (Prog.Only.attempt (plain_ask trivial)) fun _ => .pure _

theorem plain_eligibilityGate : Plain (eligibilityGate caches plan stage) := by
  cases stage with
  | none => exact .pure _
  | some stage =>
    rw [eligibilityGate]
    split
    · exact .pure _
    · exact plain_specialMintEligibilityForStage.bind fun _ => .pure _

theorem plain_allowanceGate : Plain (allowanceGate caches actor plan stage) := by
  cases stage with
  | none => exact .pure _
  | some stage =>
    rw [allowanceGate]
    refine Prog.Only.bind (plain_ask trivial) fun caps => ?_
    split
    · exact .pure _
    · refine plain_specialMintMintedTotals.bind fun totals => ?_
      dsimp only
      split
      · exact .pure _
      · split
        · refine Prog.Only.bind (plain_ask trivial) fun stored => ?_
          split
          · exact .pure _
          · exact Prog.Only.bind (plain_ask trivial) fun _ => .pure _
        · exact .pure _

end

/-! ### A sample -/

namespace Sample

/-- A policy that looks ahead for a week. -/
def policy : PolicyInput where
  enabled := .bool true
  walletIds := .array ["11111111-1111-1111-1111-111111111111"]
  maxPriceWei := .text "0"
  publicOnly := .bool true
  maxRiskScore := .absent
  requireRiskSignal := .absent
  lookaheadHours := .number 168
  maxPerWalletPerDay := .number 1
  quantity := .number 1
  requireCuratedListing := .absent
  minHypeScore := .absent
  minUniqueMintersLive := .absent
  ownerUserId := .text "operator"

/-- A free public stage. -/
def candidate (projectId stageId : String) (startsAtMs : ℤ) : AutoMintCandidate where
  projectId
  projectName := "Drop"
  stageId
  stageKind := .publicSale
  priceWei := some 0
  startsAtMs
  endsAtMs := none
  paused := false
  riskScore := none
  hypeScore := none
  curated := true
  uniqueMinters1h := 0

/-- An environment in which one wallet can mint the stages. -/
def answer (stages : List AutoMintCandidate) : (c : Cmd) → Except Thrown c.Resp
  | .requireApi _ => .ok "operator"
  | .requireFreshStepUp _ => .ok "operator"
  | .now => .ok 0
  | .getDropStage _ => .ok none
  | .getSigner _ => .ok none
  | .getMintPlan _ => .ok none
  | .listEnabledWallets => .ok []
  | .stageWalletCaps _ => .ok []
  | .walletMintTotalsForProject _ => .ok []
  | .eligibilityForStage .. => .ok []
  | .walletsWithLivePlanForStage .. => .ok []
  | .loadPolicy => .ok (some policy)
  | .managedWalletsAmong walletIds => .ok walletIds
  | .autoMintCandidateStages _ => .ok stages
  | .executedLast24h _ => .ok 0
  | .blockingPlanExists .. => .ok false
  | .attemptsForStage .. => .ok 0
  | .checkArmFunding _ => .ok .checked
  | .createMintPlan _ => .ok "plan"
  | .setDraftMintPlanQuantity .. => .ok none
  | .armMintPlan .. => .ok true
  | .recordAudit _ => .ok ()

end Sample

end PlanCreators
