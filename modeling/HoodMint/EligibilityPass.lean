/-
The eligibility pass (`runEligibilityPass` of `apps/worker/src/workers/eligibility.ts`).

* `Cmd`, `Cmd.Resp` — what it asks of the database and of OpenSea;
* `judgePair` — one answer of the eligibility endpoint, stage by stage: the verdicts that are
  stored, the hits that are alerted, and the checks whose stage was not returned;
* `recover` — what is stored instead when the endpoint, or anything after it, fails;
* `runEligibilityPass` — the due checks, one call for each wallet and project.

Instants and delays are in milliseconds.  Metrics, logs and what the pass answers are left out:
its one caller drops the answer.  Of an alert the rendering is left out, of a due check the columns
that the pass does not read.
-/
import HoodMint.DedupeKeys
import HoodMint.DropPayloads
import HoodMint.Eligibility
import HoodMint.Lib.Effect
import HoodMint.ProviderFetch

namespace EligibilityEngine

open Effect Eligibility Projects
open ProviderHttp (ErrorCategory)

/-! ### Data -/

/-- An `AppError`, or anything else. -/
inductive Thrown
  | app (category : ErrorCategory) (retryAfterSeconds : Option ℤ)
  | other
deriving DecidableEq

def Thrown.errorCode : Thrown → String
  | app category _ => category.name
  | other => "unknown"

/-- What the pass reads of the configuration. -/
structure Config where
  openseaPerMinuteLimit : ℕ
  openseaPatWalletAddress : Option String

/-- A row of `listWallets`. -/
structure TrackedWallet extends WalletRow where
  label : Option String
deriving DecidableEq

/-- `DueCheck`. -/
structure DueCheck where
  walletId : String
  projectId : String
  projectSlug : Option String
  stageId : String
  stageStartsAt : ℤ
  currentStatus : EligibilityState
  lifecycle : LifecycleStatus
deriving DecidableEq

def DueCheck.currentlyEligible (check : DueCheck) : Bool :=
  check.currentStatus = .eligibleRestricted

/-- A stage of an answer of the eligibility endpoint (`eligibilityStageSchema`). -/
structure EligibilityStage where
  stageUuid : String
  isEligible : Bool
  maxTotalMintableByWallet : Option ℕ
  price : Option String
deriving DecidableEq

/-- `EligibilityUpsert`; no caller gives an evidence id, or no instant to check again at. -/
structure EligibilityUpsert where
  walletId : String
  projectId : String
  stageId : String
  status : EligibilityState
  maxMintable : Option ℕ
  priceWei : Option String
  errorCode : Option String
  checkedAt : ℤ
  nextDueAt : ℤ
deriving DecidableEq

/-- `AlertRenderInput`, and the instant it is rendered for. -/
structure AlertRenderInput where
  alertType : String
  thresholdMinutes : ℕ
  projectName : String
  projectSlug : Option String
  openseaUrl : Option String
  stageLabel : String
  stagePriceDisplay : Option String
  maxPerWallet : Option ℕ
  walletLabel : Option String
  walletAddress : String
  startsAt : Option ℤ
  endsAt : Option ℤ
  now : ℤ
deriving DecidableEq

/-- `EnqueueAlertInput`. -/
structure AlertInput where
  dedupeKey : String
  alertType : String
  walletId : String
  projectId : String
  stageId : String
  thresholdMinutes : ℕ
  payload : AlertRenderInput
deriving DecidableEq

/-! ### Commands -/

inductive Cmd
  | now
  | resolveOpenSeaKey
  | dueEligibilityChecks (now : ℤ) (limit : ℕ)
  | getWalletJwt
  | listWallets
  | getEligibility (slug jwt : String)
  | stagesOf (projectId : String)
  | upsertEligibilityCheck (input : EligibilityUpsert)
  | enqueueAlert (input : AlertInput)
  | publishUpdated (projectId : String) (instant : ℤ)

/-- The answer to each command. -/
abbrev Cmd.Resp : Cmd → Type
  | .now => ℤ
  | .resolveOpenSeaKey => List String
  | .dueEligibilityChecks .. => List DueCheck
  | .getWalletJwt => Option String
  | .listWallets => List TrackedWallet
  | .getEligibility .. => List EligibilityStage
  | .stagesOf _ => List StageRow
  | .upsertEligibilityCheck _ => Unit
  | .enqueueAlert _ => Unit
  | .publishUpdated .. => Unit

abbrev signature : Signature := ⟨Cmd, Cmd.Resp⟩

abbrev Engine (α : Type) := Prog signature Thrown α

/-- Issue a command. -/
abbrev ask (c : Cmd) : Engine c.Resp := Prog.issue (S := signature) c

/-! ### Verdicts -/

section

variable (rows : List StageRow) (stage : EligibilityStage)

/-- The row of a returned stage: of several in one spelling the map keeps the last. -/
def stageRow? : Option StageRow :=
  rows.reverse.find? fun s => normalizeStageId s.providerStageId = normalizeStageId stage.stageUuid

/-- What a returned stage says to `classifyEligibility`. -/
def checkResult : EligibilityCheckResult :=
  match stageRow? rows stage with
  | none => ⟨String.ofList (stage.stageUuid.toList.take 8), .unknown, .unknown⟩
  | some known =>
    ⟨known.label, known.type,
      if known.type ≠ .publicSale then .restricted stage.isEligible else .publicStage⟩

/-- The stage is among those returned. -/
def isReturned (parsed : List EligibilityStage) (s : StageRow) : Bool :=
  parsed.any fun stage => normalizeStageId stage.stageUuid = normalizeStageId s.providerStageId

end

/-- The verdict on one stage; the answer speaks for one wallet only. -/
def stageVerdict (kind : StageKind) (speaks eligible : Bool) : EligibilityState :=
  if kind = .publicSale then .publicOnly
  else if ¬ speaks then .authRequired
  else if eligible then .eligibleRestricted
  else .ineligibleRestricted

/-- `retryDelayMs`. -/
def retryDelayMs (check : DueCheck) (verdict : EligibilityState) (now : ℤ) : ℤ :=
  let lifecycle := if check.lifecycle = .live ∨ check.lifecycle = .next ∨
    check.lifecycle = .unknown then check.lifecycle else .unknown
  (eligibilityRetryDelayMs [⟨"stage", .allowlist, check.stageStartsAt, none, false⟩] lifecycle now
    (verdict = .eligibleRestricted || check.currentlyEligible)).getD (30 * 60 * 1000)

/-- The verdict on a whole answer: some returned stage is a restricted one that it calls
eligible. -/
theorem classify_eligible_iff {rows : List StageRow} {parsed : List EligibilityStage} :
    classifyEligibility (parsed.map (checkResult rows)) true = .eligibleRestricted ↔
      ∃ stage ∈ parsed, ∃ row, stageRow? rows stage = some row ∧ row.type ≠ .publicSale ∧
        stage.isEligible = true := by
  rw [classifyEligibility_eq_eligible_iff]
  constructor
  · rintro ⟨c, hc, houtcome⟩
    obtain ⟨stage, hstage, rfl⟩ := List.mem_map.mp hc
    rw [checkResult] at houtcome
    cases hrow : stageRow? rows stage with
    | none =>
      rw [hrow] at houtcome
      cases houtcome
    | some row =>
      rw [hrow] at houtcome
      by_cases hkind : row.type = .publicSale
      · simp [hkind] at houtcome
      · exact ⟨stage, hstage, row, hrow, hkind, by simpa [hkind] using houtcome⟩
  · rintro ⟨stage, hstage, row, hrow, hkind, heligible⟩
    refine ⟨_, List.mem_map_of_mem hstage, ?_⟩
    rw [checkResult, hrow]
    simp [hkind, heligible]

/-- **The delay of a check** goes by its start, and by whether it or its project is eligible. -/
theorem retryDelayMs_eq (check : DueCheck) (verdict : EligibilityState) (now : ℤ) :
    retryDelayMs check verdict now = recheckDelay check.stageStartsAt now
      (verdict = .eligibleRestricted || check.currentlyEligible) := by
  rw [retryDelayMs, eligibilityRetryDelayMs_single]
  · rfl
  · split
    · rename_i h
      rcases h with h | h | h <;> simp [h]
    · simp
  · split
    · rename_i h
      rcases h with h | h | h <;> simp [h]
    · simp

/-- The wallet the token speaks for. -/
def speaksForThisWallet (config : Config) (wallet : Option TrackedWallet) : Bool :=
  match config.openseaPatWalletAddress, wallet with
  | some patAddress, some wallet => Text.lower wallet.address = Text.lower patAddress
  | _, _ => false

/-! ### One wallet and project -/

/-- What is known of a pair once the endpoint has answered. -/
structure Judgement where
  first : DueCheck
  slug : String
  rows : List StageRow
  verdict : EligibilityState
  wallet : Option TrackedWallet
  speaks : Bool

section

variable (j : Judgement)

/-- A hit on a stage is alerted. -/
def alertHit (stage : EligibilityStage) (row : StageRow) : Engine Unit := do
  let nowMs ← ask .now
  ask (.enqueueAlert
    { dedupeKey := Notifications.keyText
        ["default", j.first.walletId, j.first.projectId, row.id, "restricted_eligible", "0"]
      alertType := "restricted_eligible"
      walletId := j.first.walletId
      projectId := j.first.projectId
      stageId := row.id
      thresholdMinutes := 0
      payload :=
        { alertType := "restricted_eligible"
          thresholdMinutes := 0
          projectName := j.slug
          projectSlug := some j.slug
          openseaUrl := none
          stageLabel := row.label
          stagePriceDisplay := stage.price
          maxPerWallet := stage.maxTotalMintableByWallet.or row.maxPerWallet
          walletLabel := j.wallet.bind (·.label)
          walletAddress := j.wallet.elim "" (·.address)
          startsAt := some row.startsAt
          endsAt := row.endsAt
          now := nowMs } })

/-- The returned stage is a hit. -/
def isHit (stage : EligibilityStage) (row : StageRow) : Bool :=
  row.type ≠ .publicSale && stage.isEligible && j.speaks

/-- One returned stage. -/
def judgeStage (stage : EligibilityStage) : Engine Unit := do
  match stageRow? j.rows stage with
  | none => return ()
  | some row => do
    let checkedAt ← ask .now
    let base ← ask .now
    let isoNow ← ask .now
    ask (.upsertEligibilityCheck
      { walletId := j.first.walletId
        projectId := j.first.projectId
        stageId := row.id
        status := stageVerdict row.type j.speaks stage.isEligible
        maxMintable := stage.maxTotalMintableByWallet
        priceWei := stage.price
        errorCode := none
        checkedAt
        nextDueAt := base + retryDelayMs j.first j.verdict isoNow })
    if isHit j stage row then alertHit j stage row else return ()

/-- The returned stages, one after the other. -/
def judgeStages : List EligibilityStage → Engine Unit
  | [] => return ()
  | stage :: stages => do
    judgeStage j stage
    judgeStages stages

end

/-- What is written for checks that no verdict is known for. -/
structure Rewrite where
  status : DueCheck → EligibilityState
  errorCode : Option String
  delayMs : ℤ

/-- Due checks are written again, one after the other. -/
def rewriteAll (w : Rewrite) : List DueCheck → Engine Unit
  | [] => return ()
  | check :: checks => do
    let checkedAt ← ask .now
    let base ← ask .now
    ask (.upsertEligibilityCheck
      { walletId := check.walletId
        projectId := check.projectId
        stageId := check.stageId
        status := w.status check
        maxMintable := none
        priceWei := none
        errorCode := w.errorCode
        checkedAt
        nextDueAt := base + w.delayMs })
    rewriteAll w checks

/-- The stage of the check is known, and was not returned. -/
def isParked (rows : List StageRow) (parsed : List EligibilityStage) (check : DueCheck) : Bool :=
  (rows.find? fun s => s.id = check.stageId).elim false fun row => ! isReturned parsed row

/-- The starvation guard: not before six hours. -/
def parked : Rewrite := ⟨fun _ => .unknown, some "stage_not_returned", 6 * 60 * 60 * 1000⟩

/-- The eligibility call of a wallet and a project, and all that follows from its answer. -/
def judgePair (config : Config) (jwt : String) (wallets : List TrackedWallet) (slug : String)
    (first : DueCheck) (checks : List DueCheck) : Engine Unit := do
  let parsed ← ask (.getEligibility slug jwt)
  let rows ← ask (.stagesOf first.projectId)
  let wallet := wallets.reverse.find? fun w => w.id = first.walletId
  judgeStages
    { first, slug, rows
      verdict := classifyEligibility (parsed.map (checkResult rows)) true
      wallet
      speaks := speaksForThisWallet config wallet } parsed
  rewriteAll parked (checks.filter (isParked rows parsed))
  let nowMs ← ask .now
  ask (.publishUpdated first.projectId nowMs)

/-- A verdict that a transient failure leaves alone. -/
def isResolved (status : EligibilityState) : Bool :=
  status = .eligibleRestricted ∨ status = .ineligibleRestricted ∨ status = .publicOnly

/-- How a failure is taken. -/
inductive Treatment
  | notFound
  | transient (retryAfterMs : ℤ)
  | failed (errorCode : String)
deriving DecidableEq

def Thrown.treatment : Thrown → Treatment
  | .app .notFound _ => .notFound
  | .app .rateLimited retryAfterSeconds | .app .authRequired retryAfterSeconds =>
    .transient (retryAfterSeconds.elim (5 * 60 * 1000) fun s => max (5 * 60 * 1000) (s * 1000))
  | error => .failed error.errorCode

/-- What is written then for the due checks. -/
def Treatment.rewrite : Treatment → Rewrite
  | notFound => ⟨fun _ => .unknown, some "NotFound", 6 * 60 * 60 * 1000⟩
  | transient retryAfterMs =>
    ⟨fun check => if isResolved check.currentStatus then check.currentStatus else .authRequired,
      none, retryAfterMs⟩
  | failed errorCode => ⟨fun _ => .error, some errorCode, 30 * 60 * 1000⟩

/-- The failure ends the pass. -/
def Treatment.stops : Treatment → Bool
  | transient _ => true
  | _ => false

/-- The `catch` branch. -/
def recover (checks : List DueCheck) (error : Thrown) : Engine Unit := do
  rewriteAll error.treatment.rewrite checks
  if error.treatment.stops then throw error

/-- The checks of one wallet and project. -/
def checkPair (config : Config) (jwt : String) (wallets : List TrackedWallet)
    (checks : List DueCheck) : Engine Unit :=
  match checks with
  | [] => return ()
  | first :: _ =>
    match first.projectSlug with
    | none => return ()
    | some slug =>
      tryCatch (judgePair config jwt wallets slug first checks) (recover checks)

/-! ### The pass -/

def DueCheck.pairKey (check : DueCheck) : String := check.walletId ++ ":" ++ check.projectId

/-- The checks of each wallet and project, in the order in which these are first met. -/
def byPair (due : List DueCheck) : List (List DueCheck) :=
  (due.map DueCheck.pairKey).eraseDups.map fun key => due.filter fun check => check.pairKey = key

def checkPairs (config : Config) (jwt : String) (wallets : List TrackedWallet) :
    List (List DueCheck) → Engine Unit
  | [] => return ()
  | checks :: pairs => do
    checkPair config jwt wallets checks
    checkPairs config jwt wallets pairs

/-- How many checks a pass takes. -/
def perPass (config : Config) (limit : Option ℕ) (apiKeys : List String) : ℕ :=
  limit.getD (min (max 1 apiKeys.length * (config.openseaPerMinuteLimit / 2)) 200)

/-- Without a token nothing is claimed. -/
def unauthorised : Rewrite := ⟨fun _ => .authRequired, none, 30 * 60 * 1000⟩

/-- `runEligibilityPass`. -/
def runEligibilityPass (config : Config) (limit : Option ℕ) : Engine Unit := do
  let apiKeys ← ask .resolveOpenSeaKey
  let nowMs ← ask .now
  let due ← ask (.dueEligibilityChecks nowMs (perPass config limit apiKeys))
  if due = [] then return ()
  match ← ask .getWalletJwt with
  | none => rewriteAll unauthorised due
  | some jwt => do
    let wallets ← ask .listWallets
    checkPairs config jwt wallets (byPair due)

end EligibilityEngine
