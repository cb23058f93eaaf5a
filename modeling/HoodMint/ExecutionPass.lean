/-
One pass of the fire path
(`apps/worker/src/workers/execution.ts`: `runMintExecutionPass`).

The pass claims a plan and carries it through a sequence of gates, each of which may end
it; a gate takes the rest of the pass as its last argument.  As in `ServerFire`, the
`try` block is cut where it sets what its `catch` reads.

* `idempotencyGate` — ask the chain about the newest recorded broadcast;
* `selfServedGate`, `precheckGate` — what the contract says of a public mint, and of
  the wallet's allowance;
* `calldata` — the transaction to mint with: self-served, cached, or built by OpenSea;
* `settleOutcome` — what follows each outcome of the pipeline;
* `rescuePass` — the `catch` block;
* `runMintExecutionPass`.
-/
import HoodMint.ServerFire

namespace MintWorker

open Effect

/-- `MintExecutionSummary`. -/
structure MintExecutionSummary where
  expired : ℕ
  claimed : Bool
  outcome : Option String
  planId : Option String
deriving DecidableEq

/-- Record a failed attempt, fail the plan and end the pass. -/
def failPass (plan : Plan) (errorCode outcome : String) : Worker String := do
  record plan { status := .failed, errorCode := some errorCode }
  failPlanAndNotify plan
  return outcome

/-- Record a failed attempt and end the pass, the plan left as it is. -/
def recordPass (plan : Plan) (outcome : String) : Worker String := do
  record plan { status := .failed, errorCode := some outcome }
  return outcome

/-! ### The idempotency gate -/

/-- `latestBroadcastAttempt`: the newest broadcast row, when it carries a hash. -/
def latestBroadcastAttempt (plan : Plan) : Worker (Option (String × ℤ)) := do
  match ← ask (.selectLatestBroadcast plan.id) with
  | some (some txHash, attemptAt) => return some (txHash, attemptAt)
  | _ => return none

/-- `PRIOR_BROADCAST_GRACE_MS`. -/
def priorBroadcastGraceMs : ℤ := 3000

def idempotencyGate (plan : Plan) (fireUrls : List String) (rest : Worker String) :
    Worker String := do
  match ← latestBroadcastAttempt plan with
  | none => rest
  | some (txHash, attemptAt) =>
    match ← resolveTxOutcome fireUrls txHash with
    | .success =>
      markMintPlanExecuted plan
      return "already_broadcast"
    | .unknown =>
      let nowMs ← ask .now
      if nowMs - attemptAt < priorBroadcastGraceMs then
        releaseMintPlanToArmed plan
        return "awaiting_prior_broadcast"
      else rest
    | .reverted => rest

/-! ### The signer -/

/-- The signer a plan fires with. -/
structure SignerChoice where
  scheme : SignerScheme
  ceilingWei : ℕ
  delegated : Option Signer

/-- Which signer an active row, or none, stands for. -/
def signerChoice (plan : Plan) (wallet : Wallet) (row : Option Signer) : SignerChoice :=
  let chosen : SignerChoice :=
    match row.filter fun s => s.status = .active with
    | some s =>
      ⟨s.scheme, s.onchainSpendCeilingWei.getD plan.perPlanCeilingWei,
        if s.scheme = .customExecutor then some s else none⟩
    | none => ⟨.browserWallet, plan.perPlanCeilingWei, none⟩
  if chosen.scheme = .browserWallet ∧ wallet.encryptedSigningKey ≠ none then
    { chosen with scheme := .managedWalletKey }
  else chosen

def resolveSigner (plan : Plan) (wallet : Wallet) : Worker SignerChoice :=
  match plan.signerId with
  | none => return signerChoice plan wallet none
  | some id => do
    let row ← ask (.selectSigner id)
    return signerChoice plan wallet row

/-! ### The self-served public mint -/

/-- `SELF_SERVED_MAX_HOLD_MS`. -/
def selfServedMaxHoldMs : ℤ := 15000

/-- A transaction the worker has built itself, until when to hold it, and the contract's
own start. -/
structure SelfServedFire where
  tx : Tx
  holdUntilMs : Option ℤ
  onChainStartMs : ℤ

/-- A built public mint, against the contract's own window. -/
def selfServedBuilt (config : Config) (plan : Plan) (tx : Tx) (onChainStartMs onChainEndMs : ℤ)
    (rest : Option SelfServedFire → Worker String) : Worker String := do
  let clockOffsetMs := (← ask .selectClockOffset).getD 0
  let openLocalMs := chainTimeToLocalMs onChainStartMs clockOffsetMs
  let closeLocalMs := chainTimeToLocalMs onChainEndMs clockOffsetMs
  let _ ← fireTargetMs plan
  let nowMs ← ask .now
  if closeLocalMs < nowMs then failPass plan "public_window_closed" "public_window_closed"
  else
    let sendAtMs := openLocalMs - config.mintFireLeadMs
    let nowMs ← ask .now
    if selfServedMaxHoldMs < sendAtMs - nowMs then
      releaseMintPlanToArmed plan
      return "self_served_not_open"
    else
      rest (some ⟨tx, if 0 < sendAtMs - nowMs then some sendAtMs else none, onChainStartMs⟩)

def selfServedGate (config : Config) (plan : Plan) (fireUrls : List String) (project : Project)
    (wallet : Wallet) (scheme : SignerScheme) (rest : Option SelfServedFire → Worker String) :
    Worker String := do
  let minterIfNotPayer := if scheme = .customExecutor then some wallet.address else none
  match ← ask (.buildSelfServedPublicMint fireUrls plan.stageId project.contractAddress
      wallet.address plan.quantity project.chainId minterIfNotPayer) with
  | .soldOut => failPass plan "minted_out: on-chain supply exhausted" "minted_out"
  | .allowanceExhausted =>
    failPass plan "allowance_exhausted: on-chain getMintStats" "allowance_exhausted"
  | .readFailed message =>
    record plan
      { status := .failed, errorCode := some (slice200 ("self_served_read_failed: " ++ message)) }
    rest none
  | .notSelfServable => rest none
  | .built tx onChainStartMs onChainEndMs requestedQuantity quantity =>
    if quantity < requestedQuantity then
      record plan
        { status := .failed
          errorCode := some s!"quantity_clamped: requested={requestedQuantity} using={quantity}" }
      selfServedBuilt config plan tx onChainStartMs onChainEndMs rest
    else selfServedBuilt config plan tx onChainStartMs onChainEndMs rest

/-! ### The allowance precheck -/

/-- The quantity to ask for, or the end of the pass.  `stats` is there only when they
were prefetched, and `none` inside when they could not be read. -/
def precheckGate (plan : Plan) (selfServed : Option SelfServedFire)
    (stats : Option (Option MintStats)) (rest : ℕ → Worker String) : Worker String :=
  match selfServed, stats with
  | none, some (some stats) => do
    let caps ← match plan.stageId with
      | none => pure []
      | some _ => ask (.stageCapsForProject plan.projectId)
    let cap := (caps.find? fun c => some c.1 = plan.stageId).bind Prod.snd
    match precheckAllowance plan.quantity cap stats with
    | .mintedOut => failPass plan "precheck_minted_out" "precheck_minted_out"
    | .allowanceExhausted cap =>
      failPass plan s!"precheck_allowance_exhausted: cap={cap}" "precheck_allowance_exhausted"
    | .ok quantity => rest quantity
  | _, _ => rest plan.quantity

/-! ### The calldata -/

/-- `CACHE_TTL_MS` of the pre-build pass. -/
def cacheTtlMs : ℤ := 300000

/-- The loop over ever smaller quantities: OpenSea's refusal for this wallet is retried
with one token less, down to one. -/
def buildDescending (build : ℕ → Worker Tx) : ℕ → Worker Tx
  | 0 => throw (.error "mint build failed at every quantity")
  | quantity + 1 => do
    match ← (build (quantity + 1)).attempt with
    | .ok tx => return tx
    | .error error =>
      if isPerWalletLimitError error.text = false ∨ quantity = 0 then throw error
      else buildDescending build quantity

/-- One build: a burst at the fire instant, a paced call otherwise. -/
def buildMintTx (config : Config) (nearFire : Bool) (deadline : ℤ) (target : MintTarget) :
    Worker Tx :=
  if nearFire then do
    let nowMs ← ask .now
    ask (.burstBuildOpenSeaMintTx target (max 0 (deadline - nowMs))
      config.mintSignatureBurstCadenceMs)
  else ask (.buildOpenSeaMintTx target)

/-- The cached transaction of the plan, when it may be used. -/
def freshCachedTx (plan : Plan) (nearFire : Bool) (nowMs : ℤ) : Option Tx :=
  match plan.cachedTxAt with
  | some cachedAt => if !nearFire && decide (nowMs - cachedAt < cacheTtlMs) then plan.cachedTx else none
  | none => none

def calldata (config : Config) (plan : Plan) (nearFire : Bool) (slug : String) (chainId : ℕ)
    (wallet : Wallet) (selfServed : Option SelfServedFire) (quantity : ℕ) : Worker Tx := do
  let nowMs ← ask .now
  match selfServed with
  | some selfServed => return selfServed.tx
  | none =>
    match freshCachedTx plan nearFire nowMs with
    | some tx => return tx
    | none =>
      let startMs ← ask .now
      buildDescending
        (fun quantity => buildMintTx config nearFire (startMs + config.mintSignatureBurstMs)
          { slug, chainId, minter := wallet.address, quantity })
        quantity

/-! ### The outcome of the pipeline -/

/-- Everything a fire is made with. -/
structure Fire where
  wallet : Wallet
  rpcUrl : String
  fireUrls : List String
  nearFire : Bool
  feesPrefetch : Option (Except Thrown FeeContext)
  signer : SignerChoice
  selfServed : Option SelfServedFire

/-- How the pass calls `runManagedFire`. -/
def Fire.mode (fire : Fire) : FireMode :=
  { nearFire := fire.nearFire, feesPrefetch := fire.feesPrefetch, fireUrls := fire.fireUrls
    holdUntilMs := fire.selfServed.bind SelfServedFire.holdUntilMs
    onChainStartMs := fire.selfServed.map SelfServedFire.onChainStartMs }

/-- The server-side signer of a fire. -/
def runServerFire (config : Config) (plan : Plan) (fire : Fire) (tx : Tx) : Worker Unit :=
  if fire.signer.scheme = .managedWalletKey then
    runManagedFire config plan tx fire.wallet fire.rpcUrl fire.mode
  else runDelegatedFire plan tx fire.signer.delegated fire.rpcUrl

def settleOutcome (config : Config) (plan : Plan) (fire : Fire) : PipelineOutcome → Worker Unit
  | .blockedSimulation revertReason => do
    record plan
      { status := .simulatedRevert, errorCode := some revertReason
        simulationResult := some { revertReason := some revertReason } }
    releaseMintPlanToArmed plan
  | .shadowWouldFire gasEstimate => do
    record plan
      { status := .simulatedOk
        simulationResult := some { gasEstimate := some gasEstimate, shadow := true } }
    releaseMintPlanToArmed plan
  | .blockedPolicy reason => do
    record plan { status := .failed, errorCode := some (slice200 reason) }
    failPlanAndNotify plan
  | .blockedSchemeNotImplemented error => do
    record plan { status := .failed, errorCode := some (slice200 error) }
    failPlanAndNotify plan
  | .readyForBrowserSignature signRequest => do
    record plan { status := .awaitingSignature, pendingTx := some signRequest }
    ask (.publishEvent "execution.awaiting_signature" plan.projectId)
  | .readyForDelegatedSignature tx _ => runServerFire config plan fire tx

/-- The simulation the pipeline is given. -/
def pipelineSimulate (config : Config) (fire : Fire) (tx : Tx) : Worker SimulateResult :=
  if fire.nearFire && config.mintFireSkipSimulation && fire.signer.scheme = .managedWalletKey then
    return .ok config.mintPresignGasLimit
  else ask (.simulateTransaction fire.rpcUrl fire.wallet.address tx)

/-- Pipeline, and what follows from its outcome. -/
def firePipeline (config : Config) (plan : Plan) (fire : Fire) (tx : Tx) : Worker String := do
  let outcome ← runExecutionPipeline
    { status := .armed, armedUntil := plan.armedUntil, signerCeilingWei := fire.signer.ceilingWei
      perPlanCeilingWei := plan.perPlanCeilingWei, spentWei := 0, txValueWei := tx.valueWei }
    fire.signer.scheme tx config.liveExecutionEnabled (pipelineSimulate config fire tx)
  settleOutcome config plan fire outcome
  return outcome.stage

/-! ### The pass -/

/-- Started before the gates: nonce and fees, and the contract's counters. -/
structure Prefetch where
  fees : Option (Except Thrown FeeContext)
  stats : Option (Option MintStats)

/-- Whose counters the pass reads: a contract and a minter. -/
abbrev StatsTarget := Option (String × String)

def statsTarget (project : Option Project) (wallet : Option Wallet) : StatsTarget := do
  let contract ← (← project).contractAddress
  return (contract, (← wallet).address)

/-- `readMintStats` with failover; `none` when no endpoint answers. -/
def readStats (urls : List String) (contract minter : String) : Worker (Option MintStats) := do
  match ← (withRpcFailover urls fun url => ask (.readMintStats url contract minter)).attempt with
  | .ok stats => return some stats
  | .error _ => return none

/-- The prefetches run beside the gates; their results are first looked at afterwards. -/
def prefetch (fireUrls : List String) (nearFire : Bool) (wallet : Option Wallet)
    (target : StatsTarget) : Worker Prefetch :=
  match wallet with
  | some { address, encryptedSigningKey := some _, .. } =>
    if nearFire then do
      let fees ← (withRpcFailover fireUrls fun url => ask (.fetchFeeContext url address)).attempt
      match target with
      | some (contract, minter) =>
        let stats ← readStats fireUrls contract minter
        return ⟨some fees, some stats⟩
      | none => return ⟨some fees, none⟩
    else return ⟨none, none⟩
  | _ => return ⟨none, none⟩

/-- After the idempotency gate: signer, transaction, pipeline. -/
def fireClaimed (config : Config) (plan : Plan) (fireUrls : List String) (rpcUrl : String)
    (nearFire : Bool) (pre : Prefetch) (project : Option Project) (wallet : Option Wallet) :
    Worker String :=
  match project, wallet with
  | some project, some wallet =>
    match project.slug with
    | none => recordPass plan "no_mint_adapter_for_project"
    | some slug => do
      let signer ← resolveSigner plan wallet
      selfServedGate config plan fireUrls project wallet signer.scheme fun selfServed =>
        precheckGate plan selfServed pre.stats fun quantity => do
          let tx ← calldata config plan nearFire slug project.chainId wallet selfServed quantity
          firePipeline config plan
            { wallet, rpcUrl, fireUrls, nearFire, feesPrefetch := pre.fees, signer, selfServed } tx
  | _, _ => recordPass plan "missing_project_or_wallet"

/-- The `try` block once endpoints, project and wallet are known. -/
def passBody (config : Config) (plan : Plan) (fireUrls : List String) (rpcUrl : String)
    (project : Option Project) (wallet : Option Wallet) : Worker String := do
  let nearFire ← isNearFireInstant plan
  let pre ← prefetch fireUrls nearFire wallet (statsTarget project wallet)
  idempotencyGate plan fireUrls
    (fireClaimed config plan fireUrls rpcUrl nearFire pre project wallet)

/-- A "minted out" answer is believed only when the contract, or else the clock, bears it
out. -/
def rescueMintedOut (plan : Plan) (fireUrlsSeen : List String) (target : StatsTarget)
    (message : String) : Worker String := do
  let targetMs ← fireTargetMs plan
  let supply ← match target with
    | some (contract, minter) =>
      if fireUrlsSeen = [] then pure none else readStats fireUrlsSeen contract minter
    | none => pure none
  let nowMs ← ask .now
  if mintedOutIsTerminal nowMs targetMs supply then
    failPass plan (slice200 ("minted_out: " ++ message)) "minted_out"
  else
    record plan
      { status := .failed, errorCode := some (slice200 ("minted_out_pre_open: " ++ message)) }
    releaseMintPlanToArmed plan
    return "minted_out_pre_open"

/-- The `catch` block of the pass. -/
def rescuePass (plan : Plan) (fireUrlsSeen : List String) (target : StatsTarget)
    (error : Thrown) : Worker String :=
  let message := if error.isError then error.message else "unknown_error"
  if isMintedOutError message then rescueMintedOut plan fireUrlsSeen target message
  else if isInsufficientFundsError message then
    failPass plan (slice200 ("insufficient_funds: " ++ message)) "insufficient_funds"
  else if isProvider4xx message && isPerWalletLimitError message then
    failPass plan (slice200 ("allowance_exhausted: " ++ message)) "allowance_exhausted"
  else if isProvider4xx message && isTerminalMintBuildError message then
    failPass plan (slice200 ("refused: " ++ message)) "refused"
  else do
    record plan { status := .failed, errorCode := some (slice200 message) }
    ignoreErrors (releaseMintPlanToArmed plan)
    return "error"

/-- Project and wallet of a plan. -/
def loadPlan (plan : Plan) : Worker (Option Project × Option Wallet) := do
  let project ← ask (.selectProject plan.projectId)
  let wallet ← ask (.selectWallet plan.walletId)
  return (project, wallet)

/-- The claimed plan, to its outcome. -/
def firePlan (config : Config) (plan : Plan) : Worker String := do
  match ← (resolveBroadcastRpcUrls config.robinhoodChainId config.rpcUrl).attempt with
  | .error error => rescuePass plan [] none error
  | .ok registryUrls =>
    match mintRpcUrls config registryUrls with
    | [] => tryCatch (recordPass plan "no_rpc_configured") (rescuePass plan [] none)
    | rpcUrl :: urls =>
      match ← (loadPlan plan).attempt with
      | .error error => rescuePass plan (rpcUrl :: urls) none error
      | .ok (project, wallet) =>
        tryCatch (passBody config plan (rpcUrl :: urls) rpcUrl project wallet)
          (rescuePass plan (rpcUrl :: urls) (statsTarget project wallet))

/-- `runMintExecutionPass`. -/
def runMintExecutionPass (config : Config) : Worker MintExecutionSummary := do
  let now ← ask .now
  let expired ← ask (.expireStaleMintPlans now)
  match ← ask (.claimArmedMintPlan now 30000 config.mintFireLeadMs) with
  | none => return ⟨expired, false, none, none⟩
  | some plan =>
    let outcome ← firePlan config plan
    return ⟨expired, true, some outcome, some plan.id⟩

/-! ### A sample -/

namespace Sample

def config : Config :=
  { robinhoodChainId := 4663, rpcUrl := some "rpc", alchemyRobinhoodRpc := none
    chainstackRobinhoodRpc := none, drpcRobinhoodRpc := none, liveExecutionEnabled := true
    mintFireLeadMs := 0, mintFireContinueMs := 5000, mintFireSkipSimulation := true
    mintPresignLeadMs := 45000, mintPresignTtlMs := 90000, mintPresignGasLimit := 300000
    mintSignatureBurstMs := 12000, mintSignatureBurstCadenceMs := 80 }

def tx : Tx := ⟨"seadrop", "mint", 1, 4663⟩

/-- A plan whose fire target lies a minute ahead of the sample's clock. -/
def plan : Plan :=
  { id := "p", projectId := "q", stageId := none, fireAt := some 60000, signerId := none
    walletId := "w", quantity := 1, perPlanCeilingWei := 10, armedUntil := some 120000
    cachedTx := none, cachedTxAt := none }

def wallet : Wallet := ⟨"w", "0xab", some "sealed"⟩

def signer : Signer := ⟨"s", .active, .customExecutor, none, some "executor", some "credential"⟩

/-- The managed-key fire of the plan, off the fire instant. -/
def fire : Fire :=
  { wallet, rpcUrl := "rpc", fireUrls := ["rpc"], nearFire := false, feesPrefetch := none
    signer := ⟨.managedWalletKey, 10, none⟩, selfServed := none }

/-- The blob pre-signed for the plan. -/
def blob : Presigned := ⟨some "raw", some "hash", some 5⟩

/-- An environment in which everything works, nothing is recorded and nothing has
mined.  Transactions are signed to `"raw"`. -/
def answer : (c : Cmd) → Except Thrown c.Resp
  | .now => .ok (0 : ℤ)
  | .sleep _ => .ok ()
  | .reserveNonce _ rpcNonce => .ok rpcNonce
  | .releaseNonce .. => .ok ()
  | .underfundedRecheckAt _ => .ok none
  | .setUnderfundedRecheckAt .. => .ok ()
  | .deleteUnderfundedRecheckAt _ => .ok ()
  | .expireStaleMintPlans _ => .ok (0 : ℕ)
  | .claimArmedMintPlan .. => .ok (some plan)
  | .listRpcEndpoints _ => .ok []
  | .selectProject _ => .ok (some ⟨none, some "slug", 4663⟩)
  | .selectWallet _ => .ok (some wallet)
  | .selectSigner _ => .ok (some signer)
  | .selectStageStart _ => .ok none
  | .selectClockOffset => .ok none
  | .stageCapsForProject _ => .ok []
  | .selectLatestBroadcast _ => .ok none
  | .countRevertedAttempts _ => .ok (0 : ℕ)
  | .selectPresigned _ => .ok none
  | .getCredentialSecret _ => .ok (some "session")
  | .armedManagedPlansForPresign _ => .ok []
  | .claimlessPlanProject _ => .ok (some "q")
  | .getWalletSigningKeySealed _ => .ok (some "sealed")
  | .recordExecutionAttempt .. => .ok ()
  | .savePresignedTx .. => .ok ()
  | .clearPresignedTx _ => .ok true
  | .recordWalletBalance .. => .ok ()
  | .releaseMintPlanToArmed .. => .ok true
  | .markMintPlanExecuted _ => .ok true
  | .failMintPlanExecution _ => .ok true
  | .publishEvent .. => .ok ()
  | .fetchFeeContext .. => .ok ⟨5, 2, 1⟩
  | .fetchNativeBalance .. => .ok (1000000 : ℕ)
  | .fetchErc20Funding .. => .ok ⟨0, 0, "token", 18⟩
  | .readMintStats .. => .ok ⟨0, 0, 0⟩
  | .getTransactionReceipt .. => .ok none
  | .simulateTransaction .. => .ok (.ok (100000 : ℕ))
  | .simulateExecuteMint .. => .ok (.ok (100000 : ℕ))
  | .broadcastRawTransaction .. => .ok "hash"
  | .raceRawTransaction .. => .ok (.ok "hash")
  | .buildSelfServedPublicMint .. => .ok .notSelfServable
  | .buildOpenSeaMintTx _ => .ok tx
  | .burstBuildOpenSeaMintTx .. => .ok tx
  | .openWalletKey _ => .ok "key"
  | .signManagedMintTransaction .. => .ok ⟨"raw", "hash"⟩
  | .operatorAddress _ => .ok "0xcd"
  | .signExecutorTransaction .. => .ok ⟨"raw", "hash"⟩

end Sample

end MintWorker
