/-
The two server-side signers of the fire path
(`apps/worker/src/workers/execution.ts`: `runDelegatedFire`, `runManagedFire`).

The source's `catch` blocks read variables the `try` block has set by then; here the
block is cut at each assignment, and every cut passes the value on to the handler.

* `runDelegatedFire` — the operator's key signs a call of the executor contract;
* `fireFast` — the pre-signed blob is raced to the endpoints; `discardBlob` is what
  happens when every endpoint rejects it;
* `fireLive` — simulate, reserve a nonce, sign, record, send, wait for the receipt;
* `runManagedFire` — the fast path when there is a blob and the instant is not near,
  the live path otherwise and after a blob has been discarded as stale.
-/
import HoodMint.MintRpc
import HoodMint.MintPolicy

namespace MintWorker

open Effect

/-! ### Shared steps -/

/-- `record`: one row of `execution_attempts`. -/
abbrev record (plan : Plan) (attempt : Attempt) : Worker Unit :=
  ask (.recordExecutionAttempt plan.id attempt)

/-- `releaseMintPlanToArmed(db, plan.id, new Date())`. -/
def releaseMintPlanToArmed (plan : Plan) : Worker Unit := do
  let now ← ask .now
  let _ ← ask (.releaseMintPlanToArmed plan.id now)

def markMintPlanExecuted (plan : Plan) : Worker Unit := do
  let _ ← ask (.markMintPlanExecuted plan.id)

def clearPresignedTx (plan : Plan) : Worker Unit := do
  let _ ← ask (.clearPresignedTx plan.id)

/-- `failPlanAndNotify`. -/
def failPlanAndNotify (plan : Plan) : Worker Unit := do
  let _ ← ask (.failMintPlanExecution plan.id)
  ask (.publishEvent "execution.failed" plan.projectId)

/-- `.catch(() => undefined)`. -/
def ignoreErrors (p : Worker Unit) : Worker Unit := do
  let _ ← p.attempt

/-- The error code a signer path records. -/
def Thrown.errorCode (fallback : String) (e : Thrown) : String :=
  match e.category with
  | some category => category
  | none => if e.isError then slice200 e.message else fallback

/-! ### The delegated path -/

/-- From the send on: record the hash, consume the plan, tell the clients. -/
def sendDelegated (plan : Plan) (rpcUrl rawTx : String) : Worker Unit := do
  let txHash ← ask (.broadcastRawTransaction rpcUrl rawTx)
  record plan { status := .broadcast, txHash := some txHash }
  markMintPlanExecuted plan
  ask (.publishEvent "execution.broadcast" plan.projectId)

/-- The `try` block of `runDelegatedFire`. -/
def fireDelegated (plan : Plan) (tx : Tx) (rpcUrl executorAddress credentialId : String) :
    Worker Unit := do
  match ← ask (.getCredentialSecret credentialId) with
  | none =>
    record plan { status := .failed, errorCode := some "session_key_credential_missing" }
    failPlanAndNotify plan
  | some sessionKeyHex =>
    let operator ← ask (.operatorAddress sessionKeyHex)
    match ← ask (.simulateExecuteMint rpcUrl operator executorAddress tx) with
    | .error revertReason =>
      record plan
        { status := .simulatedRevert, errorCode := some revertReason
          simulationResult := some { revertReason := some revertReason, delegated := true } }
      releaseMintPlanToArmed plan
    | .ok gasEstimate =>
      let fees ← ask (.fetchFeeContext rpcUrl operator)
      let signed ← ask (.signExecutorTransaction
        { executorAddress, inner := tx, nonce := fees.nonce
          maxFeePerGasWei := fees.maxFeePerGasWei
          maxPriorityFeePerGasWei := fees.maxPriorityFeePerGasWei
          gas := gasEstimate * 120 / 100 } sessionKeyHex)
      sendDelegated plan rpcUrl signed.rawTx

/-- The `catch` block of `runDelegatedFire`. -/
def rescueDelegated (plan : Plan) (error : Thrown) : Worker Unit := do
  record plan
    { status := .failed, errorCode := some (error.errorCode "unknown_delegated_signing_error") }
  releaseMintPlanToArmed plan

/-- `runDelegatedFire`. -/
def runDelegatedFire (plan : Plan) (tx : Tx) (signer : Option Signer) (rpcUrl : String) :
    Worker Unit :=
  match signer with
  | some { delegateContractAddress := some executorAddress,
           sessionKeyCredentialId := some credentialId, .. } =>
    tryCatch (fireDelegated plan tx rpcUrl executorAddress credentialId) (rescueDelegated plan)
  | _ => do
    record plan { status := .failed, errorCode := some "delegated_signer_misconfigured" }
    failPlanAndNotify plan

/-- What holds of a misconfigured fire, and of one with the signer's contract and credential, holds
of a delegated fire. -/
theorem runDelegatedFire_cases {P : Worker Unit → Prop} {plan : Plan} {tx : Tx}
    {signer : Option Signer} {rpcUrl : String}
    (hmisconfigured : P (do
      record plan { status := .failed, errorCode := some "delegated_signer_misconfigured" }
      failPlanAndNotify plan))
    (hfire : ∀ row executorAddress credentialId, signer = some row →
      row.delegateContractAddress = some executorAddress →
      row.sessionKeyCredentialId = some credentialId →
      P (tryCatch (fireDelegated plan tx rpcUrl executorAddress credentialId)
        (rescueDelegated plan))) :
    P (runDelegatedFire plan tx signer rpcUrl) := by
  rcases signer with _ | ⟨id, status, scheme, ceiling, _ | executorAddress, _ | credentialId⟩
  · exact hmisconfigured
  · exact hmisconfigured
  · exact hmisconfigured
  · exact hmisconfigured
  · exact hfire _ executorAddress credentialId rfl rfl rfl

/-! ### The managed-key path -/

/-- `mode`: how the pass calls `runManagedFire`. -/
structure FireMode where
  nearFire : Bool
  feesPrefetch : Option (Except Thrown FeeContext)
  fireUrls : List String
  holdUntilMs : Option ℤ
  onChainStartMs : Option ℤ

/-- `MAX_ONCHAIN_REVERTS`. -/
def maxOnchainReverts : ℕ := 3

/-- `Promise.any` over the endpoints; the most meaningful rejection is thrown. -/
def raceBroadcast (urls : List String) (rawTx : String) : Worker String := do
  match ← ask (.raceRawTransaction urls rawTx) with
  | .ok txHash => return txHash
  | .error errors => throw (pickBroadcastError errors)

/-- The transaction mined and reverted: compete on, unless it has reverted too often. -/
def settleReverted (plan : Plan) (errorCode : String) : Worker Unit := do
  record plan { status := .failed, errorCode := some errorCode }
  let reverts ← ask (.countRevertedAttempts plan.id)
  if reverts ≥ maxOnchainReverts then failPlanAndNotify plan
  else releaseMintPlanToArmed plan

/-- The transaction mined, or is taken to be in flight: the plan is consumed. -/
def settleExecuted (plan : Plan) : Worker Unit := do
  markMintPlanExecuted plan
  ask (.publishEvent "execution.broadcast" plan.projectId)

/-- The fast path after an endpoint has returned a hash. -/
def settleFast (plan : Plan) (rpcUrl txHash : String) : Worker Unit := do
  record plan { status := .broadcast, txHash := some txHash }
  clearPresignedTx plan
  match ← waitForMintReceipt rpcUrl txHash with
  | .reverted => settleReverted plan "reverted_onchain"
  | _ => settleExecuted plan

/-- The fast path's `catch` once a hash exists. -/
def rescueFast (plan : Plan) : Worker Unit := do
  ignoreErrors (clearPresignedTx plan)
  ignoreErrors (markMintPlanExecuted plan)

/-- Give a nonce back to the allocator, when there is one. -/
def releaseHeldNonce (wallet : Wallet) : Option ℕ → Worker Unit
  | some nonce => ask (.releaseNonce wallet.address nonce)
  | none => return ()

/-- What `discardBlob` learns of the blob's own transaction. -/
def presignedOutcome (fireUrls : List String) (fresh : Presigned) : Worker ReceiptOutcome :=
  match fresh.presignedTxHash with
  | some txHash => resolveTxOutcome fireUrls txHash
  | none => return .unknown

/-- The fast path's `catch` while no hash exists.  `true` ends the fire, `false` falls
through to the live path. -/
def discardBlob (plan : Plan) (wallet : Wallet) (mode : FireMode) (fresh : Presigned)
    (error : Thrown) : Worker Bool := do
  clearPresignedTx plan
  if isStalePresignError error.text = false then
    record plan { status := .failed, errorCode := some (slice200 error.text) }
    if isInsufficientFundsError error.text then failPlanAndNotify plan
    else releaseMintPlanToArmed plan
    return true
  else
    match ← presignedOutcome mode.fireUrls fresh with
    | .success =>
      record plan { status := .broadcast, txHash := fresh.presignedTxHash }
      markMintPlanExecuted plan
      return true
    | _ =>
      releaseHeldNonce wallet fresh.presignedNonce
      return false

/-- Where the blob is raced to. -/
def raceBlob (config : Config) (rpcUrl rawTx : String) : Worker String := do
  let urls ← resolveBroadcastRpcUrls config.robinhoodChainId (some rpcUrl)
  raceBroadcast (if urls = [] then [rpcUrl] else urls) rawTx

/-- The fast path; `false` falls through to the live path. -/
def fireFast (config : Config) (plan : Plan) (wallet : Wallet) (rpcUrl : String)
    (mode : FireMode) (fresh : Presigned) (rawTx : String) : Worker Bool := do
  match ← (raceBlob config rpcUrl rawTx).attempt with
  | .error error => discardBlob plan wallet mode fresh error
  | .ok txHash =>
    tryCatch (settleFast plan rpcUrl txHash) fun _ => rescueFast plan
    return true

/-- The simulation of the live path; skipped at the fire instant when so configured. -/
def simulateLive (config : Config) (tx : Tx) (wallet : Wallet) (rpcUrl : String)
    (mode : FireMode) : Worker SimulateResult :=
  if mode.nearFire && config.mintFireSkipSimulation then return .ok config.mintPresignGasLimit
  else ask (.simulateTransaction rpcUrl wallet.address tx)

/-- Nonce and fees of the live path: the prefetched ones, else fresh ones. -/
def feesLive (wallet : Wallet) (mode : FireMode) : Worker FeeContext :=
  match mode.feesPrefetch with
  | some (.ok fees) => return fees
  | _ => withRpcFailover mode.fireUrls fun url => ask (.fetchFeeContext url wallet.address)

/-- Simulation and fees, both asked for; `none` when the simulation reverted and the
plan has been released. -/
def prepareLive (config : Config) (plan : Plan) (tx : Tx) (wallet : Wallet) (rpcUrl : String)
    (mode : FireMode) : Worker (Option (ℕ × FeeContext)) := do
  let sim ← (simulateLive config tx wallet rpcUrl mode).attempt
  let fees ← (feesLive wallet mode).attempt
  match sim, fees with
  | .error error, _ => throw error
  | _, .error error => throw error
  | .ok (.error revertReason), .ok _ =>
    record plan
      { status := .simulatedRevert, errorCode := some revertReason
        simulationResult := some { revertReason := some revertReason, managed := true } }
    releaseMintPlanToArmed plan
    return none
  | .ok (.ok gasEstimate), .ok fees => return some (gasEstimate, fees)

/-- `signWithManagedKeySealed`. -/
def signWithManagedKeySealed (tx : ManagedTx) (encryptedSigningKey : String) : Worker Signed :=
  tryCatch (ask (.signManagedMintTransaction tx encryptedSigningKey)) fun _ =>
    throw (.error "managed_key_sign_failed: could not open or sign with the sealed wallet key")

/-- Hold a signed transaction for the contract's own open, at most 15 s. -/
def holdForOpen (holdUntilMs : Option ℤ) : Worker Unit :=
  match holdUntilMs with
  | none => return ()
  | some holdUntil => do
    let nowMs ← ask .now
    if 0 < holdUntil - nowMs then ask (.sleep (min (holdUntil - nowMs) 15000)) else return ()

/-- Sign at the reserved nonce, then hold. -/
def signLive (tx : Tx) (key : String) (mode : FireMode) (nonce gasEstimate : ℕ)
    (fees : FeeContext) : Worker Signed := do
  let signed ← signWithManagedKeySealed
    { tx, nonce, maxFeePerGasWei := fees.maxFeePerGasWei
      maxPriorityFeePerGasWei := fees.maxPriorityFeePerGasWei, gas := gasEstimate * 120 / 100 } key
  holdForOpen mode.holdUntilMs
  return signed

/-- Where a live transaction is raced to. -/
def liveUrls (config : Config) (rpcUrl : String) (mode : FireMode) : Worker (List String) :=
  if mode.fireUrls ≠ [] then return mode.fireUrls
  else resolveBroadcastRpcUrls config.robinhoodChainId (some rpcUrl)

/-- Record the hash, then race the signed transaction to the endpoints. -/
def sendLive (config : Config) (plan : Plan) (rpcUrl : String) (mode : FireMode)
    (signed : Signed) : Worker String := do
  record plan { status := .broadcast, txHash := some signed.txHash }
  let urls ← liveUrls config rpcUrl mode
  raceBroadcast (if urls = [] then [rpcUrl] else urls) signed.rawTx

/-- A revert before the contract's own start is an early arrival. -/
def revertCode (onChainStartMs : Option ℤ) : Worker String :=
  match onChainStartMs with
  | none => return "reverted_onchain"
  | some start => do
    let nowMs ← ask .now
    return if nowMs < start + 1000 then "reverted_early" else "reverted_onchain"

/-- The live path after an endpoint has returned a hash. -/
def settleLive (plan : Plan) (rpcUrl : String) (mode : FireMode) (txHash : String) :
    Worker Unit := do
  match ← waitForMintReceipt rpcUrl txHash with
  | .reverted => do
    let errorCode ← revertCode mode.onChainStartMs
    settleReverted plan errorCode
  | _ => settleExecuted plan

/-- The end of the live path's `catch`: nothing reached the wire. -/
def giveUpLive (plan : Plan) (wallet : Wallet) (signingNonce : Option ℕ) (error : Thrown) :
    Worker Unit := do
  releaseHeldNonce wallet signingNonce
  record plan
    { status := .failed, errorCode := some (error.errorCode "unknown_managed_signing_error") }
  if error.isError && isInsufficientFundsError error.message then failPlanAndNotify plan
  else releaseMintPlanToArmed plan

/-- The live path's `catch` while no endpoint has returned a hash. -/
def rescueLive (plan : Plan) (wallet : Wallet) (mode : FireMode) (signedTxHash : Option String)
    (signingNonce : Option ℕ) (error : Thrown) : Worker Unit :=
  match signedTxHash with
  | none => giveUpLive plan wallet signingNonce error
  | some txHash => do
    match ← resolveTxOutcome mode.fireUrls txHash with
    | .success => ignoreErrors (markMintPlanExecuted plan)
    | .unknown => releaseMintPlanToArmed plan
    | .reverted => giveUpLive plan wallet signingNonce error

/-- The live path. -/
def fireLive (config : Config) (plan : Plan) (tx : Tx) (wallet : Wallet) (key rpcUrl : String)
    (mode : FireMode) : Worker Unit := do
  match ← (prepareLive config plan tx wallet rpcUrl mode).attempt with
  | .error error => rescueLive plan wallet mode none none error
  | .ok none => return ()
  | .ok (some (gasEstimate, fees)) =>
    match ← (ask (.reserveNonce wallet.address fees.nonce)).attempt with
    | .error error => rescueLive plan wallet mode none none error
    | .ok nonce =>
      match ← (signLive tx key mode nonce gasEstimate fees).attempt with
      | .error error => rescueLive plan wallet mode none (some nonce) error
      | .ok signed =>
        match ← (sendLive config plan rpcUrl mode signed).attempt with
        | .error error => rescueLive plan wallet mode (some signed.txHash) (some nonce) error
        | .ok txHash =>
          tryCatch (settleLive plan rpcUrl mode txHash) fun _ =>
            ignoreErrors (markMintPlanExecuted plan)

/-- The blob the fast path is about: the instant is not near, and a raw transaction is
stored. -/
def blobToFire (mode : FireMode) (fresh : Option Presigned) : Option (Presigned × String) :=
  if mode.nearFire then none
  else do
    let row ← fresh
    let rawTx ← row.presignedRawTx
    if rawTx = "" then none else some (row, rawTx)

/-- The blob of the fast path is the one stored for the plan. -/
theorem of_blobToFire {mode : FireMode} {fresh : Option Presigned} {row : Presigned}
    {rawTx : String} (h : blobToFire mode fresh = some (row, rawTx)) :
    fresh = some row ∧ row.presignedRawTx = some rawTx := by
  rw [blobToFire] at h
  split at h
  · simp at h
  · obtain ⟨row', hrow, h⟩ := Option.bind_eq_some_iff.mp h
    obtain ⟨rawTx', hraw, h⟩ := Option.bind_eq_some_iff.mp h
    split at h
    · simp at h
    · obtain ⟨rfl, rfl⟩ := Prod.mk.inj (Option.some.inj h)
      exact ⟨hrow, hraw⟩

/-- `runManagedFire`. -/
def runManagedFire (config : Config) (plan : Plan) (tx : Tx) (wallet : Wallet) (rpcUrl : String)
    (mode : FireMode) : Worker Unit :=
  match wallet.encryptedSigningKey with
  | none => do
    record plan { status := .failed, errorCode := some "managed_key_missing" }
    failPlanAndNotify plan
  | some key => do
    let fresh ← ask (.selectPresigned plan.id)
    match blobToFire mode fresh with
    | some (row, rawTx) =>
      let done ← fireFast config plan wallet rpcUrl mode row rawTx
      if done then return () else fireLive config plan tx wallet key rpcUrl mode
    | none => fireLive config plan tx wallet key rpcUrl mode

end MintWorker
