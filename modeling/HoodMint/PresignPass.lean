/-
The pre-sign pass (`apps/worker/src/workers/execution.ts`: `runPresignPass`;
`packages/core/src/presign.ts`, `packages/core/src/funding.ts`).

* `decidePresign` — whether a plan's blob is to be signed, kept or left alone;
* `assessMintFunding` — whether the wallet can pay, with the message for the operator;
* `presignPlan` — one plan: decide, find the calldata, check ceiling and funding, reserve a
  nonce, sign, store the blob; whatever fails is caught;
* `runPresignPass` — all candidate plans, one after the other.
-/
import HoodMint.ExecutionPass

namespace MintWorker

open Effect

/-! ### The decision -/

/-- `PresignDecisionInput`. -/
structure PresignDecisionInput where
  stageStartChainMs : ℤ
  clockOffsetMs : ℤ
  localNowMs : ℤ
  leadMs : ℤ
  ttlMs : ℤ
  presignedAtMs : Option ℤ
  presignedNonce : Option ℕ
  currentNonce : Option ℕ
  continueForMs : ℤ

/-- Why a blob is signed. -/
inductive PresignReason | none | stale | nonceAdvanced
deriving DecidableEq

/-- `PresignDecision`. -/
inductive PresignDecision
  | wait (msUntilWindow : ℤ)
  | sign (reason : PresignReason)
  | keep
  | expired
deriving DecidableEq

/-- `decidePresign`. -/
def decidePresign (input : PresignDecisionInput) : PresignDecision :=
  let localStartMs := chainTimeToLocalMs input.stageStartChainMs input.clockOffsetMs
  let windowOpensAt := localStartMs - input.leadMs
  let now := input.localNowMs
  if localStartMs + input.continueForMs < now then .expired
  else if now < windowOpensAt then .wait (windowOpensAt - now)
  else match input.presignedAtMs, input.presignedNonce with
    | some presignedAtMs, some presignedNonce =>
      -- only the chain moving past the blob's nonce makes the blob dead
      if input.currentNonce.any fun currentNonce => presignedNonce < currentNonce then
        .sign .nonceAdvanced
      else if input.ttlMs < now - presignedAtMs then .sign .stale
      else .keep
    | _, _ => .sign .none

/-! ### Funding -/

/-- `isNativeCurrency`: no currency, or a placeholder address. -/
def isNativeCurrency (currency : Option String) : Bool :=
  match currency with
  | none => true
  | some currency =>
    let trimmed := ((currency.toList.dropWhile Char.isWhitespace).reverse.dropWhile
      Char.isWhitespace).reverse
    trimmed = [] ||
      trimmed.map Char.toLower = "0x0000000000000000000000000000000000000000".toList ||
      trimmed.map Char.toLower = "0xeeeeeeeeeeeeeeeeeeeeeeeeeeeeeeeeeeeeeeee".toList

/-- The token a stage is priced in, as `assessMintFunding` wants it. -/
structure Erc20Price where
  balance : ℕ
  required : ℕ
  allowance : ℕ
  symbol : String
  decimals : ℕ

/-- Why a mint cannot be paid for. -/
inductive Shortage | insufficientNative | insufficientErc20 | erc20Allowance
deriving DecidableEq

/-- `FundingVerdict`. -/
inductive FundingVerdict
  | ok (gasReserveWei requiredNativeWei : ℕ)
  | short (reason : Shortage) (requiredNativeWei shortfallWei : ℕ) (message : String)

/-- `formatUnitsShort`: whole tokens, with up to six decimals, truncated. -/
def formatUnitsShort (value decimals : ℕ) : String :=
  let digits := Nat.toDigits 10 value
  let raw := List.replicate (decimals + 1 - digits.length) '0' ++ digits
  let whole := raw.take (raw.length - decimals)
  let fraction := (((raw.drop (raw.length - decimals)).take 6).reverse.dropWhile (· = '0')).reverse
  String.ofList (if fraction = [] then whole else whole ++ '.' :: fraction)

/-- `assessMintFunding`. -/
def assessMintFunding (nativeBalanceWei valueWei gasLimit maxFeePerGasWei : ℕ)
    (erc20 : Option Erc20Price) : FundingVerdict :=
  let gasReserveWei := gasLimit * maxFeePerGasWei
  let requiredNativeWei := valueWei + gasReserveWei
  if nativeBalanceWei < requiredNativeWei then
    let shortfallWei := requiredNativeWei - nativeBalanceWei
    .short .insufficientNative requiredNativeWei shortfallWei
      ("insufficient_funds: wallet holds " ++ formatUnitsShort nativeBalanceWei 18 ++
        " ETH, needs " ++ formatUnitsShort requiredNativeWei 18 ++
        " ETH (mint " ++ formatUnitsShort valueWei 18 ++
        " + gas reserve " ++ formatUnitsShort gasReserveWei 18 ++
        ") — top up " ++ formatUnitsShort shortfallWei 18 ++ " ETH")
  else match erc20 with
    | none => .ok gasReserveWei requiredNativeWei
    | some price =>
      if price.balance < price.required then
        .short .insufficientErc20 requiredNativeWei (price.required - price.balance)
          ("insufficient_funds: wallet holds " ++ formatUnitsShort price.balance price.decimals ++
            " " ++ price.symbol ++ ", mint price needs " ++
            formatUnitsShort price.required price.decimals ++ " " ++ price.symbol ++
            " — top up " ++ formatUnitsShort (price.required - price.balance) price.decimals ++
            " " ++ price.symbol)
      else if price.allowance < price.required then
        .short .erc20Allowance requiredNativeWei (price.required - price.allowance)
          ("erc20_allowance: the mint contract may spend " ++
            formatUnitsShort price.allowance price.decimals ++ " " ++ price.symbol ++
            " but the price is " ++ formatUnitsShort price.required price.decimals ++ " " ++
            price.symbol ++ " — approve the SeaDrop contract from this wallet first")
      else .ok gasReserveWei requiredNativeWei

/-- The token's funding, when the stage is priced in one that can be read. -/
def readErc20Price (rpcUrl : String) (plan : PresignCandidate) (tx : Tx) :
    Worker (Option Erc20Price) :=
  match isNativeCurrency plan.stageCurrency, plan.stageCurrency, plan.stagePriceWei with
  | false, some currency, some priceWei => do
    match ← (ask (.fetchErc20Funding rpcUrl currency plan.walletAddress tx.toAddress)).attempt with
    | .ok f =>
      return some ⟨f.balance, priceWei * max 1 plan.quantity, f.allowance, f.symbol, f.decimals⟩
    | .error _ => return none
  | _, _, _ => return none

/-- `assessPresignFunding`. -/
def assessPresignFunding (config : Config) (rpcUrl : String) (plan : PresignCandidate) (tx : Tx)
    (maxFeePerGasWei : ℕ) : Worker FundingVerdict := do
  let nativeBalanceWei ← ask (.fetchNativeBalance rpcUrl plan.walletAddress)
  ignoreErrors (ask (.recordWalletBalance plan.walletId nativeBalanceWei))
  let erc20 ← readErc20Price rpcUrl plan tx
  return assessMintFunding nativeBalanceWei tx.valueWei config.mintPresignGasLimit maxFeePerGasWei
    erc20

/-! ### One plan -/

/-- `UNDERFUNDED_RECHECK_MS`. -/
def underfundedRecheckMs : ℤ := 15000

/-- What `decidePresign` is asked about a candidate. -/
def PresignCandidate.decision (plan : PresignCandidate) (config : Config)
    (localNowMs clockOffsetMs : ℤ) (currentNonce : Option ℕ) : PresignDecision :=
  decidePresign
    { stageStartChainMs := plan.stageStartMs, clockOffsetMs, localNowMs
      leadMs := config.mintPresignLeadMs, ttlMs := config.mintPresignTtlMs
      presignedAtMs := plan.presignedAt, presignedNonce := plan.presignedNonce, currentNonce
      continueForMs := config.mintFireContinueMs }

/-- The cached transaction of a candidate, while it is fresh. -/
def freshPresignTx (plan : PresignCandidate) : Worker (Option Tx) :=
  match plan.cachedTx, plan.cachedTxAt with
  | some tx, some cachedTxAt => do
    let nowMs ← ask .now
    return if nowMs - cachedTxAt < cacheTtlMs then some tx else none
  | _, _ => return none

/-- The cached transaction, else one built by OpenSea; `none` skips the plan. -/
def presignCalldata (plan : PresignCandidate) : Option Tx → Worker (Option Tx)
  | some tx => return some tx
  | none => do
    let projectId ← ask (.claimlessPlanProject plan.planId)
    match ← ask (.selectProject (projectId.getD "")) with
    | some { slug := some slug, chainId, .. } =>
      let tx ← ask (.buildOpenSeaMintTx
        { slug, chainId, minter := plan.walletAddress, quantity := plan.quantity })
      return some tx
    | _ => return none

/-- Reserve a nonce, sign at it, and store the blob. -/
def signPresign (config : Config) (plan : PresignCandidate) (tx : Tx) (fees : FeeContext)
    (key : String) : Worker Unit := do
  let presignNonce ← ask (.reserveNonce plan.walletAddress fees.nonce)
  let signed ← ask (.signManagedMintTransaction
    { tx, nonce := presignNonce, maxFeePerGasWei := fees.maxFeePerGasWei
      maxPriorityFeePerGasWei := fees.maxPriorityFeePerGasWei
      gas := config.mintPresignGasLimit } key)
  ask (.savePresignedTx plan.planId signed.rawTx presignNonce signed.txHash)

/-- The funding gate, and the key. -/
def fundPresign (config : Config) (rpcUrl : String) (localNowMs : ℤ) (plan : PresignCandidate)
    (tx : Tx) (fees : FeeContext) : Worker Unit := do
  match ← assessPresignFunding config rpcUrl plan tx fees.maxFeePerGasWei with
  | .short _ _ _ message =>
    ask (.setUnderfundedRecheckAt plan.planId (localNowMs + underfundedRecheckMs))
    ask (.recordExecutionAttempt plan.planId
      { status := .failed, errorCode := some (slice200 message) })
  | .ok .. =>
    ask (.deleteUnderfundedRecheckAt plan.planId)
    match ← ask (.getWalletSigningKeySealed plan.walletId) with
    | none => return ()
    | some sealed =>
      let key ← ask (.openWalletKey sealed)
      signPresign config plan tx fees key

/-- The `try` block of the loop. -/
def presignClaimed (config : Config) (rpcUrl : String) (localNowMs clockOffsetMs : ℤ)
    (plan : PresignCandidate) (cached : Option Tx) : Worker Unit := do
  let fees ← ask (.fetchFeeContext rpcUrl plan.walletAddress)
  match plan.decision config localNowMs clockOffsetMs (some fees.nonce) with
  | .sign _ =>
    match ← presignCalldata plan cached with
    | none => return ()
    | some tx =>
      if plan.perPlanCeilingWei < tx.valueWei then return ()
      else fundPresign config rpcUrl localNowMs plan tx fees
  | _ => return ()

/-- One turn of the loop. -/
def presignPlan (config : Config) (rpcUrl : String) (localNowMs clockOffsetMs : ℤ)
    (plan : PresignCandidate) : Worker Unit :=
  match plan.decision config localNowMs clockOffsetMs none with
  | .wait _ => return ()
  | .expired => return ()
  | _ => do
    let recheckAt ← ask (.underfundedRecheckAt plan.planId)
    if localNowMs < recheckAt.getD 0 then return ()
    else
      let cached ← freshPresignTx plan
      tryCatch (presignClaimed config rpcUrl localNowMs clockOffsetMs plan cached) fun _ =>
        return ()

/-- The loop of `runPresignPass`. -/
def presignPlans (config : Config) (rpcUrl : String) (localNowMs clockOffsetMs : ℤ) :
    List PresignCandidate → Worker Unit
  | [] => return ()
  | plan :: plans => do
    presignPlan config rpcUrl localNowMs clockOffsetMs plan
    presignPlans config rpcUrl localNowMs clockOffsetMs plans

/-- `runPresignPass`. -/
def runPresignPass (config : Config) (localNowMs clockOffsetMs : ℤ) : Worker Unit :=
  if config.liveExecutionEnabled = false then return ()
  else do
    let candidates ← ask (.armedManagedPlansForPresign localNowMs)
    if candidates = [] then return ()
    else
      match ← resolveBestRpcUrl config.robinhoodChainId config.rpcUrl with
      | none => return ()
      | some rpcUrl =>
        if rpcUrl = "" then return ()
        else presignPlans config rpcUrl localNowMs clockOffsetMs candidates

end MintWorker
