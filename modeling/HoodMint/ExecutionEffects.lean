/-
The commands of the mint worker: what its passes ask of the database, the RPC
endpoints, the mint providers, the signing package and the nonce allocator
(`apps/worker/src/workers/execution.ts` and the modules it imports).

A pass is a program over these commands (`HoodMint.Lib.Effect`).  A rejected promise is
a failing answer with a `Thrown`.  Amounts in wei are numbers here, where the source
carries their decimal strings.
-/
import HoodMint.Lib.Effect
import HoodMint.MintErrors

namespace MintWorker

/-! ### Data -/

/-- The worker's configuration, as far as the passes read it. -/
structure Config where
  robinhoodChainId : ℕ
  rpcUrl : Option String
  alchemyRobinhoodRpc : Option String
  chainstackRobinhoodRpc : Option String
  drpcRobinhoodRpc : Option String
  liveExecutionEnabled : Bool
  mintFireLeadMs : ℤ
  mintFireContinueMs : ℤ
  mintFireSkipSimulation : Bool
  mintPresignLeadMs : ℤ
  mintPresignTtlMs : ℤ
  mintPresignGasLimit : ℕ
  mintSignatureBurstMs : ℤ
  mintSignatureBurstCadenceMs : ℤ

/-- An unsigned transaction. -/
structure Tx where
  toAddress : String
  data : String
  valueWei : ℕ
  chainId : ℕ
deriving DecidableEq

/-- A claimed row of `mint_plans`. -/
structure Plan where
  id : String
  projectId : String
  stageId : Option String
  fireAt : Option ℤ
  signerId : Option String
  walletId : String
  quantity : ℕ
  perPlanCeilingWei : ℕ
  armedUntil : Option ℤ
  cachedTx : Option Tx
  cachedTxAt : Option ℤ
deriving DecidableEq

structure Project where
  contractAddress : Option String
  slug : Option String
  chainId : ℕ
deriving DecidableEq

structure Wallet where
  id : String
  address : String
  encryptedSigningKey : Option String
deriving DecidableEq

inductive SignerStatus | pending | active | revoked
deriving DecidableEq

/-- `SIGNER_SCHEMES`. -/
inductive SignerScheme | browserWallet | eip7702SafeZodiac | customExecutor | managedWalletKey
deriving DecidableEq

structure Signer where
  id : String
  status : SignerStatus
  scheme : SignerScheme
  onchainSpendCeilingWei : Option ℕ
  delegateContractAddress : Option String
  sessionKeyCredentialId : Option String
deriving DecidableEq

/-- The pre-signed blob of a plan row. -/
structure Presigned where
  presignedRawTx : Option String
  presignedTxHash : Option String
  presignedNonce : Option ℕ
deriving DecidableEq

inductive HealthStatus | healthy | unknown | degraded | down
deriving DecidableEq

/-- A row of `rpc_endpoints`. -/
structure RpcEndpoint where
  chainId : ℕ
  enabled : Bool
  priority : ℤ
  healthStatus : HealthStatus
  httpUrl : String
deriving DecidableEq

/-- The statuses a pass records. -/
inductive AttemptStatus | failed | simulatedOk | simulatedRevert | broadcast | awaitingSignature
deriving DecidableEq

structure SimulationResult where
  revertReason : Option String := none
  gasEstimate : Option ℕ := none
  shadow : Bool := false
  managed : Bool := false
  delegated : Bool := false
deriving DecidableEq

/-- A row of `execution_attempts` as a pass inserts it. -/
structure Attempt where
  status : AttemptStatus
  errorCode : Option String := none
  simulationResult : Option SimulationResult := none
  pendingTx : Option Tx := none
  txHash : Option String := none
deriving DecidableEq

structure FeeContext where
  nonce : ℕ
  maxFeePerGasWei : ℕ
  maxPriorityFeePerGasWei : ℕ
deriving DecidableEq

structure MintStats where
  minterNumMinted : ℕ
  currentTotalSupply : ℕ
  maxSupply : ℕ
deriving DecidableEq

/-- `receipt.status`. -/
inductive ReceiptStatus | success | reverted
deriving DecidableEq

/-- `ReceiptOutcome`. -/
inductive ReceiptOutcome | success | reverted | unknown
deriving DecidableEq

/-- `{ ok: true, gasEstimate }` or `{ ok: false, revertReason }`. -/
abbrev SimulateResult := Except String ℕ

/-- What a mint transaction is built for. -/
structure MintTarget where
  slug : String
  chainId : ℕ
  minter : String
  quantity : ℕ
deriving DecidableEq

/-- `SelfServedResult`. -/
inductive SelfServed
  | built (tx : Tx) (onChainStartMs onChainEndMs : ℤ) (requestedQuantity quantity : ℕ)
  | notSelfServable
  | soldOut
  | allowanceExhausted
  | readFailed (message : String)
deriving DecidableEq

/-- The input of a managed-key signature. -/
structure ManagedTx where
  tx : Tx
  nonce : ℕ
  maxFeePerGasWei : ℕ
  maxPriorityFeePerGasWei : ℕ
  gas : ℕ
deriving DecidableEq

/-- The input of a delegated signature: the executor's `executeMint` of a mint. -/
structure ExecutorTx where
  executorAddress : String
  inner : Tx
  nonce : ℕ
  maxFeePerGasWei : ℕ
  maxPriorityFeePerGasWei : ℕ
  gas : ℕ
deriving DecidableEq

/-- A signed transaction; the hash is computed locally from the raw bytes. -/
structure Signed where
  rawTx : String
  txHash : String
deriving DecidableEq

/-- `PresignCandidate`: an armed plan of a managed wallet. -/
structure PresignCandidate where
  planId : String
  walletId : String
  walletAddress : String
  stageStartMs : ℤ
  presignedAt : Option ℤ
  presignedNonce : Option ℕ
  cachedTx : Option Tx
  cachedTxAt : Option ℤ
  perPlanCeilingWei : ℕ
  quantity : ℕ
  stagePriceWei : Option ℕ
  stageCurrency : Option String
deriving DecidableEq

/-- `Erc20Funding`, read for a known spender. -/
structure Erc20Funding where
  balance : ℕ
  allowance : ℕ
  symbol : String
  decimals : ℕ
deriving DecidableEq

/-! ### Commands -/

/-- What a pass can ask for. -/
inductive Cmd
  -- clock and nonce allocator
  | now
  | sleep (ms : ℤ)
  | reserveNonce (walletAddress : String) (rpcNonce : ℕ)
  | releaseNonce (walletAddress : String) (nonce : ℕ)
  -- the worker's memory of underfunded plans
  | underfundedRecheckAt (planId : String)
  | setUnderfundedRecheckAt (planId : String) (ms : ℤ)
  | deleteUnderfundedRecheckAt (planId : String)
  -- rows read
  | expireStaleMintPlans (now : ℤ)
  | claimArmedMintPlan (now leaseMs leadMs : ℤ)
  | listRpcEndpoints (chainId : ℕ)
  | selectProject (id : String)
  | selectWallet (id : String)
  | selectSigner (id : String)
  | selectStageStart (stageId : String)
  | selectClockOffset
  | stageCapsForProject (projectId : String)
  | selectLatestBroadcast (planId : String)
  | countRevertedAttempts (planId : String)
  | selectPresigned (planId : String)
  | getCredentialSecret (id : String)
  | armedManagedPlansForPresign (now : ℤ)
  | claimlessPlanProject (planId : String)
  | getWalletSigningKeySealed (walletId : String)
  -- rows written
  | recordExecutionAttempt (planId : String) (attempt : Attempt)
  | savePresignedTx (planId rawTx : String) (nonce : ℕ) (txHash : String)
  | clearPresignedTx (planId : String)
  | recordWalletBalance (walletId : String) (balanceWei : ℕ)
  | releaseMintPlanToArmed (planId : String) (now : ℤ)
  | markMintPlanExecuted (planId : String)
  | failMintPlanExecution (planId : String)
  | publishEvent (type projectId : String)
  -- RPC endpoints
  | fetchFeeContext (url address : String)
  | fetchNativeBalance (url address : String)
  | fetchErc20Funding (url token owner spender : String)
  | readMintStats (url contract minter : String)
  | getTransactionReceipt (url txHash : String)
  | simulateTransaction (url sender : String) (tx : Tx)
  | simulateExecuteMint (url operator executorAddress : String) (inner : Tx)
  | broadcastRawTransaction (url rawTx : String)
  | raceRawTransaction (urls : List String) (rawTx : String)
  -- mint providers
  | buildSelfServedPublicMint (urls : List String) (stageId contractAddress : Option String)
      (minter : String) (quantity chainId : ℕ) (minterIfNotPayer : Option String)
  | buildOpenSeaMintTx (target : MintTarget)
  | burstBuildOpenSeaMintTx (target : MintTarget) (maxMs cadenceMs : ℤ)
  -- keys
  | openWalletKey (encryptedSigningKey : String)
  | signManagedMintTransaction (tx : ManagedTx) (key : String)
  | operatorAddress (sessionKeyHex : String)
  | signExecutorTransaction (tx : ExecutorTx) (sessionKeyHex : String)
deriving DecidableEq

/-- The answer to each command.  The update commands report whether they found their
row; the worker does not look.  A race answers with the first hash returned, or with
every endpoint's rejection. -/
abbrev Cmd.Resp : Cmd → Type
  | .now => ℤ
  | .sleep _ => Unit
  | .reserveNonce .. => ℕ
  | .releaseNonce .. => Unit
  | .underfundedRecheckAt _ => Option ℤ
  | .setUnderfundedRecheckAt .. => Unit
  | .deleteUnderfundedRecheckAt _ => Unit
  | .expireStaleMintPlans _ => ℕ
  | .claimArmedMintPlan .. => Option Plan
  | .listRpcEndpoints _ => List RpcEndpoint
  | .selectProject _ => Option Project
  | .selectWallet _ => Option Wallet
  | .selectSigner _ => Option Signer
  | .selectStageStart _ => Option ℤ
  | .selectClockOffset => Option ℤ
  | .stageCapsForProject _ => List (String × Option ℕ)
  | .selectLatestBroadcast _ => Option (Option String × ℤ)
  | .countRevertedAttempts _ => ℕ
  | .selectPresigned _ => Option Presigned
  | .getCredentialSecret _ => Option String
  | .armedManagedPlansForPresign _ => List PresignCandidate
  | .claimlessPlanProject _ => Option String
  | .getWalletSigningKeySealed _ => Option String
  | .recordExecutionAttempt .. => Unit
  | .savePresignedTx .. => Unit
  | .clearPresignedTx _ => Bool
  | .recordWalletBalance .. => Unit
  | .releaseMintPlanToArmed .. => Bool
  | .markMintPlanExecuted _ => Bool
  | .failMintPlanExecution _ => Bool
  | .publishEvent .. => Unit
  | .fetchFeeContext .. => FeeContext
  | .fetchNativeBalance .. => ℕ
  | .fetchErc20Funding .. => Erc20Funding
  | .readMintStats .. => MintStats
  | .getTransactionReceipt .. => Option ReceiptStatus
  | .simulateTransaction .. => SimulateResult
  | .simulateExecuteMint .. => SimulateResult
  | .broadcastRawTransaction .. => String
  | .raceRawTransaction .. => Except (List Thrown) String
  | .buildSelfServedPublicMint .. => SelfServed
  | .buildOpenSeaMintTx _ => Tx
  | .burstBuildOpenSeaMintTx .. => Tx
  | .openWalletKey _ => String
  | .signManagedMintTransaction .. => Signed
  | .operatorAddress _ => String
  | .signExecutorTransaction .. => Signed

/-- The worker's commands with their answers. -/
abbrev signature : Effect.Signature := ⟨Cmd, Cmd.Resp⟩

/-- A piece of the worker. -/
abbrev Worker := Effect.Prog signature Thrown

/-- Issue one command. -/
abbrev ask (c : Cmd) : Worker c.Resp := Effect.Prog.issue (S := signature) c

end MintWorker
