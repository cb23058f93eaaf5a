/-
The commands of the on-chain radar: what a chain sync asks of a chain's RPC endpoint and of
the database (`apps/worker/src/workers/chain.ts`, `packages/providers/src/chain/rpc.ts`,
`packages/db/src/repositories/onchain.ts`, `packages/db/src/repositories/ops.ts`).

Block numbers, quantities and counts are numbers here, where the source carries them as
`bigint` and `number` by turns; instants are milliseconds.  A project's id is a number drawn
by the database.
-/
import HoodMint.ExecutionEffects
import HoodMint.Lib.Effect

namespace ChainRadar

open MintWorker (HealthStatus)

/-! ### Data -/

/-- The worker's configuration, as far as a chain sync reads it; the range is a `positiveInt`. -/
structure Config where
  robinhoodChainId : ℕ
  rpcUrl : Option String
  chainSyncInitialRange : ℕ
  chainSyncInitialRange_pos : 0 < chainSyncInitialRange

/-- A thrown value; `details` is where the RPC client keeps the endpoint's own reason. -/
structure Thrown where
  message : String
  details : String
  isError : Bool
deriving DecidableEq

/-- A log as `formatLog` returns it. -/
structure Log where
  address : String
  topics : List String
  data : String
  transactionHash : Option String
  logIndex : Option ℕ
  blockNumber : Option ℕ
  blockHash : Option String
deriving DecidableEq

structure MintEventInsert where
  chainId : ℕ
  txHash : String
  logIndex : ℕ
  blockNumber : ℕ
  blockHash : String
  contractAddress : String
  recipient : String
  quantity : ℕ
  finalized : Bool
  observedAt : ℤ
deriving DecidableEq

/-- A row of `mint_events`. -/
structure MintEvent where
  chainId : ℕ
  txHash : String
  logIndex : ℕ
  blockNumber : ℕ
  blockHash : String
  projectId : Option ℕ
  recipient : String
  quantity : ℕ
  finalized : Bool
  observedAt : ℤ
deriving DecidableEq

/-- The key of `mint_events_unique_idx`. -/
def MintEvent.key (e : MintEvent) : ℕ × String × ℕ := (e.chainId, e.txHash, e.logIndex)

/-- The block a pass of one provider has synced to. -/
structure Checkpoint where
  blockNumber : ℕ
  blockHash : String
deriving DecidableEq

/-- `ProviderKind`, as far as a chain sync uses it. -/
inductive ProviderKind | robinhoodRpc | rpc (chainId : ℕ)
deriving DecidableEq

structure Provider where
  id : String
  enabled : Bool
deriving DecidableEq

/-- `bucket_size`. -/
inductive BucketSize | fiveMinutes | hour
deriving DecidableEq

/-- What is stored of a `HolderConcentration`: the shares are derived when it is read. -/
structure HolderSnapshot where
  totalMinted : ℕ
  uniqueHolders : ℕ
  topHolders : List (String × ℕ)
deriving DecidableEq

/-! ### Commands -/

/-- What a chain sync can ask for. -/
inductive Cmd
  | now
  -- the RPC endpoint of a chain
  | getBlockNumber (chainId : ℕ)
  | getBlock (chainId blockNumber : ℕ)
  | getLogs (chainId fromBlock toBlock : ℕ)
  -- rows read
  | distinctEnabledRpcChainIds
  | resolveBestRpcUrl (chainId : ℕ) (fallback : Option String)
  | ensureProvider (kind : ProviderKind)
  | getCheckpoint (chainId : ℕ) (providerId : String)
  | selectProjects (contracts : List String)
  | projectIdsForContracts (contracts : List String)
  | sumByRecipient (projectId : ℕ)
  -- rows written
  | ensureContractProject (chainId : ℕ) (contractAddress name : String) (now : ℤ)
  | insertMintEvent (row : MintEvent)
  | markEventsFinalized (throughBlock : ℕ)
  | unfinalizeFromBlock (fromBlock : ℕ)
  | refreshBuckets (size : BucketSize) (projectId : ℕ)
  | refreshActivitySnapshot (projectId : ℕ)
  | upsertHolderSnapshot (projectId : ℕ) (snapshot : HolderSnapshot)
  | saveCheckpoint (chainId : ℕ) (providerId : String) (checkpoint : Checkpoint)
  | markProviderHealth (kind : ProviderKind) (health : HealthStatus) (errorCode : Option String)
  | publishEvent (type : String)
deriving DecidableEq

/-- The answer to each command.  A refresh answers with the reading of `now()` it was executed
at; an insertion, whether it inserted its row. -/
abbrev Cmd.Resp : Cmd → Type
  | .now => ℤ
  | .getBlockNumber _ => ℕ
  | .getBlock .. => String
  | .getLogs .. => List Log
  | .distinctEnabledRpcChainIds => List ℕ
  | .resolveBestRpcUrl .. => Option String
  | .ensureProvider _ => Provider
  | .getCheckpoint .. => Option Checkpoint
  | .selectProjects _ => List (String × ℕ)
  | .projectIdsForContracts _ => List ℕ
  | .sumByRecipient _ => List (String × ℕ)
  | .ensureContractProject .. => ℕ
  | .insertMintEvent _ => Bool
  | .markEventsFinalized _ => ℕ
  | .unfinalizeFromBlock _ => ℕ
  | .refreshBuckets .. => ℤ
  | .refreshActivitySnapshot _ => ℤ
  | .upsertHolderSnapshot .. => Unit
  | .saveCheckpoint .. => Unit
  | .markProviderHealth .. => Unit
  | .publishEvent _ => Unit

/-- The radar's commands with their answers. -/
abbrev signature : Effect.Signature := ⟨Cmd, Cmd.Resp⟩

/-- A piece of a chain sync. -/
abbrev Radar := Effect.Prog signature Thrown

/-- Issue one command. -/
abbrev ask (c : Cmd) : Radar c.Resp := Effect.Prog.issue (S := signature) c

end ChainRadar
