/-
A chain sync (`apps/worker/src/workers/chain.ts`, `packages/db/src/repositories/onchain.ts`,
`packages/core/src/chains.ts`, `packages/core/src/holders.ts`).

* `insertMintEvents` — a project for every contract, then the events one by one;
* `refreshAggregates`, `refreshHolderSnapshot` — the figures of one project;
* `syncWindow` — the `try` block of `syncChain`: fetch, unfinalize, insert, finalize, refresh,
  and write the checkpoint last;
* `syncChain`, `runChainSync` — one chain, and all of them in turn.
-/
import HoodMint.ChainRadar
import Mathlib.Data.List.Sort

namespace ChainRadar

open Effect
open Text (lower)

/-- `[...new Set(xs)]`. -/
def distinct {α : Type} [DecidableEq α] (xs : List α) : List α :=
  xs.foldl (fun seen x => if x ∈ seen then seen else seen ++ [x]) []

/-! ### Mint events -/

/-- `Map.get`; the entry set last comes first. -/
def projectOf (byContract : List (String × ℕ)) (contract : String) : Option ℕ :=
  (byContract.find? fun entry => entry.1 = contract).map Prod.snd

/-- A contract no project has becomes a placeholder project. -/
def ensureProjects (chainId : ℕ) (observedAt : ℤ) :
    List String → List (String × ℕ) → Radar (List (String × ℕ))
  | [], byContract => return byContract
  | contract :: contracts, byContract =>
    if (projectOf byContract contract).isSome then
      ensureProjects chainId observedAt contracts byContract
    else do
      let id ← ask (.ensureContractProject chainId contract
        ("Unknown " ++ String.ofList (contract.toList.take 10)) observedAt)
      ensureProjects chainId observedAt contracts ((contract, id) :: byContract)

/-- The row of an event. -/
def MintEventInsert.row (byContract : List (String × ℕ)) (event : MintEventInsert) : MintEvent :=
  { chainId := event.chainId, txHash := lower event.txHash, logIndex := event.logIndex
    blockNumber := event.blockNumber, blockHash := lower event.blockHash
    projectId := projectOf byContract (lower event.contractAddress)
    recipient := lower event.recipient, quantity := event.quantity, finalized := event.finalized
    observedAt := event.observedAt }

/-- The rows are inserted one by one; how many of them were new. -/
def insertRows : List MintEvent → Radar ℕ
  | [] => return 0
  | row :: rows => do
    let inserted ← ask (.insertMintEvent row)
    let others ← insertRows rows
    return (if inserted then 1 else 0) + others

/-- The contracts of some events. -/
def contractsOf (events : List MintEventInsert) : List String :=
  distinct (events.map fun event => lower event.contractAddress)

/-- `insertMintEvents`. -/
def insertMintEvents (events : List MintEventInsert) : Radar ℕ :=
  match events with
  | [] => return 0
  | first :: _ => do
    let projectRows ← ask (.selectProjects (contractsOf events))
    let byContract ← ensureProjects first.chainId first.observedAt (contractsOf events)
      projectRows.reverse
    insertRows (events.map (MintEventInsert.row byContract))

/-- `projectIdsForContracts`. -/
def projectIdsForContracts (contracts : List String) : Radar (List ℕ) :=
  if contracts = [] then return [] else ask (.projectIdsForContracts contracts)

/-! ### Figures -/

/-- `refreshAggregates`. -/
def refreshAggregates (projectId : ℕ) : Radar Unit := do
  let _ ← ask (.refreshBuckets .fiveMinutes projectId)
  let _ ← ask (.refreshBuckets .hour projectId)
  let _ ← ask (.refreshActivitySnapshot projectId)

/-- `computeHolderConcentration`, as far as it is stored. -/
def computeHolderConcentration (recipientQuantities : List (String × ℕ)) : HolderSnapshot where
  totalMinted := (recipientQuantities.map Prod.snd).sum
  uniqueHolders := recipientQuantities.length
  topHolders := (recipientQuantities.insertionSort fun a b => b.2 ≤ a.2).take 10

/-- `refreshHolderSnapshot`. -/
def refreshHolderSnapshot (projectId : ℕ) : Radar Unit := do
  let rows ← ask (.sumByRecipient projectId)
  ask (.upsertHolderSnapshot projectId (computeHolderConcentration rows))

/-- The figures of the touched projects. -/
def refreshProjects : List ℕ → Radar Unit
  | [] => return ()
  | projectId :: projectIds => do
    refreshAggregates projectId
    refreshHolderSnapshot projectId
    refreshProjects projectIds

/-! ### Chains -/

/-- The `finalityDepth` of the chains in `CHAINS`. -/
def finalityDepths : List (ℕ × ℕ) := [(4663, 12), (1, 12), (8453, 10), (42161, 12)]

/-- `finalityDepthFor`. -/
def finalityDepthFor (chainId : ℕ) : ℕ :=
  ((finalityDepths.find? fun entry => entry.1 = chainId).map Prod.snd).getD 12

structure ChainSyncSummary where
  synced : Bool
  fromBlock : Option ℕ
  toBlock : Option ℕ
  events : ℕ
  reorg : Bool
deriving DecidableEq

def ChainSyncSummary.empty : ChainSyncSummary := ⟨false, none, none, 0, false⟩

/-- The provider record of a chain. -/
def providerKind (config : Config) (chainId : ℕ) : ProviderKind :=
  if chainId = config.robinhoodChainId then .robinhoodRpc else .rpc chainId

/-- So many blocks below a block, or 0. -/
def blocksBelow (blockNumber window : ℕ) : ℕ :=
  if blockNumber > window then blockNumber - window else 0

/-- A detected reorganisation unfinalizes the events above the finality window. -/
def unfinalizeRewound (finalityWindow : ℕ) (checkpoint : Option Checkpoint) (reorgDetected : Bool) :
    Radar Unit :=
  match checkpoint with
  | some checkpoint =>
    if reorgDetected then do
      let _ ← ask (.unfinalizeFromBlock (blocksBelow checkpoint.blockNumber finalityWindow))
    else return ()
  | none => return ()

/-- The contracts touched, then their projects' figures. -/
def refreshTouched (events : List MintEventInsert) : Radar Unit := do
  let projectIds ← projectIdsForContracts (contractsOf events)
  refreshProjects projectIds

/-- The `try` block of `syncChain`. -/
def syncWindow (abi : Abi) (config : Config) (chainId : ℕ) (provider : Provider)
    (checkpoint : Option Checkpoint) : Radar ChainSyncSummary := do
  let finalityWindow := finalityDepthFor chainId
  let now ← ask .now
  let result ← syncFromCheckpoint abi config chainId checkpoint now
  unfinalizeRewound finalityWindow checkpoint result.reorgDetected
  let inserted ← insertMintEvents result.events
  let _ ← ask (.markEventsFinalized (blocksBelow result.toBlock finalityWindow))
  refreshTouched result.events
  let blockHash ← ask (.getBlock chainId result.toBlock)
  ask (.saveCheckpoint chainId provider.id ⟨result.toBlock, blockHash⟩)
  ask (.markProviderHealth (providerKind config chainId) .healthy none)
  ask (.publishEvent "projects.invalidated")
  return ⟨true, some result.fromBlock, some result.toBlock, inserted, result.reorgDetected⟩

/-- `syncChain`. -/
def syncChain (abi : Abi) (config : Config) (chainId : ℕ) : Radar ChainSyncSummary := do
  let envFallback := if chainId = config.robinhoodChainId then config.rpcUrl else none
  match ← ask (.resolveBestRpcUrl chainId envFallback) with
  | none | some "" => return .empty
  | some _ => do
    let provider ← ask (.ensureProvider (providerKind config chainId))
    if provider.enabled = false then return .empty
    else do
      let checkpoint ← ask (.getCheckpoint chainId provider.id)
      tryCatch (syncWindow abi config chainId provider checkpoint) fun error => do
        ask (.markProviderHealth (providerKind config chainId) .down
          (some (if error.isError then "rpc_error" else "unknown")))
        return .empty

/-- The loop of `runChainSync`, with the summary so far. -/
def syncChains (abi : Abi) (config : Config) :
    List ℕ → ChainSyncSummary → Radar ChainSyncSummary
  | [], total => return total
  | chainId :: chainIds, total => do
    let summary ← syncChain abi config chainId
    syncChains abi config chainIds
      { synced := total.synced || summary.synced
        fromBlock := if summary.toBlock.isSome then summary.fromBlock else total.fromBlock
        toBlock := if summary.toBlock.isSome then summary.toBlock else total.toBlock
        events := total.events + summary.events
        reorg := total.reorg || summary.reorg }

/-- `runChainSync`. -/
def runChainSync (abi : Abi) (config : Config) : Radar ChainSyncSummary := do
  let registryChains ← ask .distinctEnabledRpcChainIds
  syncChains abi config (distinct (config.robinhoodChainId :: registryChains)) .empty

end ChainRadar
