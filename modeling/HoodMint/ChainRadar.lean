/-
One window of a chain's mint logs (`packages/providers/src/chain/rpc.ts`,
`packages/providers/src/chain/seadrop.ts`).

* `decodeMintLog` — what a log says was minted, by whom and how much of it; `none` for junk;
* `fetchLogsWindow` — one `eth_getLogs`, over fewer blocks when the answer is too large;
* `pageLogs` — the windows of a span, one after the other; with one page a block there are
  pages enough (`windowTo_bounds`);
* `syncFromCheckpoint` — the span itself: behind a checkpoint whose hash has changed it starts
  twelve blocks back.
-/
import HoodMint.ChainEffects
import Mathlib.Algebra.GroupWithZero.Nat

namespace ChainRadar

open Effect
open Text (lower)

/-! ### Logs -/

/-- `SEADROP_ADDRESS`. -/
def seadropAddress : String := "0x00005ea00ac477b1030ce78506496e8c2de24bf5"

def erc721TransferTopic : String :=
  "0xddf252ad1be2c89b69c2b068fc378daa952ba7f163c4a11628f55a4df523b3ef"

def erc1155TransferSingleTopic : String :=
  "0xc3d58168c5ae7397731d063d5bbf3d657854427343f4c083240f7aacaa2d0f62"

def erc1155TransferBatchTopic : String :=
  "0x4a39dc06d4c0dbc64b70b58deeb0eb1e6b49e6f3a6f0a3ba54a5eb02d7b630f6"

/-- `ZERO_ADDRESS`. -/
def zeroAddress : String := "0x0000000000000000000000000000000000000000"

/-- `isMintTransfer`. -/
def isMintTransfer (sender : String) : Bool :=
  lower sender = zeroAddress || lower sender = seadropAddress

/-- `decodeAbiParameters` of the two payloads; it throws on malformed data. -/
structure Abi where
  decodeSingle : String → Option (ℕ × ℕ)
  decodeBatch : String → Option (List ℕ × List ℕ)

/-- An address is the low 20 bytes of its topic. -/
def addressFromTopic (topic : String) : String :=
  "0x" ++ String.ofList (topic.toList.drop (topic.length - 40))

/-- One log counts for a million at most. -/
def maxQuantity : ℕ := 1000000

/-- The quantity a log mints, and the recipient's topic. -/
def mintedBy (abi : Abi) (log : Log) : Option (ℕ × String) :=
  match log.topics.head?.map lower with
  | none => none
  | some topic0 =>
    if topic0 = erc721TransferTopic then do
      let sender ← log.topics[1]?
      let recipient ← log.topics[2]?
      if isMintTransfer (addressFromTopic sender) then some (1, recipient) else none
    else if topic0 = erc1155TransferSingleTopic then do
      let sender ← log.topics[2]?
      let recipient ← log.topics[3]?
      if isMintTransfer (addressFromTopic sender) then do
        let (_, value) ← abi.decodeSingle log.data
        some (min value maxQuantity, recipient)
      else none
    else if topic0 = erc1155TransferBatchTopic then do
      let sender ← log.topics[2]?
      let recipient ← log.topics[3]?
      if isMintTransfer (addressFromTopic sender) then do
        let (_, values) ← abi.decodeBatch log.data
        some (min values.sum maxQuantity, recipient)
      else none
    else none

/-- `decodeMintLog`. -/
def decodeMintLog (abi : Abi) (chainId : ℕ) (now : ℤ) (log : Log) : Option MintEventInsert := do
  let (quantity, recipient) ← mintedBy abi log
  let txHash ← log.transactionHash
  let blockNumber ← log.blockNumber
  let blockHash ← log.blockHash
  some
    { chainId, txHash, logIndex := log.logIndex.getD 0, blockNumber, blockHash
      contractAddress := log.address, recipient := addressFromTopic recipient, quantity
      finalized := false, observedAt := now }

/-! ### Windows -/

/-- `isOversizedLogsError`: the patterns of its expression, `timed? ?out` spelt out. -/
def isOversizedLogsError (e : Thrown) : Bool :=
  ["block range", "too large", "exceed", "more than", "invalid parameters", "took too long",
    "timeout", "time out", "timedout", "timed out"].any fun pattern =>
      MintWorker.mentions pattern (e.message ++ "\n" ++ e.details)

def maxRange : ℕ := 20000

def minRange : ℕ := 100

def hardFloor : ℕ := 10

def reorgSafetyBlocks : ℕ := 12

/-- `AppError`. -/
def appError (message : String) : Thrown := ⟨message, "", true⟩

/-- The logs of one window, the last block of it, and the range for the next one. -/
structure LogsWindow where
  logs : List Log
  windowTo : ℕ
  range : ℕ

/-- Heavy pages shrink the range; light ones grow it. -/
def adaptRange (range logs : ℕ) : ℕ :=
  if logs > 4000 ∧ range > minRange then max minRange (range / 2)
  else if logs < 500 ∧ range < maxRange then min maxRange (range * 2)
  else range

/-- The last block of a window. -/
def windowTo (range fromBlock toBlock : ℕ) : ℕ :=
  if fromBlock + range - 1 > toBlock then toBlock else fromBlock + range - 1

theorem windowTo_bounds {range fromBlock toBlock : ℕ} (hrange : 0 < range)
    (h : fromBlock ≤ toBlock) :
    fromBlock ≤ windowTo range fromBlock toBlock ∧ windowTo range fromBlock toBlock ≤ toBlock := by
  rw [windowTo]
  split
  · omega
  · omega

theorem adaptRange_pos {range logs : ℕ} (hrange : 0 < range) : 0 < adaptRange range logs := by
  rw [adaptRange]
  split
  · exact lt_of_lt_of_le (by decide : 0 < minRange) (le_max_left _ _)
  · split
    · simp only [maxRange]
      omega
    · exact hrange

/-- `fetchLogsWindow`, with the attempts left and the transient failures so far. -/
def fetchLogsWindow (chainId fromBlock toBlock : ℕ) : ℕ → ℕ → ℕ → Radar LogsWindow
  | 0, _, _ => throw (appError "eth_getLogs exhausted adaptive attempts")
  | attempts + 1, transientFailures, range => do
    let last := windowTo range fromBlock toBlock
    match ← (ask (.getLogs chainId fromBlock last)).attempt with
    | .ok logs => return ⟨logs, last, adaptRange range logs.length⟩
    | .error error =>
      if isOversizedLogsError error ∧ range > hardFloor then
        fetchLogsWindow chainId fromBlock toBlock attempts transientFailures
          (max hardFloor (range / 4))
      else if transientFailures + 1 ≥ 4 then
        throw (appError ("eth_getLogs failed: " ++ String.ofList (error.message.toList.take 120)))
      else fetchLogsWindow chainId fromBlock toBlock attempts (transientFailures + 1) range

/-- The pager of `syncFromCheckpoint`: the mint events from `cursor` up to `toBlock`, in at most
`pages` windows. -/
def pageLogs (abi : Abi) (chainId toBlock : ℕ) (now : ℤ) : ℕ → ℕ → ℕ → Radar (List MintEventInsert)
  | 0, _, _ => return []
  | pages + 1, range, cursor =>
    if cursor ≤ toBlock then do
      let window ← fetchLogsWindow chainId cursor toBlock 12 0 range
      let events := window.logs.filterMap (decodeMintLog abi chainId now)
      let rest ← pageLogs abi chainId toBlock now pages window.range (window.windowTo + 1)
      return events ++ rest
    else return []

/-! ### The span -/

structure SyncResult where
  fromBlock : ℕ
  toBlock : ℕ
  events : List MintEventInsert
  reorgDetected : Bool
  rangeUsed : ℕ
  lag : ℕ

/-- The first block behind a checkpoint whose hash has changed. -/
def rewound (blockNumber : ℕ) : ℕ :=
  if blockNumber > reorgSafetyBlocks then blockNumber - reorgSafetyBlocks + 1 else 1

/-- Where to start, and whether a reorganisation was detected. -/
def startBlock (config : Config) (chainId head : ℕ) (checkpoint : Option Checkpoint) :
    Radar (Bool × ℕ) :=
  let fresh := if head > config.chainSyncInitialRange then head - config.chainSyncInitialRange + 1
    else 1
  match checkpoint with
  | none => return (false, fresh)
  | some checkpoint =>
    if checkpoint.blockNumber = 0 then return (false, fresh)
    else do
      let currentHash ← ask (.getBlock chainId checkpoint.blockNumber)
      if lower currentHash ≠ lower checkpoint.blockHash then
        return (true, rewound checkpoint.blockNumber)
      else return (false, checkpoint.blockNumber + 1)

/-- Each pass is bounded, so that catching up advances the checkpoint step by step. -/
def maxSpan : ℕ := min maxRange 1000

/-- The last block of a pass. -/
def spanEnd (head fromBlock : ℕ) : ℕ :=
  if head + 1 - fromBlock > maxSpan then fromBlock + maxSpan - 1 else head

/-- `syncFromCheckpoint`. -/
def syncFromCheckpoint (abi : Abi) (config : Config) (chainId : ℕ) (checkpoint : Option Checkpoint)
    (now : ℤ) : Radar SyncResult := do
  let head ← ask (.getBlockNumber chainId)
  let (reorgDetected, fromBlock) ← startBlock config chainId head checkpoint
  let toBlock := spanEnd head fromBlock
  if toBlock < fromBlock then
    return { fromBlock, toBlock, events := [], reorgDetected, rangeUsed := 0, lag := 0 }
  let events ← pageLogs abi chainId toBlock now (toBlock + 1 - fromBlock)
    config.chainSyncInitialRange fromBlock
  return { fromBlock, toBlock, events, reorgDetected
           rangeUsed := toBlock - fromBlock + 1, lag := head - fromBlock }

end ChainRadar
