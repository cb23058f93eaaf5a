/-
The tables of the on-chain radar, and what its statements make of them
(`packages/db/src/repositories/onchain.ts`, `packages/db/src/repositories/ops.ts`,
`packages/db/src/schema.ts`).

* `RadarDb` — the events, and what is computed from them;
* `RadarDb.exec` — a statement that succeeds; `RadarDb.Answers` — what it may answer;
* `RadarDb.Raises` — the statements a cast or a column can make fail.  Sums and counts are
  computed in 64 bits and cast to the `integer` of their column.
-/
import HoodMint.ChainSync
import HoodMint.Lib.Grouping
import HoodMint.Lib.Table
import Mathlib.Data.List.Perm.Basic

namespace ChainRadar

open Relational
open Text (lower)

/-! ### Rows -/

structure ProjectRow where
  id : ℕ
  chainId : ℕ
  contractAddress : Option String
deriving DecidableEq

structure CheckpointRow where
  chainId : ℕ
  providerId : String
  checkpoint : Checkpoint
deriving DecidableEq

def CheckpointRow.key (r : CheckpointRow) : ℕ × String := (r.chainId, r.providerId)

/-- A row of `mint_aggregates`. -/
structure MintAggregate where
  projectId : ℕ
  bucketStart : ℤ
  bucketSize : BucketSize
  quantity : ℕ
  uniqueRecipients : ℕ
  updatedAt : ℤ
deriving DecidableEq

def MintAggregate.key (r : MintAggregate) : ℕ × ℤ × BucketSize :=
  (r.projectId, r.bucketStart, r.bucketSize)

/-- A row of `mint_activity_snapshots`. -/
structure ActivitySnapshot where
  projectId : ℕ
  windowStartedAt : ℤ
  computedAt : ℤ
  quantity : ℕ
  uniqueRecipients : ℕ
deriving DecidableEq

/-- A row of `holder_snapshots`. -/
structure HolderRow where
  projectId : ℕ
  snapshot : HolderSnapshot
deriving DecidableEq

structure RadarDb where
  events : Table MintEvent (ℕ × String × ℕ) MintEvent.key
  projects : Table ProjectRow ℕ ProjectRow.id
  checkpoints : Table CheckpointRow (ℕ × String) CheckpointRow.key
  aggregates : Table MintAggregate (ℕ × ℤ × BucketSize) MintAggregate.key
  activity : Table ActivitySnapshot ℕ ActivitySnapshot.projectId
  holders : Table HolderRow ℕ HolderRow.projectId

/-! ### Figures -/

/-- The largest `integer` and the largest `bigint`. -/
def int4Max : ℕ := 2147483647

def int8Max : ℕ := 9223372036854775807

def minute : ℤ := 60000

def hour : ℤ := 3600000

/-- `date_trunc('hour', t)`, in a zone whole hours from UTC. -/
def hourStart (t : ℤ) : ℤ := t - t % hour

/-- The bucket of an instant. -/
def bucketStart : BucketSize → ℤ → ℤ
  | .fiveMinutes, t => hourStart t + (t - hourStart t) / (5 * minute) * (5 * minute)
  | .hour, t => hourStart t

/-- The events of a project later than an instant. -/
def eventsSince (events : List MintEvent) (projectId : ℕ) (since : ℤ) : List MintEvent :=
  events.filter fun e => e.projectId = some projectId ∧ since < e.observedAt

/-- The events of a project. -/
def eventsOf (events : List MintEvent) (projectId : ℕ) : List MintEvent :=
  events.filter fun e => e.projectId = some projectId

/-- `sum(quantity)`. -/
abbrev quantityOf (events : List MintEvent) : ℕ := total MintEvent.quantity events

/-- `count(distinct recipient)`. -/
abbrev recipientsOf (events : List MintEvent) : ℕ := countDistinct MintEvent.recipient events

/-- A bucket's row, over the events of the last 48 hours in it. -/
def aggregateAt (events : List MintEvent) (size : BucketSize) (projectId : ℕ) (now start : ℤ) :
    MintAggregate :=
  let rows := (eventsSince events projectId (now - 48 * hour)).filter fun e =>
    bucketStart size e.observedAt = start
  ⟨projectId, start, size, quantityOf rows, recipientsOf rows, now⟩

/-- The rows `refreshAggregates` computes for one size. -/
def aggregatesAt (events : List MintEvent) (size : BucketSize) (projectId : ℕ) (now : ℤ) :
    List MintAggregate :=
  ((eventsSince events projectId (now - 48 * hour)).map fun e =>
    bucketStart size e.observedAt).dedup.map (aggregateAt events size projectId now)

/-- The rows of one recomputation have different keys. -/
theorem nodup_aggregatesAt (events : List MintEvent) {size : BucketSize} {projectId : ℕ} {now : ℤ} :
    ((aggregatesAt events size projectId now).map MintAggregate.key).Nodup := by
  rw [aggregatesAt, List.map_map]
  refine List.Nodup.map (fun start start' h => ?_) (List.nodup_dedup _)
  exact (Prod.mk.inj (Prod.mk.inj h).2).1

/-- The row `refreshActivitySnapshot` computes. -/
def activityAt (events : List MintEvent) (projectId : ℕ) (now : ℤ) : ActivitySnapshot :=
  let rows := eventsSince events projectId (now - hour)
  ⟨projectId, now - hour, now, quantityOf rows, recipientsOf rows⟩

/-- The groups of `refreshHolderSnapshot`. -/
def quantitiesByRecipient (events : List MintEvent) (projectId : ℕ) : List (String × ℕ) :=
  groupTotals MintEvent.recipient MintEvent.quantity (eventsOf events projectId)

/-! ### Statements -/

namespace RadarDb

variable (db : RadarDb)

/-- An id no project has. -/
def freshId : ℕ := (db.projects.rows.map ProjectRow.id).foldr max 0 + 1

/-- The project of a contract on a chain. -/
def projectAt (chainId : ℕ) (contract : String) : Option ProjectRow :=
  db.projects.rows.find? fun r => r.chainId = chainId ∧ r.contractAddress = some contract

/-- The projects of some contracts, on whatever chain. -/
def projectsFor (contracts : List String) : List (String × ℕ) :=
  db.projects.rows.filterMap fun r =>
    match r.contractAddress with
    | some contract => if contract ∈ contracts then some (contract, r.id) else none
    | none => none

/-- A statement that succeeds, with its answer. -/
def exec : (c : Cmd) → c.Resp → RadarDb
  | .ensureContractProject chainId contract _ _, id =>
    if (db.projectAt chainId (lower contract)).isSome then db
    else { db with projects := db.projects.insert ⟨id, chainId, some (lower contract)⟩ }
  | .insertMintEvent row, _ => { db with events := db.events.insert row }
  | .markEventsFinalized throughBlock, _ =>
    { db with
      events := db.events.update (fun e => e.finalized = false ∧ e.blockNumber ≤ throughBlock)
        (fun e => { e with finalized := true }) fun _ => rfl }
  | .unfinalizeFromBlock fromBlock, _ =>
    { db with
      events := db.events.update (fun e => fromBlock ≤ e.blockNumber)
        (fun e => { e with finalized := false }) fun _ => rfl }
  | .refreshBuckets size projectId, now =>
    { db with
      aggregates := (aggregatesAt db.events.rows size projectId now).foldl Table.upsert
        db.aggregates }
  | .refreshActivitySnapshot projectId, now =>
    { db with activity := db.activity.upsert (activityAt db.events.rows projectId now) }
  | .upsertHolderSnapshot projectId snapshot, _ =>
    { db with holders := db.holders.upsert ⟨projectId, snapshot⟩ }
  | .saveCheckpoint chainId providerId checkpoint, _ =>
    { db with checkpoints := db.checkpoints.upsert ⟨chainId, providerId, checkpoint⟩ }
  | _, _ => db

/-- What a statement may answer.  The order of groups is the database's. -/
def Answers : (c : Cmd) → c.Resp → Prop
  | .getCheckpoint chainId providerId, answer =>
    answer = (db.checkpoints.get? (chainId, providerId)).map CheckpointRow.checkpoint
  | .selectProjects contracts, answer => answer = db.projectsFor contracts
  | .projectIdsForContracts contracts, answer => answer = (db.projectsFor contracts).map Prod.snd
  | .sumByRecipient projectId, answer =>
    answer.Perm (quantitiesByRecipient db.events.rows projectId)
  | .ensureContractProject chainId contract _ _, answer =>
    answer = ((db.projectAt chainId (lower contract)).map ProjectRow.id).getD db.freshId
  | .insertMintEvent row, answer => answer = decide (row.key ∉ db.events.rows.map MintEvent.key)
  | .markEventsFinalized throughBlock, answer =>
    answer = (db.events.rows.filter fun e =>
      e.finalized = false ∧ e.blockNumber ≤ throughBlock).length
  | .unfinalizeFromBlock fromBlock, answer =>
    answer = (db.events.rows.filter fun e => fromBlock ≤ e.blockNumber).length
  | _, _ => True

/-- A row of `mint_aggregates` or `mint_activity_snapshots` whose figures fit their columns. -/
def FitsColumns (quantity uniqueRecipients : ℕ) : Prop :=
  quantity ≤ int4Max ∧ uniqueRecipients ≤ int4Max

instance (quantity uniqueRecipients : ℕ) : Decidable (FitsColumns quantity uniqueRecipients) :=
  (inferInstance : Decidable (quantity ≤ int4Max ∧ uniqueRecipients ≤ int4Max))

/-- What the statement writes fits its columns, when it is answered so. -/
def Fits : (c : Cmd) → c.Resp → Prop
  | .insertMintEvent row, _ =>
    row.logIndex ≤ int4Max ∧ row.blockNumber ≤ int8Max ∧ row.quantity ≤ int4Max
  | .refreshBuckets size projectId, now => ∀ r ∈ aggregatesAt db.events.rows size projectId now,
    FitsColumns r.quantity r.uniqueRecipients
  | .refreshActivitySnapshot projectId, now =>
    FitsColumns (activityAt db.events.rows projectId now).quantity
      (activityAt db.events.rows projectId now).uniqueRecipients
  | .sumByRecipient projectId, _ =>
    ∀ g ∈ quantitiesByRecipient db.events.rows projectId, g.2 ≤ int4Max
  | .upsertHolderSnapshot _ snapshot, _ => FitsColumns snapshot.totalMinted snapshot.uniqueHolders
  | _, _ => True

instance (db : RadarDb) (c : Cmd) (answer : c.Resp) : Decidable (db.Answers c answer) := by
  induction c using Cmd.casesOn with
  | getCheckpoint chainId providerId =>
    exact (inferInstance : Decidable
      (answer = (db.checkpoints.get? (chainId, providerId)).map CheckpointRow.checkpoint))
  | selectProjects contracts =>
    exact (inferInstance : Decidable (answer = db.projectsFor contracts))
  | projectIdsForContracts contracts =>
    exact (inferInstance : Decidable (answer = (db.projectsFor contracts).map Prod.snd))
  | sumByRecipient projectId =>
    exact (inferInstance : Decidable
      (List.Perm answer (quantitiesByRecipient db.events.rows projectId)))
  | ensureContractProject chainId contract =>
    exact (inferInstance : Decidable
      (answer = ((db.projectAt chainId (lower contract)).map ProjectRow.id).getD db.freshId))
  | insertMintEvent row =>
    exact (inferInstance : Decidable
      (answer = decide (row.key ∉ db.events.rows.map MintEvent.key)))
  | markEventsFinalized throughBlock =>
    exact (inferInstance : Decidable (answer = (db.events.rows.filter fun e =>
      e.finalized = false ∧ e.blockNumber ≤ throughBlock).length))
  | unfinalizeFromBlock fromBlock =>
    exact (inferInstance : Decidable
      (answer = (db.events.rows.filter fun e => fromBlock ≤ e.blockNumber).length))
  | _ => exact isTrue trivial

instance (db : RadarDb) (c : Cmd) (answer : c.Resp) : Decidable (db.Fits c answer) := by
  induction c using Cmd.casesOn with
  | insertMintEvent row =>
    exact (inferInstance : Decidable
      (row.logIndex ≤ int4Max ∧ row.blockNumber ≤ int8Max ∧ row.quantity ≤ int4Max))
  | refreshBuckets size projectId =>
    exact (inferInstance : Decidable (∀ r ∈ aggregatesAt db.events.rows size projectId answer,
      FitsColumns r.quantity r.uniqueRecipients))
  | refreshActivitySnapshot projectId =>
    exact (inferInstance : Decidable
      (FitsColumns (activityAt db.events.rows projectId answer).quantity
        (activityAt db.events.rows projectId answer).uniqueRecipients))
  | sumByRecipient projectId =>
    exact (inferInstance : Decidable
      (∀ g ∈ quantitiesByRecipient db.events.rows projectId, g.2 ≤ int4Max))
  | upsertHolderSnapshot projectId snapshot =>
    exact (inferInstance : Decidable (FitsColumns snapshot.totalMinted snapshot.uniqueHolders))
  | _ => exact isTrue trivial

/-- The statement can fail for what it would write. -/
def Raises (c : Cmd) : Prop := ∃ answer, ¬ db.Fits c answer

end RadarDb

end ChainRadar
