/-
One pass over one chain, statement by statement.

* `Chain` — the blocks of a chain with their logs; `Pass` — what a pass finds of the clock, the
  registry and its chain;
* `Pass.monitor` — the tables answer what they hold and raise what does not fit their columns, or
  the driver;
* `Pass.settled` — the tables once a pass has unfinalized, inserted and finalized;
* `Pass.Recomputed`, `Pass.ExactFigures` — the stored figures of a project are those it was
  recomputed with; they are the sums over all events they cover (`exactFigures_iff`);
* `syncChain_passes` — what a pass that reaches its checkpoint has made of the tables, and that
  only an overflow keeps it from there.
-/
import HoodMint.AggregateRuns
import HoodMint.LogPager

namespace ChainRadar

open Effect Relational
open Text (lower)

/-! ### Chains -/

/-- A chain as one pass reads it: its blocks, each with its hash and its logs, which are mined in
it and known by transaction and index. -/
structure Chain where
  head : ℕ
  hash : ℕ → String
  logsAt : ℕ → List Log
  mined : ∀ n, ∀ log ∈ logsAt n, log.blockNumber = some n ∧ log.blockHash = some (hash n) ∧
    log.transactionHash.isSome = true ∧ log.logIndex.isSome = true
  unique : ∀ n n', ∀ log ∈ logsAt n, ∀ log' ∈ logsAt n',
    log.transactionHash.map lower = log'.transactionHash.map lower →
      log.logIndex = log'.logIndex → log = log'

namespace Chain

variable (chain : Chain)

/-- The logs of the blocks from one to another. -/
def logsIn (fromBlock toBlock : ℕ) : List Log :=
  (List.range' fromBlock (toBlock + 1 - fromBlock)).flatMap chain.logsAt

/-- The checkpoint's block is on the chain no more. -/
def forked : Option Checkpoint → Bool
  | none => false
  | some checkpoint => decide (checkpoint.blockNumber ≠ 0 ∧
      lower (chain.hash checkpoint.blockNumber) ≠ lower checkpoint.blockHash)

variable {chain} {fromBlock toBlock : ℕ}

theorem logsIn_of_lt (h : toBlock < fromBlock) : chain.logsIn fromBlock toBlock = [] := by
  rw [logsIn, show toBlock + 1 - fromBlock = 0 by omega]
  rfl

/-- Logs of adjacent spans. -/
theorem logsIn_append {last : ℕ} (hfrom : fromBlock ≤ last) (hto : last ≤ toBlock) :
    chain.logsIn fromBlock last ++ chain.logsIn (last + 1) toBlock =
      chain.logsIn fromBlock toBlock := by
  have hrange : List.range' fromBlock (last + 1 - fromBlock) ++
      List.range' (last + 1) (toBlock + 1 - (last + 1)) =
        List.range' fromBlock (toBlock + 1 - fromBlock) := by
    have hstart : last + 1 = fromBlock + (last + 1 - fromBlock) := by omega
    have hlength : toBlock + 1 - fromBlock =
        (last + 1 - fromBlock) + (toBlock + 1 - (last + 1)) := by omega
    rw [hlength, ← List.range'_append_1, ← hstart]
  rw [logsIn, logsIn, logsIn, ← List.flatMap_append, hrange]

theorem mem_logsIn {log : Log} : log ∈ chain.logsIn fromBlock toBlock ↔
    ∃ n, fromBlock ≤ n ∧ n ≤ toBlock ∧ log ∈ chain.logsAt n := by
  simp only [logsIn, List.mem_flatMap, List.mem_range'_1]
  constructor
  · intro h
    obtain ⟨n, hn, hlog⟩ := h
    exact ⟨n, hn.1, by omega, hlog⟩
  · intro h
    obtain ⟨n, hfrom, hto, hlog⟩ := h
    exact ⟨n, ⟨hfrom, by omega⟩, hlog⟩

end Chain

/-! ### A pass -/

/-- What a pass finds: its configuration, its clock and the database's, how many values the driver
binds in one statement, an endpoint that is set and a provider that is enabled, and the chain. -/
structure Pass where
  config : Config
  chainId : ℕ
  chain : Chain
  now : ℤ
  dbNow : Cmd → ℤ
  maxParameters : ℕ
  url : String
  url_ne : url ≠ ""
  provider : Provider
  enabled : provider.enabled = true

/-! What the passes of the samples are built from. -/

namespace Sample

theorem range_pos : 0 < 500 := Nat.succ_pos 499

theorem url_ne : "https://rpc" ≠ "" := by decide

theorem provider_enabled : (Provider.mk "rpc" true).enabled = true := rfl

end Sample

/-- The projects of some contracts once each of them has one. -/
def linked (chainId : ℕ) :
    RadarDb → List String → List (String × ℕ) → RadarDb × List (String × ℕ)
  | db, [], byContract => (db, byContract)
  | db, contract :: contracts, byContract =>
    if (projectOf byContract contract).isSome then linked chainId db contracts byContract
    else
      let id := ((db.projectAt chainId (lower contract)).map ProjectRow.id).getD db.freshId
      linked chainId (db.exec (.ensureContractProject chainId contract "" 0) id) contracts
        ((contract, id) :: byContract)

namespace RadarDb

variable (db : RadarDb)

/-- The tables with some rows inserted. -/
def insertAll (rows : List MintEvent) : RadarDb :=
  { db with events := rows.foldl Table.insert db.events }

/-- The tables once the events of a rewound window are unfinalized. -/
def rewind (finalityWindow : ℕ) (checkpoint : Option Checkpoint) (reorgDetected : Bool) :
    RadarDb :=
  match checkpoint with
  | some checkpoint =>
    if reorgDetected then
      db.exec (.unfinalizeFromBlock (blocksBelow checkpoint.blockNumber finalityWindow)) 0
    else db
  | none => db

/-- All a project's events are summed and counted within the columns. -/
def Holds (projectId : ℕ) : Prop :=
  FitsColumns (quantityOf (eventsOf db.events.rows projectId))
    (recipientsOf (eventsOf db.events.rows projectId))

instance (projectId : ℕ) : Decidable (db.Holds projectId) :=
  (inferInstance : Decidable (FitsColumns _ _))

end RadarDb

namespace Pass

variable (abi : Abi) (p : Pass) (db : RadarDb)

/-- The stored checkpoint. -/
def checkpoint : Option Checkpoint :=
  (db.checkpoints.get? (p.chainId, p.provider.id)).map CheckpointRow.checkpoint

/-- The first and the last block of the pass. -/
def fromBlock : ℕ :=
  firstBlock p.config.chainSyncInitialRange p.chain.head
    (p.chain.hash ((p.checkpoint db).elim 0 Checkpoint.blockNumber)) (p.checkpoint db)

def toBlock : ℕ := spanEnd p.chain.head (p.fromBlock db)

/-- The events of its blocks. -/
def events : List MintEventInsert :=
  (p.chain.logsIn (p.fromBlock db) (p.toBlock db)).filterMap (decodeMintLog abi p.chainId p.now)

/-- The tables with a project for every contract, and the projects by contract. -/
def linkedTo (start : RadarDb) (events : List MintEventInsert) : RadarDb × List (String × ℕ) :=
  linked p.chainId start (contractsOf events) (start.projectsFor (contractsOf events)).reverse

/-- The tables the pass inserts into: of a fork the events above the window are unfinalized. -/
def start : RadarDb :=
  db.rewind (finalityDepthFor p.chainId) (p.checkpoint db) (p.chain.forked (p.checkpoint db))

/-- The rows of its events. -/
def rows : List MintEvent :=
  (p.events abi db).map (MintEventInsert.row (p.linkedTo (p.start db) (p.events abi db)).2)

/-- The tables once the events of the pass have been unfinalized, inserted and finalized. -/
def settled : RadarDb :=
  ((p.linkedTo (p.start db) (p.events abi db)).1.insertAll (p.rows abi db)).exec
    (.markEventsFinalized (blocksBelow (p.toBlock db) (finalityDepthFor p.chainId))) 0

/-- The projects whose figures the pass recomputes. -/
def touched : List ℕ :=
  ((p.settled abi db).projectsFor (contractsOf (p.events abi db))).map Prod.snd

/-- The driver binds the values of the command. -/
def Binds : Cmd → Prop
  | .selectProjects contracts => contracts.length ≤ p.maxParameters
  | .projectIdsForContracts contracts => contracts.length ≤ p.maxParameters
  | _ => True

instance : DecidablePred p.Binds := fun c => by
  induction c using Cmd.casesOn with
  | selectProjects contracts =>
    exact (inferInstance : Decidable (contracts.length ≤ p.maxParameters))
  | projectIdsForContracts contracts =>
    exact (inferInstance : Decidable (contracts.length ≤ p.maxParameters))
  | _ => exact isTrue trivial

/-- What the clocks, the chain, the registry and the driver answer. -/
def Shows : (c : Cmd) → c.Resp → Prop
  | .now, now => now = p.now
  | .refreshBuckets size projectId, now => now = p.dbNow (.refreshBuckets size projectId)
  | .refreshActivitySnapshot projectId, now => now = p.dbNow (.refreshActivitySnapshot projectId)
  | .selectProjects contracts, _ => p.Binds (.selectProjects contracts)
  | .projectIdsForContracts contracts, _ => p.Binds (.projectIdsForContracts contracts)
  | .resolveBestRpcUrl .., url => url = some p.url
  | .ensureProvider _, provider => provider = p.provider
  | .getBlockNumber _, head => head = p.chain.head
  | .getBlock _ blockNumber, hash => hash = p.chain.hash blockNumber
  | .getLogs _ fromBlock toBlock, logs => logs = p.chain.logsIn fromBlock toBlock
  | _, _ => True

/-- The tables and the endpoint answer what they hold; a statement fails for what it would write or
bind, and, when something is `faulty`, anything may fail. -/
def monitor (faulty : Prop) : Monitor signature Thrown RadarDb where
  guard _ _ := True
  allowed db c x :=
    match x with
    | .ok answer => db.Answers c answer ∧ db.Fits c answer ∧ p.Shows c answer
    | .error _ => faulty ∨ db.Raises c ∨ ¬p.Binds c
  next db c x :=
    match x with
    | .ok answer => db.exec c answer
    | .error _ => db

end Pass

/-! ### Events -/

section

variable {abi : Abi} {p : Pass} {db : RadarDb} {γ : Type} {g : MintEvent → γ}

theorem linked_events (chainId : ℕ) (contracts : List String) (byContract : List (String × ℕ)) :
    (linked chainId db contracts byContract).1.events = db.events := by
  induction contracts generalizing db byContract with
  | nil => rfl
  | cons contract contracts ih =>
    rw [linked]
    split
    · exact ih _
    · refine (ih _).trans ?_
      rw [RadarDb.exec]
      split
      · rfl
      · rfl

/-- Unfinalizing keeps every other column, -/
theorem start_map (hg : ∀ e b, g { e with finalized := b } = g e) :
    (p.start db).events.rows.map g = db.events.rows.map g := by
  rw [Pass.start]
  cases p.checkpoint db with
  | none => rfl
  | some checkpoint =>
    rw [RadarDb.rewind]
    split
    · exact Table.map_map_ite (fun e => hg e false) db.events.rows
    · rfl

/-- and so does finalizing what has been inserted. -/
theorem settled_map (hg : ∀ e b, g { e with finalized := b } = g e) :
    (p.settled abi db).events.rows.map g =
      ((p.rows abi db).foldl Table.insert (p.start db).events).rows.map g := by
  have hlinked : (p.linkedTo (p.start db) (p.events abi db)).1.events = (p.start db).events :=
    linked_events _ _ _
  rw [← hlinked]
  exact Table.map_map_ite (p := fun e => e.finalized = false ∧
    e.blockNumber ≤ blocksBelow (p.toBlock db) (finalityDepthFor p.chainId))
    (fun e => hg e true) _

end

/-! ### Figures -/

/-- What is stored of a project's holders is the sum over all its events. -/
def ExactHolders (db : RadarDb) (projectId : ℕ) : Prop :=
  ∃ snapshot, db.holders.get? projectId = some ⟨projectId, snapshot⟩ ∧
    snapshot.totalMinted = quantityOf (eventsOf db.events.rows projectId) ∧
    snapshot.uniqueHolders = recipientsOf (eventsOf db.events.rows projectId) ∧
    ∀ holder ∈ snapshot.topHolders, holder.2 =
      quantityOf ((eventsOf db.events.rows projectId).filter fun e => e.recipient = holder.1)

namespace Pass

/-- The stored figures of a project are those it was recomputed with. -/
structure Recomputed (p : Pass) (db : RadarDb) (projectId : ℕ) : Prop where
  buckets : ∀ size, ∀ r ∈ aggregatesAt db.events.rows size projectId
    (p.dbNow (.refreshBuckets size projectId)), db.aggregates.get? r.key = some r
  activity : db.activity.get? projectId = some (activityAt db.events.rows projectId
    (p.dbNow (.refreshActivitySnapshot projectId)))
  holders : ExactHolders db projectId

/-- The stored figures of a project are the sums and the counts over the events they cover: each
bucket that is recomputed over all events of the bucket, the activity over the last hour, and the
holders over all events. -/
structure ExactFigures (p : Pass) (db : RadarDb) (projectId : ℕ) : Prop where
  buckets : ∀ size, ∀ e ∈ db.events, e.projectId = some projectId →
    p.dbNow (.refreshBuckets size projectId) - 48 * hour < e.observedAt →
      ∃ r, (Bucket.mk size projectId (bucketStart size e.observedAt)).stored db = some r ∧
        r.quantity = quantityOf ((Bucket.mk size projectId
          (bucketStart size e.observedAt)).eventsIn db.events.rows) ∧
        r.uniqueRecipients = recipientsOf ((Bucket.mk size projectId
          (bucketStart size e.observedAt)).eventsIn db.events.rows)
  activity : db.activity.get? projectId = some (activityAt db.events.rows projectId
    (p.dbNow (.refreshActivitySnapshot projectId)))
  holders : ExactHolders db projectId

end Pass

/-- What the cutoff leaves out of a bucket that is recomputed counts for nothing: it has no
quantity, and its recipient is one of those left. -/
def RadarDb.Uncut (db : RadarDb) (size : BucketSize) (projectId : ℕ) (now : ℤ) : Prop :=
  ∀ e ∈ db.events, e.projectId = some projectId → now - 48 * hour < e.observedAt →
    ∀ e' ∈ (Bucket.mk size projectId (bucketStart size e.observedAt)).eventsIn db.events.rows,
      ¬now - 48 * hour < e'.observedAt → e'.quantity = 0 ∧
        ∃ e'' ∈ (Bucket.mk size projectId (bucketStart size e.observedAt)).eventsIn db.events.rows,
          now - 48 * hour < e''.observedAt ∧ e''.recipient = e'.recipient

section

variable {p : Pass} {db : RadarDb} {size : BucketSize} {projectId : ℕ} {now : ℤ}

/-- What a recomputation reads of a bucket. -/
theorem aggregateAt_eq (events : List MintEvent) (start : ℤ) :
    aggregateAt events size projectId now start =
      ⟨projectId, start, size,
        quantityOf (((Bucket.mk size projectId start).eventsIn events).filter fun e =>
          now - 48 * hour < e.observedAt),
        recipientsOf (((Bucket.mk size projectId start).eventsIn events).filter fun e =>
          now - 48 * hour < e.observedAt), now⟩ := by
  have hrows : (eventsSince events projectId (now - 48 * hour)).filter
      (fun e => bucketStart size e.observedAt = start) =
        ((Bucket.mk size projectId start).eventsIn events).filter fun e =>
          now - 48 * hour < e.observedAt := by
    rw [eventsSince, Bucket.eventsIn, List.filter_filter, List.filter_filter]
    refine List.filter_congr fun e _ => ?_
    rw [Bool.eq_iff_iff, Bool.and_eq_true, Bool.and_eq_true, decide_eq_true_iff,
      decide_eq_true_iff, decide_eq_true_iff, decide_eq_true_iff, Bucket.Holds]
    constructor
    · rintro ⟨hstart, hid, hrecent⟩
      exact ⟨hrecent, hid, hstart⟩
    · rintro ⟨hrecent, hid, hstart⟩
      exact ⟨hstart, hid, hrecent⟩
  rw [aggregateAt, hrows]

/-- **Recomputed figures are exact** just when the cutoff leaves out nothing that counts. -/
theorem exactFigures_iff (h : p.Recomputed db projectId) : p.ExactFigures db projectId ↔
    ∀ size, db.Uncut size projectId (p.dbNow (.refreshBuckets size projectId)) := by
  have hstored : ∀ size, ∀ e ∈ db.events, e.projectId = some projectId →
      p.dbNow (.refreshBuckets size projectId) - 48 * hour < e.observedAt →
        (Bucket.mk size projectId (bucketStart size e.observedAt)).stored db =
          some (aggregateAt db.events.rows size projectId
            (p.dbNow (.refreshBuckets size projectId)) (bucketStart size e.observedAt)) := by
    intro size e he hid hrecent
    refine h.buckets size _ (List.mem_map_of_mem (List.mem_dedup.mpr (List.mem_map.mpr ⟨e, ?_, rfl⟩)))
    exact List.mem_filter.mpr ⟨he, decide_eq_true ⟨hid, hrecent⟩⟩
  have hbucket : ∀ size, ∀ e ∈ db.events, e.projectId = some projectId →
      p.dbNow (.refreshBuckets size projectId) - 48 * hour < e.observedAt →
        ((∃ r, (Bucket.mk size projectId (bucketStart size e.observedAt)).stored db = some r ∧
          r.quantity = quantityOf ((Bucket.mk size projectId
            (bucketStart size e.observedAt)).eventsIn db.events.rows) ∧
          r.uniqueRecipients = recipientsOf ((Bucket.mk size projectId
            (bucketStart size e.observedAt)).eventsIn db.events.rows)) ↔
        ∀ e' ∈ (Bucket.mk size projectId (bucketStart size e.observedAt)).eventsIn db.events.rows,
          ¬p.dbNow (.refreshBuckets size projectId) - 48 * hour < e'.observedAt →
            e'.quantity = 0 ∧ ∃ e'' ∈ (Bucket.mk size projectId
              (bucketStart size e.observedAt)).eventsIn db.events.rows,
                p.dbNow (.refreshBuckets size projectId) - 48 * hour < e''.observedAt ∧
                  e''.recipient = e'.recipient) := by
    intro size e he hid hrecent
    rw [hstored size e he hid hrecent, aggregateAt_eq]
    simp only [Option.some_inj, exists_eq_left']
    rw [total_filter_eq_iff, countDistinct_filter_eq_iff]
    simp only [decide_eq_false_iff_not, decide_eq_true_iff]
    exact ⟨fun h e' he' hold => ⟨h.1 e' he' hold, h.2 e' he' hold⟩,
      fun h => ⟨fun e' he' hold => (h e' he' hold).1, fun e' he' hold => (h e' he' hold).2⟩⟩
  constructor
  · intro hexact size e he hid hrecent
    exact (hbucket size e he hid hrecent).mp (hexact.buckets size e he hid hrecent)
  · intro huncut
    refine ⟨fun size e he hid hrecent => ?_, h.activity, h.holders⟩
    exact (hbucket size e he hid hrecent).mpr (huncut size e he hid hrecent)

end

section

variable {db : RadarDb} {size : BucketSize} {projectId : ℕ} {now : ℤ}

theorem RadarDb.FitsColumns.mono {quantity quantity' recipients recipients' : ℕ}
    (h : FitsColumns quantity recipients) (hquantity : quantity' ≤ quantity)
    (hrecipients : recipients' ≤ recipients) : FitsColumns quantity' recipients' :=
  ⟨hquantity.trans h.1, hrecipients.trans h.2⟩

theorem eventsSince_sublist (events : List MintEvent) (since : ℤ) :
    (eventsSince events projectId since).Sublist (eventsOf events projectId) := by
  refine List.monotone_filter_right events fun e he => ?_
  exact decide_eq_true (of_decide_eq_true he).1

/-- Sums and counts over some of a project's events fit when those over all do. -/
theorem RadarDb.Holds.of_sublist (h : db.Holds projectId) {rows : List MintEvent}
    (hrows : rows.Sublist (eventsOf db.events.rows projectId)) :
    FitsColumns (quantityOf rows) (recipientsOf rows) :=
  FitsColumns.mono h (total_mono hrows) (countDistinct_mono hrows.subset)

theorem RadarDb.Holds.fits_buckets (h : db.Holds projectId) :
    db.Fits (.refreshBuckets size projectId) now := by
  intro r hr
  obtain ⟨start, -, rfl⟩ := List.mem_map.mp hr
  exact h.of_sublist (List.filter_sublist.trans (eventsSince_sublist _ _))

theorem RadarDb.Holds.fits_activity (h : db.Holds projectId) :
    db.Fits (.refreshActivitySnapshot projectId) now :=
  h.of_sublist (eventsSince_sublist _ _)

theorem RadarDb.Holds.fits_groups (h : db.Holds projectId) (answer : List (String × ℕ)) :
    db.Fits (.sumByRecipient projectId) answer := by
  intro g hg
  exact (le_total_of_mem hg).trans h.1

/-- What is stored of the holders are the totals over all events. -/
theorem holders_of_groups {groups : List (String × ℕ)}
    (h : groups.Perm (quantitiesByRecipient db.events.rows projectId)) :
    (computeHolderConcentration groups).totalMinted =
        quantityOf (eventsOf db.events.rows projectId) ∧
      (computeHolderConcentration groups).uniqueHolders =
        recipientsOf (eventsOf db.events.rows projectId) ∧
      ∀ holder ∈ (computeHolderConcentration groups).topHolders, holder.2 =
        quantityOf ((eventsOf db.events.rows projectId).filter fun e => e.recipient = holder.1) := by
  refine ⟨?_, ?_, ?_⟩
  · show (groups.map Prod.snd).sum = _
    rw [(h.map Prod.snd).sum_eq]
    exact sum_groupTotals
  · exact h.length_eq.trans length_groupTotals
  · intro holder hholder
    have hgroup : holder ∈ groups :=
      (List.perm_insertionSort _ groups).subset (List.mem_of_mem_take hholder)
    obtain ⟨recipient, -, rfl⟩ := List.mem_map.mp (h.subset hgroup)
    rfl

variable {snapshot : HolderSnapshot} {projectId' : ℕ}

theorem key_of_mem_aggregatesAt {events : List MintEvent} {r : MintAggregate}
    (h : r ∈ aggregatesAt events size projectId now) :
    r.projectId = projectId ∧ r.bucketSize = size := by
  obtain ⟨start, -, rfl⟩ := List.mem_map.mp h
  exact ⟨rfl, rfl⟩

/-- Other keys keep their buckets. -/
theorem get?_refreshBuckets_of_ne {k : ℕ × ℤ × BucketSize}
    (h : ¬(k.1 = projectId ∧ k.2.2 = size)) :
    (db.exec (.refreshBuckets size projectId) now).aggregates.get? k = db.aggregates.get? k := by
  refine Table.get?_foldl_upsert_of_forall_ne fun r hr hkey => h ?_
  obtain ⟨hid, hsize⟩ := key_of_mem_aggregatesAt hr
  subst hkey
  exact ⟨hid, hsize⟩

/-- The tables once the figures of one project have been recomputed in a pass. -/
def Pass.recompute (p : Pass) (db : RadarDb) (projectId : ℕ) (snapshot : HolderSnapshot) : RadarDb :=
  (((db.exec (.refreshBuckets .fiveMinutes projectId)
      (p.dbNow (.refreshBuckets .fiveMinutes projectId))).exec
    (.refreshBuckets .hour projectId) (p.dbNow (.refreshBuckets .hour projectId))).exec
      (.refreshActivitySnapshot projectId) (p.dbNow (.refreshActivitySnapshot projectId))).exec
        (.upsertHolderSnapshot projectId snapshot) ()

variable {p : Pass}

/-- A recomputation leaves the figures of its project recomputed, -/
theorem recomputed_recompute {groups : List (String × ℕ)}
    (h : groups.Perm (quantitiesByRecipient db.events.rows projectId)) :
    p.Recomputed (p.recompute db projectId (computeHolderConcentration groups)) projectId := by
  refine ⟨fun size r hr => ?_, ?_, computeHolderConcentration groups, ?_, holders_of_groups h⟩
  · cases size with
    | fiveMinutes =>
      obtain ⟨-, hsize⟩ := key_of_mem_aggregatesAt hr
      have hother : ¬(r.key.1 = projectId ∧ r.key.2.2 = BucketSize.hour) := by
        intro hkey
        exact absurd (hsize.symm.trans hkey.2) (by decide)
      exact (get?_refreshBuckets_of_ne hother).trans
        (Table.get?_foldl_upsert_of_mem (nodup_aggregatesAt _) hr)
    | hour => exact Table.get?_foldl_upsert_of_mem (nodup_aggregatesAt _) hr
  · exact Table.get?_upsert.trans (if_pos rfl)
  · exact Table.get?_upsert.trans (if_pos rfl)

/-- and keeps those of any other. -/
theorem Pass.Recomputed.recompute (h : p.Recomputed db projectId') (hne : projectId' ≠ projectId) :
    p.Recomputed (p.recompute db projectId snapshot) projectId' := by
  refine ⟨fun size r hr => ?_, ?_, ?_⟩
  · obtain ⟨hid, -⟩ := key_of_mem_aggregatesAt hr
    have hother : ∀ size', ¬(r.key.1 = projectId ∧ r.key.2.2 = size') :=
      fun size' hkey => hne (hid.symm.trans hkey.1)
    exact (get?_refreshBuckets_of_ne (hother .hour)).trans
      ((get?_refreshBuckets_of_ne (hother .fiveMinutes)).trans (h.buckets size r hr))
  · exact (Table.get?_upsert.trans (if_neg (Ne.symm hne))).trans h.activity
  · obtain ⟨snapshot', hholders, hfigures⟩ := h.holders
    exact ⟨snapshot', (Table.get?_upsert.trans (if_neg (Ne.symm hne))).trans hholders, hfigures⟩

end

/-! ### Fetching -/

section

variable {abi : Abi} {p : Pass} {faulty B : Prop} {db : RadarDb} {α β : Type}

/-- Issue a command, whose failure means `B`, and continue with its answer. -/
theorem asks {c : Cmd} {f : c.Resp → Radar β} {P : β → RadarDb → Prop} (hB : faulty → B)
    (hfail : db.Raises c ∨ ¬p.Binds c → B)
    (hok : ∀ answer, db.Answers c answer → db.Fits c answer → p.Shows c answer →
      (f answer).wp (p.monitor faulty) (Prog.returnsOr B P) (db.exec c answer)) :
    (ask c >>= f).wp (p.monitor faulty) (Prog.returnsOr B P) db :=
  Prog.wp_issue_bind trivial (fun answer h => hok answer h.1 h.2.1 h.2.2) fun _ h =>
    h.elim hB hfail

theorem not_raises {c : Cmd} (h : p.Binds c ∧ ∀ answer, db.Fits c answer) :
    ¬(db.Raises c ∨ ¬p.Binds c) := by
  rintro (⟨answer, hnot⟩ | hnot)
  · exact hnot (h.2 answer)
  · exact hnot h.1

/-- The same for one that can only fail by a fault. -/
theorem gets {c : Cmd} {f : c.Resp → Radar β} {P : β → RadarDb → Prop} (hB : faulty → B)
    (hfits : p.Binds c ∧ ∀ answer, db.Fits c answer)
    (hok : ∀ answer, db.Answers c answer → db.Fits c answer → p.Shows c answer →
      (f answer).wp (p.monitor faulty) (Prog.returnsOr B P) (db.exec c answer)) :
    (ask c >>= f).wp (p.monitor faulty) (Prog.returnsOr B P) db :=
  asks hB (fun h => absurd h (not_raises hfits)) hok

/-- A window that returns holds the chain's logs; only a fault uses up the attempts. -/
theorem fetchLogsWindow_reads {fromBlock toBlock attempts failures range : ℕ} (hB : faulty → B)
    (hattempts : 0 < attempts ∨ B) (hrange : 0 < range) (hle : fromBlock ≤ toBlock) :
    (fetchLogsWindow p.chainId fromBlock toBlock attempts failures range).wp (p.monitor faulty)
      (Prog.returnsOr B fun window db' => db' = db ∧ 0 < window.range ∧
        fromBlock ≤ window.windowTo ∧ window.windowTo ≤ toBlock ∧
        window.logs = p.chain.logsIn fromBlock window.windowTo) db := by
  induction attempts generalizing failures range with
  | zero => exact hattempts.resolve_left (lt_irrefl 0)
  | succ attempts ih =>
    refine Prog.wp_bind.mpr (Prog.wp_attempt.mpr (Prog.wp_issue.mpr ⟨trivial, ?_⟩))
    rintro (e | logs) hanswer
    · have hb : B := hanswer.elim hB fun h => absurd h (not_raises ⟨trivial, fun _ => trivial⟩)
      dsimp only
      split
      · exact ih (Or.inr hb) (lt_of_lt_of_le (by decide : 0 < hardFloor) (le_max_left _ _))
      · split
        · exact hb
        · exact ih (Or.inr hb) hrange
    · obtain ⟨hfrom, hto⟩ := windowTo_bounds hrange hle
      exact ⟨rfl, adaptRange_pos hrange, hfrom, hto, hanswer.2.2⟩

/-- A pager that returns has read the logs of its span, each block once. -/
theorem pageLogs_reads {toBlock pages range cursor : ℕ} (hB : faulty → B) (hrange : 0 < range)
    (hcursor : cursor ≤ toBlock + 1) (hpages : toBlock + 1 - cursor ≤ pages) :
    (pageLogs abi p.chainId toBlock p.now pages range cursor).wp (p.monitor faulty)
      (Prog.returnsOr B fun events db' => db' = db ∧ events =
        (p.chain.logsIn cursor toBlock).filterMap (decodeMintLog abi p.chainId p.now)) db := by
  induction pages generalizing range cursor with
  | zero =>
    rw [Chain.logsIn_of_lt (by omega : toBlock < cursor)]
    exact ⟨rfl, rfl⟩
  | succ pages ih =>
    rw [pageLogs]
    split
    · next hle =>
      refine Prog.returnsOr_bind (fetchLogsWindow_reads hB (Or.inl (by omega)) hrange hle) ?_
      rintro window db' ⟨rfl, hrange', hfrom, hto, hlogs⟩
      refine Prog.returnsOr_bind (ih hrange' (by omega) (by omega)) ?_
      rintro rest db' ⟨rfl, rfl⟩
      refine ⟨rfl, ?_⟩
      rw [hlogs, ← List.filterMap_append, Chain.logsIn_append hfrom hto]
    · next hlt =>
      rw [Chain.logsIn_of_lt (by omega : toBlock < cursor)]
      exact ⟨rfl, rfl⟩

theorem startBlock_reads {checkpoint : Option Checkpoint} (hB : faulty → B) :
    (startBlock p.config p.chainId p.chain.head checkpoint).wp (p.monitor faulty)
      (Prog.returnsOr B fun started db' => db' = db ∧ started = (p.chain.forked checkpoint,
        firstBlock p.config.chainSyncInitialRange p.chain.head
          (p.chain.hash (checkpoint.elim 0 Checkpoint.blockNumber)) checkpoint)) db := by
  cases checkpoint with
  | none => exact ⟨rfl, rfl⟩
  | some checkpoint =>
    rw [startBlock, firstBlock, Chain.forked]
    by_cases hzero : checkpoint.blockNumber = 0
    · rw [if_pos hzero, if_pos hzero, decide_eq_false fun h => h.1 hzero]
      exact ⟨rfl, rfl⟩
    · rw [if_neg hzero, if_neg hzero]
      refine gets hB ⟨trivial, fun _ => trivial⟩ fun currentHash _ _ hshown => ?_
      have hshown : currentHash = p.chain.hash checkpoint.blockNumber := hshown
      subst hshown
      by_cases hsame : lower (p.chain.hash checkpoint.blockNumber) = lower checkpoint.blockHash
      · rw [if_neg (not_not.mpr hsame), decide_eq_false fun h => h.2 hsame]
        exact ⟨rfl, Prod.ext rfl (if_pos hsame).symm⟩
      · rw [if_pos hsame, decide_eq_true ⟨hzero, hsame⟩]
        exact ⟨rfl, Prod.ext rfl (if_neg hsame).symm⟩

/-- A sync that returns has decoded the span behind the checkpoint. -/
theorem syncFromCheckpoint_reads (hB : faulty → B) :
    (syncFromCheckpoint abi p.config p.chainId (p.checkpoint db) p.now).wp (p.monitor faulty)
      (Prog.returnsOr B fun result db' => db' = db ∧ result.fromBlock = p.fromBlock db ∧
        result.toBlock = p.toBlock db ∧ result.events = p.events abi db ∧
        result.reorgDetected = p.chain.forked (p.checkpoint db)) db := by
  refine gets hB ⟨trivial, fun _ => trivial⟩ fun head _ _ hshown => ?_
  have hshown : head = p.chain.head := hshown
  subst hshown
  refine Prog.returnsOr_bind (startBlock_reads hB) ?_
  rintro started db' ⟨hdb, rfl⟩
  have hdb : db = db' := hdb.symm
  subst hdb
  show Prog.wp _ (if p.toBlock db < p.fromBlock db then _ else _) _ _
  split
  · next hlt =>
    refine ⟨rfl, rfl, rfl, ?_, rfl⟩
    rw [Pass.events, Chain.logsIn_of_lt hlt]
    rfl
  · next hle =>
    have hcursor : p.fromBlock db ≤ p.toBlock db + 1 := by omega
    refine Prog.returnsOr_bind
      (pageLogs_reads hB p.config.chainSyncInitialRange_pos hcursor (le_refl _)) ?_
    rintro events db' ⟨rfl, rfl⟩
    exact ⟨rfl, rfl, rfl, rfl, rfl⟩

/-! ### Storing -/

/-- What `decodeMintLog` has made is of its chain. -/
theorem chainId_of_mem_events {e : MintEventInsert} (h : e ∈ p.events abi db) :
    e.chainId = p.chainId := by
  obtain ⟨log, -, h⟩ := List.mem_filterMap.mp h
  obtain ⟨⟨quantity, recipient⟩, -, h⟩ := Option.bind_eq_some_iff.mp h
  obtain ⟨txHash, -, h⟩ := Option.bind_eq_some_iff.mp h
  obtain ⟨blockNumber, -, h⟩ := Option.bind_eq_some_iff.mp h
  obtain ⟨blockHash, -, h⟩ := Option.bind_eq_some_iff.mp h
  obtain rfl := Option.some_inj.mp h
  rfl

theorem unfinalizeRewound_passes {finalityWindow : ℕ} {checkpoint : Option Checkpoint}
    {reorgDetected : Bool} (hB : faulty → B) :
    (unfinalizeRewound finalityWindow checkpoint reorgDetected).wp (p.monitor faulty)
      (Prog.returnsOr B fun _ db' => db' = db.rewind finalityWindow checkpoint reorgDetected)
      db := by
  cases checkpoint with
  | none => exact rfl
  | some checkpoint =>
    cases reorgDetected with
    | false => exact rfl
    | true => exact gets hB ⟨trivial, fun _ => trivial⟩ fun _ _ _ _ => rfl

theorem ensureProjects_passes {chainId : ℕ} {observedAt : ℤ} {contracts : List String}
    {byContract : List (String × ℕ)} (hB : faulty → B) :
    (ensureProjects chainId observedAt contracts byContract).wp (p.monitor faulty)
      (Prog.returnsOr B fun byContract' db' =>
        (db', byContract') = linked chainId db contracts byContract) db := by
  induction contracts generalizing db byContract with
  | nil => exact rfl
  | cons contract contracts ih =>
    rw [ensureProjects, linked]
    split
    · exact ih
    · refine gets hB ⟨trivial, fun _ => trivial⟩ fun id hanswer _ _ => ?_
      have hid : id = ((db.projectAt chainId (lower contract)).map ProjectRow.id).getD db.freshId :=
        hanswer
      subst hid
      exact ih

/-- The row fits its columns. -/
def MintEvent.FitsColumns (row : MintEvent) : Prop :=
  row.logIndex ≤ int4Max ∧ row.blockNumber ≤ int8Max ∧ row.quantity ≤ int4Max

/-- Rows are inserted unless one of them overflows a column. -/
theorem insertRows_passes {rows : List MintEvent} (hB : faulty → B)
    (hrows : ∀ row ∈ rows, ¬row.FitsColumns → B) :
    (insertRows rows).wp (p.monitor faulty) (Prog.returnsOr B fun _ db' =>
      db' = db.insertAll rows ∧ ∀ row ∈ rows, row.FitsColumns) db := by
  induction rows generalizing db with
  | nil => exact ⟨rfl, fun row hrow => absurd hrow List.not_mem_nil⟩
  | cons row rows ih =>
    refine asks hB (fun h => ?_) fun inserted _ hfits _ => ?_
    · obtain ⟨_, h⟩ := h.resolve_right (not_not.mpr trivial)
      exact hrows row List.mem_cons_self h
    refine Prog.returnsOr_bind (ih fun r hr => hrows r (List.mem_cons_of_mem row hr)) ?_
    rintro others db' ⟨rfl, hrest⟩
    exact ⟨rfl, List.forall_mem_cons.mpr ⟨hfits, hrest⟩⟩

theorem insertMintEvents_passes {events : List MintEventInsert} (hB : faulty → B)
    (hchain : ∀ e ∈ events, e.chainId = p.chainId)
    (hbinds : ¬(contractsOf events).length ≤ p.maxParameters → B)
    (hrows : ∀ byContract, ∀ row ∈ events.map (MintEventInsert.row byContract),
      ¬row.FitsColumns → B) :
    (insertMintEvents events).wp (p.monitor faulty) (Prog.returnsOr B fun _ db' =>
      db' = (p.linkedTo db events).1.insertAll
          (events.map (MintEventInsert.row (p.linkedTo db events).2)) ∧
        (contractsOf events).length ≤ p.maxParameters ∧
        ∀ row ∈ events.map (MintEventInsert.row (p.linkedTo db events).2), row.FitsColumns)
      db := by
  cases events with
  | nil => exact ⟨rfl, Nat.zero_le _, fun row hrow => absurd hrow List.not_mem_nil⟩
  | cons first events =>
    refine asks hB (fun h => ?_) fun projectRows hanswer _ hbound => ?_
    · refine hbinds (h.resolve_left ?_)
      rintro ⟨_, hnot⟩
      exact hnot trivial
    have hanswer : projectRows = db.projectsFor (contractsOf (first :: events)) := hanswer
    subst hanswer
    rw [hchain first List.mem_cons_self]
    refine Prog.returnsOr_bind (ensureProjects_passes hB) ?_
    intro byContract db' hlinked
    have hlinked : (db', byContract) = p.linkedTo db (first :: events) := hlinked
    rw [← hlinked]
    refine Prog.returnsOr_mono (insertRows_passes hB (hrows byContract)) ?_
    rintro _ db' ⟨rfl, hfits⟩
    exact ⟨rfl, hbound, hfits⟩

/-- A statement that fits while a project's events fit fails for `B` when that is what it means
that they do not. -/
theorem fails_of_not_holds {projectId : ℕ} {c : Cmd} (hfits : ¬db.Holds projectId → B)
    (hc : db.Holds projectId → ∀ answer, db.Fits c answer) (hbinds : p.Binds c)
    (h : db.Raises c ∨ ¬p.Binds c) : B := by
  obtain ⟨answer, h⟩ := h.resolve_right (not_not.mpr hbinds)
  exact hfits fun hholds => h (hc hholds answer)

theorem refreshAggregates_passes {projectId : ℕ} (hB : faulty → B)
    (hfits : ¬db.Holds projectId → B) :
    (refreshAggregates projectId).wp (p.monitor faulty) (Prog.returnsOr B fun _ db' =>
      db' = ((db.exec (.refreshBuckets .fiveMinutes projectId)
          (p.dbNow (.refreshBuckets .fiveMinutes projectId))).exec
        (.refreshBuckets .hour projectId) (p.dbNow (.refreshBuckets .hour projectId))).exec
          (.refreshActivitySnapshot projectId) (p.dbNow (.refreshActivitySnapshot projectId)))
      db := by
  refine asks hB (fails_of_not_holds hfits (fun h _ => h.fits_buckets) trivial) ?_
  rintro _ _ _ rfl
  refine asks hB (fails_of_not_holds hfits (fun h _ => h.fits_buckets) trivial) ?_
  rintro _ _ _ rfl
  refine asks hB (fails_of_not_holds hfits (fun h _ => h.fits_activity) trivial) ?_
  rintro _ _ _ rfl
  exact rfl

/-- The total over all events is what must fit: no other figure exceeds it. -/
theorem refreshHolderSnapshot_passes {projectId : ℕ} (hB : faulty → B)
    (hfits : ¬db.Holds projectId → B) :
    (refreshHolderSnapshot projectId).wp (p.monitor faulty) (Prog.returnsOr B fun _ db' =>
      db.Holds projectId ∧
        ∃ groups, groups.Perm (quantitiesByRecipient db.events.rows projectId) ∧
          db' = db.exec (.upsertHolderSnapshot projectId (computeHolderConcentration groups)) ())
      db := by
  refine asks hB (fails_of_not_holds hfits (fun h answer => h.fits_groups answer) trivial) ?_
  intro groups hgroups _ _
  have hgroups : groups.Perm (quantitiesByRecipient db.events.rows projectId) := hgroups
  obtain ⟨htotal, hholders, -⟩ := holders_of_groups hgroups
  refine Prog.wp_issue.mpr ⟨trivial, ?_⟩
  rintro (e | _) hx
  · refine hx.elim hB (fails_of_not_holds hfits (fun h _ => ?_) trivial)
    exact RadarDb.FitsColumns.mono h (le_of_eq htotal) (le_of_eq hholders)
  · exact ⟨RadarDb.FitsColumns.mono hx.2.1 (le_of_eq htotal.symm) (le_of_eq hholders.symm),
      groups, hgroups, rfl⟩

/-- What the recomputations leave as it is. -/
structure SameRows (db db' : RadarDb) : Prop where
  events : db'.events = db.events
  checkpoints : db'.checkpoints = db.checkpoints

theorem refreshProjects_passes {projectIds : List ℕ} (hB : faulty → B)
    (hfits : ∀ id ∈ projectIds, ¬db.Holds id → B) :
    (refreshProjects projectIds).wp (p.monitor faulty) (Prog.returnsOr B fun _ db' =>
      SameRows db db' ∧ (∀ id ∈ projectIds, db.Holds id) ∧
        ∀ id, id ∈ projectIds ∨ p.Recomputed db id → p.Recomputed db' id) db := by
  induction projectIds generalizing db with
  | nil =>
    refine ⟨⟨rfl, rfl⟩, fun id hid => absurd hid List.not_mem_nil, fun id h => ?_⟩
    exact h.resolve_left List.not_mem_nil
  | cons projectId projectIds ih =>
    have hfirst := hfits projectId List.mem_cons_self
    refine Prog.returnsOr_bind (refreshAggregates_passes hB hfirst) ?_
    rintro _ _ rfl
    refine Prog.returnsOr_bind (refreshHolderSnapshot_passes hB hfirst) ?_
    rintro _ _ ⟨hholds, groups, hgroups, rfl⟩
    -- the events are still those the recomputations started from
    have hrest := @ih (p.recompute db projectId (computeHolderConcentration groups))
      fun id hid => hfits id (List.mem_cons_of_mem projectId hid)
    refine Prog.returnsOr_mono hrest ?_
    rintro _ db' ⟨hsame, hothers, hexact⟩
    refine ⟨⟨hsame.events, hsame.checkpoints⟩, List.forall_mem_cons.mpr ⟨hholds, hothers⟩, ?_⟩
    intro id hid
    refine hexact id ?_
    by_cases heq : id = projectId
    · subst heq
      exact Or.inr (recomputed_recompute hgroups)
    · rcases hid with hid | hid
      · exact Or.inl ((List.mem_cons.mp hid).resolve_left heq)
      · exact Or.inr (hid.recompute heq)

theorem refreshTouched_passes {events : List MintEventInsert} (hB : faulty → B)
    (hbinds : (contractsOf events).length ≤ p.maxParameters)
    (hfits : ∀ id ∈ (db.projectsFor (contractsOf events)).map Prod.snd, ¬db.Holds id → B) :
    (refreshTouched events).wp (p.monitor faulty) (Prog.returnsOr B fun _ db' =>
      SameRows db db' ∧
        ∀ id ∈ (db.projectsFor (contractsOf events)).map Prod.snd,
          db.Holds id ∧ p.Recomputed db' id) db := by
  refine Prog.returnsOr_bind (P := fun ids db' =>
    db' = db ∧ ids = (db.projectsFor (contractsOf events)).map Prod.snd) ?_ ?_
  · rw [projectIdsForContracts]
    split
    · next hnone =>
      refine ⟨rfl, ?_⟩
      rw [hnone, RadarDb.projectsFor, List.filterMap_eq_nil_iff.mpr]
      · rfl
      · intro r _
        cases r.contractAddress with
        | none => rfl
        | some contract => exact if_neg List.not_mem_nil
    · refine Prog.wp_issue.mpr ⟨trivial, ?_⟩
      rintro (e | ids) hx
      · exact hx.elim hB fun h => absurd h (not_raises ⟨hbinds, fun _ => trivial⟩)
      · exact ⟨rfl, hx.1⟩
  · rintro ids _ ⟨rfl, rfl⟩
    refine Prog.returnsOr_mono (refreshProjects_passes hB hfits) ?_
    rintro _ db' ⟨hsame, hholds, hexact⟩
    exact ⟨hsame, fun id hid => ⟨hholds id hid, hexact id (Or.inl hid)⟩⟩

/-! ### The pass -/

/-- What the pass writes fits its columns: what its events say of themselves, and the sum and the
count over all events of every project it touches; and its contracts are no more than the driver
binds. -/
structure Pass.Castable (abi : Abi) (p : Pass) (db : RadarDb) : Prop where
  events : ∀ e ∈ p.events abi db, e.logIndex ≤ int4Max ∧ e.blockNumber ≤ int8Max
  contracts : (contractsOf (p.events abi db)).length ≤ p.maxParameters
  projects : ∀ id ∈ p.touched abi db, (p.settled abi db).Holds id

/-- The pass has reached its checkpoint, and recomputed every project it touched. -/
structure Pass.Completed (abi : Abi) (p : Pass) (db : RadarDb) (summary : ChainSyncSummary)
    (db' : RadarDb) : Prop where
  synced : summary.synced = true
  fromBlock : summary.fromBlock = some (p.fromBlock db)
  toBlock : summary.toBlock = some (p.toBlock db)
  reorg : summary.reorg = p.chain.forked (p.checkpoint db)
  events : db'.events = (p.settled abi db).events
  figures : ∀ id ∈ p.touched abi db, p.Recomputed db' id
  checkpoint : db'.checkpoints.get? (p.chainId, p.provider.id) =
    some ⟨p.chainId, p.provider.id, ⟨p.toBlock db, p.chain.hash (p.toBlock db)⟩⟩

/-- One log counts for a million at most. -/
theorem quantity_le_of_mintedBy {log : Log} {minted : ℕ × String}
    (h : mintedBy abi log = some minted) : minted.1 ≤ maxQuantity := by
  rw [mintedBy] at h
  split at h
  · cases h
  · split at h
    · obtain ⟨sender, -, h⟩ := Option.bind_eq_some_iff.mp h
      obtain ⟨recipient, -, h⟩ := Option.bind_eq_some_iff.mp h
      split at h
      · obtain rfl := Option.some_inj.mp h
        exact (by decide : 1 ≤ maxQuantity)
      · cases h
    · split at h
      · obtain ⟨sender, -, h⟩ := Option.bind_eq_some_iff.mp h
        obtain ⟨recipient, -, h⟩ := Option.bind_eq_some_iff.mp h
        split at h
        · obtain ⟨value, -, h⟩ := Option.bind_eq_some_iff.mp h
          obtain rfl := Option.some_inj.mp h
          exact min_le_right _ _
        · cases h
      · split at h
        · obtain ⟨sender, -, h⟩ := Option.bind_eq_some_iff.mp h
          obtain ⟨recipient, -, h⟩ := Option.bind_eq_some_iff.mp h
          split at h
          · obtain ⟨values, -, h⟩ := Option.bind_eq_some_iff.mp h
            obtain rfl := Option.some_inj.mp h
            exact min_le_right _ _
          · cases h
        · cases h

theorem quantity_le_of_mem_events {e : MintEventInsert} (h : e ∈ p.events abi db) :
    e.quantity ≤ int4Max := by
  obtain ⟨log, -, h⟩ := List.mem_filterMap.mp h
  obtain ⟨⟨quantity, recipient⟩, hminted, h⟩ := Option.bind_eq_some_iff.mp h
  obtain ⟨txHash, -, h⟩ := Option.bind_eq_some_iff.mp h
  obtain ⟨blockNumber, -, h⟩ := Option.bind_eq_some_iff.mp h
  obtain ⟨blockHash, -, h⟩ := Option.bind_eq_some_iff.mp h
  obtain rfl := Option.some_inj.mp h
  exact (quantity_le_of_mintedBy hminted).trans (by decide)

/-- The rows of a pass fit as far as its events do. -/
theorem row_fitsColumns_iff {e : MintEventInsert} (h : e ∈ p.events abi db)
    (byContract : List (String × ℕ)) :
    (e.row byContract).FitsColumns ↔ e.logIndex ≤ int4Max ∧ e.blockNumber ≤ int8Max := by
  constructor
  · intro hrow
    exact ⟨hrow.1, hrow.2.1⟩
  · intro hevent
    exact ⟨hevent.1, hevent.2, quantity_le_of_mem_events h⟩

theorem syncWindow_passes (hB : faulty → B) (hcast : ¬p.Castable abi db → B) :
    (syncWindow abi p.config p.chainId p.provider (p.checkpoint db)).wp (p.monitor faulty)
      (Prog.returnsOr B fun summary db' => p.Completed abi db summary db' ∧ p.Castable abi db)
      db := by
  refine gets hB ⟨trivial, fun _ => trivial⟩ fun now _ _ hnow => ?_
  have hnow : now = p.now := hnow
  subst hnow
  refine Prog.returnsOr_bind (syncFromCheckpoint_reads hB) ?_
  rintro ⟨fromBlock, toBlock, events, reorgDetected, rangeUsed, lag⟩ db' ⟨hdb, rfl, rfl, rfl, rfl⟩
  have hdb : db = db' := hdb.symm
  subst hdb
  refine Prog.returnsOr_bind (unfinalizeRewound_passes hB) ?_
  rintro _ _ rfl
  have hrows : ∀ byContract, ∀ row ∈ (p.events abi db).map (MintEventInsert.row byContract),
      ¬row.FitsColumns → B := by
    intro byContract row hrow hnot
    obtain ⟨e, he, rfl⟩ := List.mem_map.mp hrow
    exact hcast fun h => hnot ((row_fitsColumns_iff he byContract).mpr (h.events e he))
  refine Prog.returnsOr_bind
    (insertMintEvents_passes hB (fun e he => chainId_of_mem_events he)
      (fun hnot => hcast fun h => hnot h.contracts) hrows) ?_
  rintro inserted _ ⟨rfl, hcontracts, hinserted⟩
  refine gets hB ⟨trivial, fun _ => trivial⟩ fun finalized _ _ _ => ?_
  refine Prog.returnsOr_bind (refreshTouched_passes hB hcontracts
    fun id hid hnot => hcast fun h => hnot (h.projects id hid)) ?_
  rintro _ db' ⟨hsame, htouched⟩
  refine gets hB ⟨trivial, fun _ => trivial⟩ fun blockHash _ _ hhash => ?_
  have hhash : blockHash = p.chain.hash (p.toBlock db) := hhash
  subst hhash
  refine gets hB ⟨trivial, fun _ => trivial⟩ fun _ _ _ _ => ?_
  refine gets hB ⟨trivial, fun _ => trivial⟩ fun _ _ _ _ => ?_
  refine gets hB ⟨trivial, fun _ => trivial⟩ fun _ _ _ _ => ?_
  refine ⟨⟨rfl, rfl, rfl, rfl, hsame.events, fun id hid => ?_, ?_⟩, ?_, hcontracts, ?_⟩
  · obtain ⟨-, hbuckets, hactivity, hholders⟩ := htouched id hid
    exact ⟨hbuckets, hactivity, hholders⟩
  · exact Table.get?_upsert.trans (if_pos rfl)
  · intro e he
    exact (row_fitsColumns_iff he _).mp (hinserted _ (List.mem_map_of_mem he))
  · intro id hid
    exact (htouched id hid).1

/-- **A pass** that reports its chain as synced has reached its checkpoint, and what it has
written fits; that it has not means a fault or an overflow. -/
theorem syncChain_passes (hB : faulty → B) (hcast : ¬p.Castable abi db → B) :
    (syncChain abi p.config p.chainId).wp (p.monitor faulty)
      (Prog.returnsOr B fun summary db' =>
        (summary.synced = true → p.Completed abi db summary db' ∧ p.Castable abi db) ∧
          (summary.synced = false → B)) db := by
  refine gets hB ⟨trivial, fun _ => trivial⟩ fun url _ _ hurl => ?_
  have hurl : url = some p.url := hurl
  subst hurl
  split
  · next h => cases h
  · next h => exact absurd (Option.some_inj.mp h) p.url_ne
  · refine gets hB ⟨trivial, fun _ => trivial⟩ fun provider _ _ hprovider => ?_
    have hprovider : provider = p.provider := hprovider
    subst hprovider
    rw [if_neg (by rw [p.enabled]; decide)]
    refine gets hB ⟨trivial, fun _ => trivial⟩ fun checkpoint hread _ _ => ?_
    have hread : checkpoint = p.checkpoint db := hread
    subst hread
    refine Prog.wp_tryCatch_of (syncWindow_passes hB hcast) ?_ ?_
    · intro summary db' h
      exact ⟨fun _ => h, fun hsynced => absurd (h.1.synced.symm.trans hsynced) (by decide)⟩
    · intro e db' hb
      exact asks hB (fun _ => hb) fun _ _ _ _ => ⟨fun h => absurd h (by decide), fun _ => hb⟩

/-- The tables, the registry and the chain answer every command, or it overflows a column. -/
theorem Pass.exists_allowed (p : Pass) (db : RadarDb) (c : Cmd) :
    ∃ x, (p.monitor faulty).allowed db c x := by
  have hanswer : ∃ answer, db.Answers c answer ∧ (p.Binds c → p.Shows c answer) := by
    cases c with
    | now | resolveBestRpcUrl | ensureProvider | getBlockNumber | getBlock | getLogs
    | refreshBuckets | refreshActivitySnapshot => exact ⟨_, trivial, fun _ => rfl⟩
    | selectProjects | projectIdsForContracts => exact ⟨_, rfl, id⟩
    | getCheckpoint | ensureContractProject | insertMintEvent | markEventsFinalized
    | unfinalizeFromBlock => exact ⟨_, rfl, fun _ => trivial⟩
    | sumByRecipient => exact ⟨_, List.Perm.refl _, fun _ => trivial⟩
    | distinctEnabledRpcChainIds => exact ⟨[], trivial, fun _ => trivial⟩
    | upsertHolderSnapshot | saveCheckpoint | markProviderHealth | publishEvent =>
      exact ⟨(), trivial, fun _ => trivial⟩
  obtain ⟨answer, hanswers, hshows⟩ := hanswer
  by_cases hfits : db.Fits c answer
  · by_cases hbinds : p.Binds c
    · exact ⟨.ok answer, hanswers, hfits, hshows hbinds⟩
    · exact ⟨.error unavailable, Or.inr (Or.inr hbinds)⟩
  · exact ⟨.error unavailable, Or.inr (Or.inl ⟨answer, hfits⟩)⟩

/-- A pass that overflows nothing has a run, and it completes. -/
theorem exists_completed (h : p.Castable abi db) :
    ∃ tr summary, (syncChain abi p.config p.chainId).Runs tr (.finished (.ok summary)) ∧
      (p.monitor False).Admits db tr ∧
        p.Completed abi db summary ((p.monitor False).after db tr) := by
  have hpasses : (syncChain abi p.config p.chainId).wp (p.monitor False)
      (Prog.returnsOr (¬p.Castable abi db) fun summary db' => (summary.synced = true →
        p.Completed abi db summary db' ∧ p.Castable abi db) ∧
          (summary.synced = false → ¬p.Castable abi db))
      db := syncChain_passes False.elim id
  obtain ⟨tr, r, hruns, hadmits, hend⟩ :=
    Prog.exists_run (Prog.may_of_wp p.exists_allowed hpasses)
  cases r with
  | error e => exact absurd h hend
  | ok summary =>
    cases hsynced : summary.synced with
    | false => exact absurd h (hend.2 hsynced)
    | true => exact ⟨tr, summary, hruns, hadmits, (hend.1 hsynced).1⟩

end

end ChainRadar
