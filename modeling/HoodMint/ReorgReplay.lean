/-
A reorganisation replayed (`apps/worker/src/workers/chain.ts`, `packages/providers/src/chain/rpc.ts`,
`packages/db/src/repositories/onchain.ts`, `packages/db/src/repositories/ops.ts`).

Rows are inserted where none has their key, and none is ever removed or moved.

* `Mint` — a mint event as a block holds it;
* `Replayed`, `Unmoved` — after the pass the tables hold the mints of the blocks it covers, and
  before it nothing else that was there;
* `replayed_iff_unmoved` — the one is the other, in every pass that completes;
* `orphan_survives` — a mint that its chain has dropped stays.
-/
import HoodMint.ChainPass

namespace ChainRadar

open Effect Relational
open Text (lower)

/-! ### Mints -/

/-- A mint event as a block holds it. -/
structure Mint where
  txHash : String
  logIndex : ℕ
  blockNumber : ℕ
  blockHash : String
  recipient : String
  quantity : ℕ
deriving DecidableEq

/-- A stored one. -/
def MintEvent.mint (e : MintEvent) : Mint :=
  ⟨e.txHash, e.logIndex, e.blockNumber, e.blockHash, e.recipient, e.quantity⟩

/-- One that has been decoded. -/
def MintEventInsert.mint (e : MintEventInsert) : Mint :=
  ⟨lower e.txHash, e.logIndex, e.blockNumber, lower e.blockHash, lower e.recipient, e.quantity⟩

/-- The mint is stored for the chain. -/
def Stored (db : RadarDb) (chainId : ℕ) (m : Mint) : Prop :=
  ∃ e ∈ db.events, e.chainId = chainId ∧ e.mint = m

namespace Pass

variable (abi : Abi) (p : Pass) (db : RadarDb)

/-- The mints of the blocks the pass covers. -/
def mints : List Mint := (p.events abi db).map MintEventInsert.mint

/-- In the blocks of the pass the tables hold the mints of the chain, and no others. -/
def Replayed (db' : RadarDb) : Prop :=
  ∀ m : Mint, p.fromBlock db ≤ m.blockNumber → m.blockNumber ≤ p.toBlock db →
    (Stored db' p.chainId m ↔ m ∈ p.mints abi db)

/-- No stored mint of these blocks has been dropped or moved, and none of other blocks has been
moved to them. -/
def Unmoved : Prop :=
  ∀ m, Stored db p.chainId m →
    (p.fromBlock db ≤ m.blockNumber → m.blockNumber ≤ p.toBlock db → m ∈ p.mints abi db) ∧
    ∀ m' ∈ p.mints abi db, m.txHash = m'.txHash → m.logIndex = m'.logIndex → m = m'

end Pass

/-! ### What a pass stores -/

section

variable {abi : Abi} {p : Pass} {db db' : RadarDb} {m m' : Mint}

/-- An event is decoded from a log of its block. -/
theorem log_of_mem_events {e : MintEventInsert} (h : e ∈ p.events abi db) :
    ∃ n log, p.fromBlock db ≤ n ∧ n ≤ p.toBlock db ∧ log ∈ p.chain.logsAt n ∧
      decodeMintLog abi p.chainId p.now log = some e ∧ e.blockNumber = n ∧
      log.transactionHash.map lower = some (lower e.txHash) ∧ log.logIndex = some e.logIndex := by
  obtain ⟨log, hlog, hdecode⟩ := List.mem_filterMap.mp h
  obtain ⟨n, hfrom, hto, hlog⟩ := Chain.mem_logsIn.mp hlog
  refine ⟨n, log, hfrom, hto, hlog, hdecode, ?_⟩
  obtain ⟨hnumber, -, -, hindex⟩ := p.chain.mined n log hlog
  obtain ⟨⟨quantity, recipient⟩, -, h⟩ := Option.bind_eq_some_iff.mp hdecode
  obtain ⟨txHash, htx, h⟩ := Option.bind_eq_some_iff.mp h
  obtain ⟨blockNumber, hblock, h⟩ := Option.bind_eq_some_iff.mp h
  obtain ⟨blockHash, -, h⟩ := Option.bind_eq_some_iff.mp h
  obtain rfl := Option.some_inj.mp h
  obtain ⟨i, hi⟩ := Option.isSome_iff_exists.mp hindex
  refine ⟨Option.some_inj.mp (hblock.symm.trans hnumber), ?_, ?_⟩
  · rw [htx]
    rfl
  · show log.logIndex = some (log.logIndex.getD 0)
    rw [hi]
    rfl

/-- A mint of the pass is in one of its blocks. -/
theorem block_of_mem_mints (h : m ∈ p.mints abi db) :
    p.fromBlock db ≤ m.blockNumber ∧ m.blockNumber ≤ p.toBlock db := by
  obtain ⟨e, he, rfl⟩ := List.mem_map.mp h
  obtain ⟨n, log, hfrom, hto, -, -, hblock, -, -⟩ := log_of_mem_events he
  have hblock : e.mint.blockNumber = n := hblock
  rw [hblock]
  exact ⟨hfrom, hto⟩

/-- On one chain a mint is known by its transaction and index. -/
theorem eq_of_mem_mints (h : m ∈ p.mints abi db) (h' : m' ∈ p.mints abi db)
    (htx : m.txHash = m'.txHash) (hindex : m.logIndex = m'.logIndex) : m = m' := by
  obtain ⟨e, he, rfl⟩ := List.mem_map.mp h
  obtain ⟨e', he', rfl⟩ := List.mem_map.mp h'
  obtain ⟨n, log, -, -, hlog, hdecode, -, hhash, hi⟩ := log_of_mem_events he
  obtain ⟨n', log', -, -, hlog', hdecode', -, hhash', hi'⟩ := log_of_mem_events he'
  have htx : lower e.txHash = lower e'.txHash := htx
  have hindex : e.logIndex = e'.logIndex := hindex
  have heq : log = log' := by
    refine p.chain.unique n n' log hlog log' hlog' ?_ ?_
    · rw [hhash, hhash', htx]
    · rw [hi, hi', hindex]
  subst heq
  rw [Option.some_inj.mp (hdecode.symm.trans hdecode')]

/-- What is stored of a chain, by the columns that tell. -/
theorem stored_of_map (h : db.events.rows.map (fun e => (e.chainId, e.mint)) =
    db'.events.rows.map fun e => (e.chainId, e.mint)) {chainId : ℕ} :
    Stored db chainId m ↔ Stored db' chainId m := by
  have hmem : ∀ db : RadarDb, Stored db chainId m ↔
      (chainId, m) ∈ db.events.rows.map fun e => (e.chainId, e.mint) := by
    intro db
    rw [List.mem_map]
    constructor
    · rintro ⟨e, he, rfl, rfl⟩
      exact ⟨e, he, rfl⟩
    · rintro ⟨e, he, heq⟩
      obtain ⟨hchain, hmint⟩ := Prod.mk.inj heq
      exact ⟨e, he, hchain, hmint⟩
  rw [hmem db, hmem db', h]

theorem stored_start : Stored (p.start db) p.chainId m ↔ Stored db p.chainId m :=
  stored_of_map (start_map fun _ _ => rfl)

/-- **What is stored once a pass has inserted its events**: what was, and of its mints those whose
transaction and index were not. -/
theorem stored_settled : Stored (p.settled abi db) p.chainId m →
    Stored db p.chainId m ∨ (m ∈ p.mints abi db ∧ ∀ m', Stored db p.chainId m' →
      ¬(m'.txHash = m.txHash ∧ m'.logIndex = m.logIndex)) := by
  intro h
  have h : Stored ((p.start db).insertAll (p.rows abi db)) p.chainId m :=
    (stored_of_map (settled_map fun _ _ => rfl)).mp h
  obtain ⟨e, he, hchain, rfl⟩ := h
  rcases Table.mem_foldl_insert he with he | ⟨he, hnew⟩
  · exact Or.inl (stored_start.mp ⟨e, he, hchain, rfl⟩)
  · obtain ⟨event, hevent, rfl⟩ := List.mem_map.mp he
    refine Or.inr ⟨List.mem_map_of_mem hevent, fun m' hm' hkey => ?_⟩
    obtain ⟨e', he', hchain', rfl⟩ := stored_start.mpr hm'
    refine hnew e' he' ?_
    show (e'.chainId, e'.txHash, e'.logIndex) = (event.chainId, lower event.txHash, event.logIndex)
    rw [hchain', chainId_of_mem_events hevent]
    exact congrArg _ (Prod.ext hkey.1 hkey.2)

/-- What was stored stays. -/
theorem Stored.settled (h : Stored db p.chainId m) : Stored (p.settled abi db) p.chainId m := by
  obtain ⟨e, he, hchain, hmint⟩ := stored_start.mpr h
  have hkept : Stored ((p.start db).insertAll (p.rows abi db)) p.chainId m :=
    ⟨e, Table.mem_foldl_insert_of_mem he, hchain, hmint⟩
  exact (stored_of_map (settled_map fun _ _ => rfl)).mpr hkept

/-- Of each mint of the pass something is stored under its transaction and index. -/
theorem exists_stored_settled (h : m ∈ p.mints abi db) :
    ∃ m', Stored (p.settled abi db) p.chainId m' ∧ m'.txHash = m.txHash ∧
      m'.logIndex = m.logIndex := by
  obtain ⟨event, hevent, rfl⟩ := List.mem_map.mp h
  have hrow : event.row (p.linkedTo (p.start db) (p.events abi db)).2 ∈ p.rows abi db :=
    List.mem_map_of_mem hevent
  obtain ⟨e, he, hkey⟩ := Table.exists_foldl_insert (t := (p.start db).events) hrow
  have hkey : (e.chainId, e.txHash, e.logIndex) =
      (event.chainId, lower event.txHash, event.logIndex) := hkey
  obtain ⟨hchain, hkey⟩ := Prod.mk.inj hkey
  obtain ⟨htx, hindex⟩ := Prod.mk.inj hkey
  have hstored : Stored ((p.start db).insertAll (p.rows abi db)) p.chainId e.mint :=
    ⟨e, he, hchain.trans (chainId_of_mem_events hevent), rfl⟩
  exact ⟨e.mint, (stored_of_map (settled_map fun _ _ => rfl)).mpr hstored, htx, hindex⟩

/-- **Replay against what was stored.** -/
theorem replayed_settled_iff : p.Replayed abi db (p.settled abi db) ↔ p.Unmoved abi db := by
  constructor
  · intro h m hm
    have hstays : Stored (p.settled abi db) p.chainId m := hm.settled
    refine ⟨fun hfrom hto => (h m hfrom hto).mp hstays, fun m' hm' htx hindex => ?_⟩
    -- the tables hold one row for a transaction and an index
    obtain ⟨hfrom, hto⟩ := block_of_mem_mints hm'
    obtain ⟨e', he', hchain', rfl⟩ := (h m' hfrom hto).mpr hm'
    obtain ⟨e, he, hchain, rfl⟩ := hstays
    have hkey : e.key = e'.key := by
      show (e.chainId, e.txHash, e.logIndex) = (e'.chainId, e'.txHash, e'.logIndex)
      rw [hchain, hchain']
      exact congrArg _ (Prod.ext htx hindex)
    rw [Table.eq_of_key he he' hkey]
  · intro h m hfrom hto
    constructor
    · intro hstored
      rcases stored_settled hstored with hold | ⟨hnew, -⟩
      · exact (h m hold).1 hfrom hto
      · exact hnew
    · intro hm
      obtain ⟨m', hm', htx, hindex⟩ := exists_stored_settled hm
      have heq : m' = m := by
        rcases stored_settled hm' with hold | ⟨hnew, -⟩
        · exact (h m' hold).2 m hm htx hindex
        · exact eq_of_mem_mints hnew hm htx hindex
      exact heq ▸ hm'

/-- Only the stored events count. -/
theorem replayed_congr (h : db'.events = (p.settled abi db).events) :
    p.Replayed abi db db' ↔ p.Replayed abi db (p.settled abi db) := by
  have hstored : ∀ m, Stored db' p.chainId m ↔ Stored (p.settled abi db) p.chainId m := by
    intro m
    rw [Stored, h]
    exact Iff.rfl
  simp only [Pass.Replayed, hstored]

/-- **A replay converges to the chain** exactly when no stored mint of the blocks it replays has
been dropped, and none has been moved into or within them: in every pass that completes, whatever
failed on the way and whether it detected a reorganisation or not. -/
theorem replayed_iff_unmoved {faulty : Prop} {tr : List (Event signature Thrown)}
    {summary : ChainSyncSummary}
    (hruns : (syncChain abi p.config p.chainId).Runs tr (.finished (.ok summary)))
    (hadmits : (p.monitor faulty).Admits db tr) (hsynced : summary.synced = true) :
    p.Replayed abi db ((p.monitor faulty).after db tr) ↔ p.Unmoved abi db := by
  have hpasses : (syncChain abi p.config p.chainId).wp (p.monitor faulty)
      (Prog.returnsOr True fun summary db' => (summary.synced = true →
        p.Completed abi db summary db' ∧ p.Castable abi db) ∧ (summary.synced = false → True))
      db := syncChain_passes (fun _ => trivial) fun _ => trivial
  obtain ⟨hcompleted, -⟩ := ((Prog.sound hpasses hruns hadmits).2 _ rfl).1 hsynced
  exact (replayed_congr hcompleted.events).trans replayed_settled_iff

end

/-! ### An orphan -/

namespace Sample

/-- A chain whose blocks hold no logs. -/
def quietChain : Chain where
  head := 100
  hash _ := "0xb"
  logsAt _ := []
  mined _ _ h := absurd h List.not_mem_nil
  unique _ _ _ h := absurd h List.not_mem_nil

def quietAbi : Abi := ⟨fun _ => none, fun _ => none⟩

def quietPass : Pass :=
  { config := ⟨4663, none, 500, range_pos⟩, chainId := 4663, chain := quietChain, now := 0
    dbNow _ := 0, maxParameters := 65534
    url := "https://rpc", url_ne, provider := ⟨"rpc", true⟩, enabled := provider_enabled }

/-- A mint of block 95, which was there when block 100 had another hash. -/
def orphan : MintEvent := ⟨4663, "0x1", 0, 95, "0xa95", none, "0xbeef", 1, false, 0⟩

def forkedTables : RadarDb :=
  { events := .insert .empty orphan, projects := .empty
    checkpoints := .insert .empty ⟨4663, "rpc", ⟨100, "0xa"⟩⟩, aggregates := .empty
    activity := .empty, holders := .empty }

theorem events_quiet (db : RadarDb) : quietPass.events quietAbi db = [] := by
  have hlogs : ∀ fromBlock toBlock, quietChain.logsIn fromBlock toBlock = [] := fun _ _ =>
    List.flatMap_eq_nil_iff.mpr fun _ _ => rfl
  exact congrArg (List.filterMap _) (hlogs _ _)

theorem castable_quiet : quietPass.Castable quietAbi forkedTables := by
  refine ⟨fun e he => ?_, ?_, fun id hid => ?_⟩
  · exact absurd (events_quiet forkedTables ▸ he) List.not_mem_nil
  · rw [events_quiet]
    exact Nat.zero_le _
  · rw [Pass.touched, events_quiet] at hid
    exact absurd hid List.not_mem_nil

theorem orphan_stored : Stored forkedTables 4663 orphan.mint :=
  ⟨orphan, List.mem_cons_self, rfl, rfl⟩

/-- Block 95 is replayed, and the chain has nothing in it. -/
theorem not_unmoved_quiet : ¬quietPass.Unmoved quietAbi forkedTables := by
  intro h
  have hmem := (h orphan.mint orphan_stored).1 (by decide) (by decide)
  rw [Pass.mints, events_quiet] at hmem
  exact List.not_mem_nil hmem

end Sample

theorem replayed_iff_unmoved_quiet :
    ∃ tr summary, (syncChain Sample.quietAbi Sample.quietPass.config 4663).Runs tr
        (.finished (.ok summary)) ∧ summary.reorg = true ∧
      (Sample.quietPass.Replayed Sample.quietAbi Sample.forkedTables
        ((Sample.quietPass.monitor False).after Sample.forkedTables tr) ↔
          Sample.quietPass.Unmoved Sample.quietAbi Sample.forkedTables) := by
  obtain ⟨tr, summary, hruns, hadmits, hcompleted⟩ := exists_completed Sample.castable_quiet
  refine ⟨tr, summary, hruns, ?_, replayed_iff_unmoved hruns hadmits hcompleted.synced⟩
  rw [hcompleted.reorg]
  decide

/-- **An orphan survives** the pass that detects the reorganisation and replays its block. -/
theorem orphan_survives :
    ∃ tr summary, (syncChain Sample.quietAbi Sample.quietPass.config 4663).Runs tr
        (.finished (.ok summary)) ∧ (Sample.quietPass.monitor False).Admits Sample.forkedTables tr ∧
      summary.synced = true ∧ summary.reorg = true ∧
        ¬Sample.quietPass.Replayed Sample.quietAbi Sample.forkedTables
          ((Sample.quietPass.monitor False).after Sample.forkedTables tr) := by
  obtain ⟨tr, summary, hruns, hadmits, hcompleted⟩ := exists_completed Sample.castable_quiet
  refine ⟨tr, summary, hruns, hadmits, hcompleted.synced, ?_, fun h => ?_⟩
  · rw [hcompleted.reorg]
    decide
  · have hreplayed := (replayed_congr hcompleted.events).mp h
    exact Sample.not_unmoved_quiet (replayed_settled_iff.mp hreplayed)

end ChainRadar
