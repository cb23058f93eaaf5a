/-
Chain data against the columns of the radar (`packages/db/src/repositories/onchain.ts`).

* `ReachesCheckpoint` — with every answer from the endpoint and every statement carried out, a
  pass writes its checkpoint, and its figures are exact;
* `reaches_checkpoint_iff` — it does exactly when the events of every project it touches sum up
  to an `integer`, and the 48 hours leave out nothing that counts;
* `flood_stops_checkpoint` — the logs of one contract in one block that sum up to more.
-/
import HoodMint.ChainPass

namespace ChainRadar

open Effect Relational
open Text (lower)

variable {abi : Abi} {p : Pass} {db : RadarDb}

/-- Every run of a pass in which the endpoint answers and only a cast or a column, or the driver,
can make a statement fail writes the checkpoint, and leaves exact figures of all projects it
touched. -/
def ReachesCheckpoint (abi : Abi) (p : Pass) (db : RadarDb) : Prop :=
  ∀ tr r, (syncChain abi p.config p.chainId).Runs tr (.finished r) →
    (p.monitor False).Admits db tr → ∃ summary, r = .ok summary ∧
      p.Completed abi db summary ((p.monitor False).after db tr) ∧
      ∀ id ∈ p.touched abi db, p.ExactFigures ((p.monitor False).after db tr) id

/-- Of no bucket that the pass recomputes the cutoff leaves out something that counts. -/
def Pass.Uncut (abi : Abi) (p : Pass) (db : RadarDb) : Prop :=
  ∀ id ∈ p.touched abi db, ∀ size,
    (p.settled abi db).Uncut size id (p.dbNow (.refreshBuckets size id))

/-- A pass that has reached its checkpoint has left exact figures, unless a bucket was cut. -/
theorem exact_iff_uncut {summary : ChainSyncSummary} {db' : RadarDb}
    (h : p.Completed abi db summary db') :
    (∀ id ∈ p.touched abi db, p.ExactFigures db' id) ↔ p.Uncut abi db := by
  refine forall₂_congr fun id hid => (exactFigures_iff (h.figures id hid)).trans ?_
  simp only [RadarDb.Uncut, h.events]

/-- A pass that always reaches its checkpoint overflows nothing: some run is finished, and no
figure exceeds the total of its project. -/
theorem castable_of_reaches (h : ReachesCheckpoint abi p db) : p.Castable abi db := by
  have hpasses : (syncChain abi p.config p.chainId).wp (p.monitor False)
      (Prog.returnsOr True fun summary db' => (summary.synced = true →
        p.Completed abi db summary db' ∧ p.Castable abi db) ∧ (summary.synced = false → True))
      db := syncChain_passes (fun _ => trivial) fun _ => trivial
  obtain ⟨tr, r, hruns, hadmits, hend⟩ :=
    Prog.exists_run (Prog.may_of_wp p.exists_allowed hpasses)
  obtain ⟨summary, rfl, hcompleted, _⟩ := h tr r hruns hadmits
  exact (hend.1 hcompleted.synced).2

/-- And it cuts no bucket. -/
theorem uncut_of_reaches (h : ReachesCheckpoint abi p db) : p.Uncut abi db := by
  obtain ⟨tr, _, hruns, hadmits, _⟩ := exists_completed (castable_of_reaches h)
  obtain ⟨_, _, hcompleted, hexact⟩ := h tr _ hruns hadmits
  exact (exact_iff_uncut hcompleted).mp hexact

/-- Without an overflow nothing fails. -/
theorem completes_of_castable (h : p.Castable abi db) {tr : List (Event signature Thrown)}
    {r : Except Thrown ChainSyncSummary}
    (hruns : (syncChain abi p.config p.chainId).Runs tr (.finished r))
    (hadmits : (p.monitor False).Admits db tr) :
    ∃ summary, r = .ok summary ∧
      p.Completed abi db summary ((p.monitor False).after db tr) := by
  have hpasses : (syncChain abi p.config p.chainId).wp (p.monitor False)
      (Prog.returnsOr (¬p.Castable abi db) fun summary db' => (summary.synced = true →
        p.Completed abi db summary db' ∧ p.Castable abi db) ∧
          (summary.synced = false → ¬p.Castable abi db))
      db := syncChain_passes False.elim id
  have hend := (Prog.sound hpasses hruns hadmits).2 r rfl
  cases r with
  | error e => exact absurd h hend
  | ok summary =>
    cases hsynced : summary.synced with
    | false => exact absurd h (hend.2 hsynced)
    | true => exact ⟨summary, rfl, (hend.1 hsynced).1⟩

/-- **Only an overflow keeps a pass from its checkpoint**, and every overflow does: the events of
each project it touches have to sum up to an `integer`, whoever wrote them.  And its figures are
exact just when the 48 hours leave out nothing of a bucket that counts. -/
theorem reaches_checkpoint_iff :
    ReachesCheckpoint abi p db ↔ p.Castable abi db ∧ p.Uncut abi db := by
  refine ⟨fun h => ⟨castable_of_reaches h, uncut_of_reaches h⟩, ?_⟩
  rintro ⟨hcastable, huncut⟩ tr r hruns hadmits
  obtain ⟨summary, hr, hcompleted⟩ := completes_of_castable hcastable hruns hadmits
  exact ⟨summary, hr, hcompleted, (exact_iff_uncut hcompleted).mpr huncut⟩

/-! ### A flood of mints -/

/-- A project's total, by the columns it is computed from. -/
theorem quantityOf_eq_of_map {rows rows' : List MintEvent}
    (h : rows.map (fun e => (e.projectId, e.quantity)) =
      rows'.map fun e => (e.projectId, e.quantity)) (projectId : ℕ) :
    quantityOf (eventsOf rows projectId) = quantityOf (eventsOf rows' projectId) := by
  have hcolumns : ∀ rows : List MintEvent, quantityOf (eventsOf rows projectId) =
      (((rows.map fun e => (e.projectId, e.quantity)).filter fun c =>
        c.1 = some projectId).map Prod.snd).sum := by
    intro rows
    rw [List.filter_map, List.map_map]
    rfl
  rw [hcolumns rows, hcolumns rows', h]

theorem distinct_replicate {α : Type} [DecidableEq α] (x : α) (n : ℕ) :
    distinct (List.replicate (n + 1) x) = [x] := by
  have hrest : ∀ n, (List.replicate n x).foldl
      (fun seen x => if x ∈ seen then seen else seen ++ [x]) [x] = [x] := by
    intro n
    induction n with
    | zero => rfl
    | succ n ih =>
      rw [List.replicate_succ, List.foldl_cons, if_pos List.mem_cons_self]
      exact ih
  exact hrest n

namespace Sample

/-- Every payload is a transfer of a million. -/
def floodAbi : Abi := ⟨fun _ => some (1, 1000000), fun _ => none⟩

/-- A log of the first block. -/
def floodLog (i : ℕ) : Log :=
  { address := "0xc0de"
    topics := [erc1155TransferSingleTopic, zeroAddress, zeroAddress,
      "0x000000000000000000000000000000000000beef"]
    data := "0x", transactionHash := some "0x1", logIndex := some i, blockNumber := some 1
    blockHash := some "0xb1" }

/-- A chain of one block with so many of them. -/
def floodChain (n : ℕ) : Chain where
  head := 1
  hash _ := "0xb1"
  logsAt b := if b = 1 then (List.range n).map floodLog else []
  mined := by
    intro b log hlog
    split at hlog
    · next hb =>
      obtain ⟨i, -, rfl⟩ := List.mem_map.mp hlog
      exact ⟨congrArg some hb.symm, rfl, rfl, rfl⟩
    · exact absurd hlog List.not_mem_nil
  unique := by
    intro b b' log hlog log' hlog' _ hindex
    split at hlog
    · split at hlog'
      · obtain ⟨i, -, rfl⟩ := List.mem_map.mp hlog
        obtain ⟨i', -, rfl⟩ := List.mem_map.mp hlog'
        rw [Option.some_inj.mp (hindex : some i = some i')]
      · exact absurd hlog' List.not_mem_nil
    · exact absurd hlog List.not_mem_nil

def floodPass (n : ℕ) : Pass :=
  { config := ⟨4663, none, 500, range_pos⟩, chainId := 4663, chain := floodChain n, now := 0
    dbNow _ := 0, maxParameters := 65534
    url := "https://rpc", url_ne, provider := ⟨"rpc", true⟩, enabled := provider_enabled }

def floodEvent (i : ℕ) : MintEventInsert :=
  { chainId := 4663, txHash := "0x1", logIndex := i, blockNumber := 1, blockHash := "0xb1"
    contractAddress := "0xc0de"
    recipient := addressFromTopic "0x000000000000000000000000000000000000beef"
    quantity := 1000000, finalized := false, observedAt := 0 }

def floodRow (i : ℕ) : MintEvent := (floodEvent i).row [("0xc0de", 1)]

theorem decode_floodLog (i : ℕ) :
    decodeMintLog floodAbi 4663 0 (floodLog i) = some (floodEvent i) := by
  have hminted : mintedBy floodAbi (floodLog i) =
      some (1000000, "0x000000000000000000000000000000000000beef") := by
    show mintedBy floodAbi (floodLog 0) = _
    decide
  rw [decodeMintLog, hminted]
  rfl

variable {n : ℕ}

theorem events_flood : (floodPass n).events floodAbi noRows = (List.range n).map floodEvent := by
  have hlogs : (floodPass n).chain.logsIn ((floodPass n).fromBlock noRows)
      ((floodPass n).toBlock noRows) = (List.range n).map floodLog ++ [] := rfl
  rw [Pass.events, hlogs, List.append_nil, List.filterMap_map, ← List.filterMap_eq_map]
  exact List.filterMap_congr fun i _ => decode_floodLog i

theorem contracts_flood : contractsOf ((List.range (n + 1)).map floodEvent) = ["0xc0de"] := by
  have hlower : lower "0xc0de" = "0xc0de" := by decide
  rw [contractsOf, List.map_map]
  show distinct ((List.range (n + 1)).map fun _ => lower "0xc0de") = _
  rw [hlower, List.map_const', List.length_range]
  exact distinct_replicate _ n

theorem rows_flood :
    (floodPass (n + 1)).rows floodAbi noRows = (List.range (n + 1)).map floodRow := by
  have hlinked : ((floodPass (n + 1)).linkedTo ((floodPass (n + 1)).start noRows)
      ((List.range (n + 1)).map floodEvent)).2 = [("0xc0de", 1)] := by
    rw [Pass.linkedTo, contracts_flood]
    rfl
  rw [Pass.rows, events_flood, hlinked, List.map_map]
  rfl

theorem nodup_flood : (((List.range n).map floodRow).map MintEvent.key).Nodup := by
  rw [List.map_map]
  refine List.Nodup.map (fun i i' h => ?_) List.nodup_range
  exact (Prod.mk.inj (Prod.mk.inj h).2).2

/-- The project of the flood has all its quantity. -/
theorem quantityOf_flood : quantityOf (eventsOf
    ((floodPass (n + 1)).settled floodAbi noRows).events.rows 1) = (n + 1) * 1000000 := by
  have hadded : (((floodPass (n + 1)).rows floodAbi noRows).foldl Table.insert
      ((floodPass (n + 1)).start noRows).events).rows =
        ((List.range (n + 1)).map floodRow).reverse ++ [] := by
    rw [rows_flood]
    exact Table.foldl_insert_rows nodup_flood fun _ _ r₀ h => absurd h Table.not_mem_empty
  rw [quantityOf_eq_of_map (settled_map fun _ _ => rfl), hadded, List.append_nil, eventsOf,
    List.filter_eq_self.mpr]
  · rw [quantityOf, total, List.map_reverse, List.sum_reverse, List.map_map]
    show ((List.range (n + 1)).map fun _ => 1000000).sum = _
    rw [List.map_const', List.length_range, List.sum_replicate]
    rfl
  · intro e he
    obtain ⟨i, -, rfl⟩ := List.mem_map.mp (List.mem_reverse.mp he)
    have hproject : (floodRow 0).projectId = some 1 := by decide
    exact decide_eq_true hproject

theorem touched_flood : 1 ∈ (floodPass (n + 1)).touched floodAbi noRows := by
  have hproject : ("0xc0de", 1) ∈ ((floodPass (n + 1)).linkedTo noRows
      ((List.range (n + 1)).map floodEvent)).1.projectsFor ["0xc0de"] := by
    rw [Pass.linkedTo, contracts_flood]
    exact List.mem_cons_self
  have hsettled : ((floodPass (n + 1)).settled floodAbi noRows).projectsFor
      (contractsOf ((floodPass (n + 1)).events floodAbi noRows)) =
        ((floodPass (n + 1)).linkedTo noRows
          ((floodPass (n + 1)).events floodAbi noRows)).1.projectsFor
            (contractsOf ((floodPass (n + 1)).events floodAbi noRows)) := rfl
  rw [Pass.touched, hsettled, events_flood, contracts_flood]
  exact List.mem_map_of_mem hproject

end Sample

/-- **A stranger's contract stops the chain**: 2148 logs of a million in one block sum up to more
than an `integer`, and the pass over it never writes its checkpoint. -/
theorem flood_stops_checkpoint :
    ¬ReachesCheckpoint Sample.floodAbi (Sample.floodPass 2148) Sample.noRows := by
  intro h
  have hcastable := castable_of_reaches h
  have hfits := (hcastable.projects 1 (Sample.touched_flood (n := 2147))).1
  rw [Sample.quantityOf_flood (n := 2147)] at hfits
  exact absurd hfits (by decide)

end ChainRadar
