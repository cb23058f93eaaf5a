/-
Finality, chain by chain.

* `RadarWorld`, `radarWorld` — the tables, and how far each chain has been scanned; anything
  may fail, and has then changed nothing;
* `RadarRun`, `step` — passes interleaving at every command, and what else writes the tables;
* `RadarDb.Spares` — a statement over the events of all chains that would change none of the
  other chains';
* `finality_of_reach` — while every such statement spares the other chains, an event is
  finalized only once its own chain has been scanned its finality depth further.
-/
import HoodMint.ChainScan
import HoodMint.ChainTables
import HoodMint.Lib.Interleave
import HoodMint.Lib.Transition
import Mathlib.Logic.Function.Basic

namespace ChainRadar

open Effect Relational Transition

/-! ### The tables and the endpoints -/

/-- The endpoint of a chain answers with logs of the blocks asked for. -/
def Cmd.Within : (c : Cmd) → c.Resp → Prop
  | .getLogs _ fromBlock toBlock, logs => LogsWithin fromBlock toBlock logs
  | _, _ => True

instance (c : Cmd) (answer : c.Resp) : Decidable (c.Within answer) := by
  induction c using Cmd.casesOn with
  | getLogs chainId fromBlock toBlock =>
    exact (inferInstance : Decidable (LogsWithin fromBlock toBlock answer))
  | _ => exact isTrue trivial

/-- The tables, and the highest block each chain has been scanned to. -/
structure RadarWorld where
  db : RadarDb
  scanned : ℕ → ℕ

namespace RadarWorld

/-- What a command that succeeds may answer. -/
def Answers (w : RadarWorld) (c : Cmd) (answer : c.Resp) : Prop :=
  w.db.Answers c answer ∧ w.db.Fits c answer ∧ c.Within answer

instance (w : RadarWorld) (c : Cmd) (answer : c.Resp) : Decidable (w.Answers c answer) :=
  (inferInstance : Decidable (w.db.Answers c answer ∧ w.db.Fits c answer ∧ c.Within answer))

/-- How far the chains have been scanned once a command has succeeded. -/
def scannedAfter (w : RadarWorld) : Cmd → ℕ → ℕ
  | .getLogs chainId _ toBlock =>
    Function.update w.scanned chainId (max (w.scanned chainId) toBlock)
  | _ => w.scanned

/-- A command that succeeds, with its answer. -/
def exec (w : RadarWorld) (c : Cmd) (answer : c.Resp) : RadarWorld :=
  ⟨w.db.exec c answer, w.scannedAfter c⟩

theorem scanned_le_exec (w : RadarWorld) (c : Cmd) (answer : c.Resp) (chainId : ℕ) :
    w.scanned chainId ≤ (w.exec c answer).scanned chainId := by
  cases c with
  | getLogs chainId' fromBlock toBlock =>
    by_cases heq : chainId = chainId'
    · subst heq
      show _ ≤ Function.update w.scanned chainId _ chainId
      rw [Function.update_self]
      exact le_max_left _ _
    · show _ ≤ Function.update w.scanned chainId' _ chainId
      rw [Function.update_of_ne heq]
  | _ => exact le_rfl

end RadarWorld

/-- The tables answer what they hold; anything may fail, and has then changed nothing. -/
def radarWorld : Monitor signature Thrown RadarWorld where
  guard _ _ := True
  allowed w c x :=
    match x with
    | .ok answer => w.Answers c answer
    | .error _ => True
  next w c x :=
    match x with
    | .ok answer => w.exec c answer
    | .error _ => w

instance (w : RadarWorld) (c : Cmd) (x : Except Thrown c.Resp) :
    Decidable (radarWorld.allowed w c x) :=
  match x with
  | .ok answer => (inferInstance : Decidable (w.Answers c answer))
  | .error _ => isTrue trivial

/-! ### The system -/

abbrev RadarTask := Task signature Thrown ChainSyncSummary ScanState

/-- The tables, and the passes that have been started. -/
structure RadarRun where
  world : RadarWorld
  passes : List RadarTask

/-- A pass is started, or one of its commands answered; maintenance deletes what has been
observed before an instant; and the other workers write projects. -/
inductive RadarStep
  | sync (config : Config)
  | advance (i : ℕ) (answer : (c : Cmd) → Except Thrown c.Resp)
  | purge (before : ℤ)
  | catalogue (projects : Table ProjectRow ℕ ProjectRow.id)

/-- A statement over the events of all chains that changes none of the other chains'. -/
def RadarDb.Spares (db : RadarDb) (chain : Option ℕ) : Cmd → Prop
  | .markEventsFinalized throughBlock => ∀ e ∈ db.events, chain ≠ some e.chainId →
      e.blockNumber ≤ throughBlock → e.finalized = true
  | .unfinalizeFromBlock fromBlock => ∀ e ∈ db.events, chain ≠ some e.chainId →
      fromBlock ≤ e.blockNumber → e.finalized = false
  | _ => True

instance (db : RadarDb) (chain : Option ℕ) (c : Cmd) : Decidable (db.Spares chain c) := by
  induction c using Cmd.casesOn with
  | markEventsFinalized throughBlock =>
    exact (inferInstance : Decidable (∀ e ∈ db.events, chain ≠ some e.chainId →
      e.blockNumber ≤ throughBlock → e.finalized = true))
  | unfinalizeFromBlock fromBlock =>
    exact (inferInstance : Decidable (∀ e ∈ db.events, chain ≠ some e.chainId →
      fromBlock ≤ e.blockNumber → e.finalized = false))
  | _ => exact isTrue trivial

namespace RadarRun

/-- One step. -/
def step (abi : Abi) (s : RadarRun) : RadarStep → Option RadarRun
  | .sync config => some ⟨s.world, s.passes ++ [⟨runChainSync abi config, ⟨none, 0⟩⟩]⟩
  | .advance i answer =>
    (advance radarWorld scanLocal s.world s.passes i answer).map fun r => ⟨r.1, r.2⟩
  | .purge before =>
    let db := s.world.db
    some ⟨{ s.world with db := { db with events := db.events.delete (·.observedAt < before) } },
      s.passes⟩
  | .catalogue projects =>
    some ⟨{ s.world with db := { s.world.db with projects := projects } }, s.passes⟩

/-- Nothing scanned. -/
def start : RadarRun :=
  ⟨⟨⟨.empty, .empty, .empty, .empty, .empty, .empty⟩, fun _ => 0⟩, []⟩

/-- A command of a pass. -/
theorem step_advance_cases {abi : Abi} {s s' : RadarRun} {i : ℕ}
    {answer : (c : Cmd) → Except Thrown c.Resp} (h : s.step abi (.advance i answer) = some s') :
    ∃ c k here, s.passes[i]? = some ⟨.call c k, here⟩ ∧
      radarWorld.allowed s.world c (answer c) ∧
      s' = ⟨radarWorld.next s.world c (answer c),
        s.passes.set i ⟨k (answer c), scanLocal.next here c (answer c)⟩⟩ := by
  obtain ⟨⟨w', ts'⟩, ha, rfl⟩ := Option.map_eq_some_iff.mp h
  obtain ⟨c, k, here, hi, hx, rfl, rfl⟩ := advance_cases ha
  exact ⟨c, k, here, hi, hx, rfl⟩

/-- A command that succeeds spares the chains its pass is not at. -/
def SparesAt (w : RadarWorld) (here : ScanState) (c : Cmd) (x : Except Thrown c.Resp) : Prop :=
  x.toBool = true → w.db.Spares here.chain c

instance (w : RadarWorld) (here : ScanState) (c : Cmd) (x : Except Thrown c.Resp) :
    Decidable (SparesAt w here c x) :=
  (inferInstance : Decidable (x.toBool = true → w.db.Spares here.chain c))

/-- Every command spares the chains its pass is not at. -/
def Spares (s : RadarRun) : RadarStep → Prop
  | .advance i answer => AtCommand s.passes i answer (SparesAt s.world)
  | _ => True

instance (s : RadarRun) : DecidablePred s.Spares := fun l =>
  match l with
  | .advance i answer =>
    (inferInstance : Decidable (AtCommand s.passes i answer (SparesAt s.world)))
  | .sync _ => isTrue trivial
  | .purge _ => isTrue trivial
  | .catalogue _ => isTrue trivial

end RadarRun

/-! ### What a command makes of the events -/

namespace RadarDb

variable {db : RadarDb} {e : MintEvent}

theorem mem_marked (throughBlock answer : ℕ) :
    e ∈ (db.exec (.markEventsFinalized throughBlock) answer).events ↔
      (∃ e₀ ∈ db.events, (e₀.finalized = false ∧ e₀.blockNumber ≤ throughBlock) ∧
        e = { e₀ with finalized := true }) ∨
      (e ∈ db.events ∧ ¬ (e.finalized = false ∧ e.blockNumber ≤ throughBlock)) := by
  show e ∈ db.events.update (fun e => e.finalized = false ∧ e.blockNumber ≤ throughBlock)
    (fun e => { e with finalized := true }) (fun _ => rfl) ↔ _
  exact Table.mem_update_iff

theorem mem_unfinalized (fromBlock answer : ℕ) :
    e ∈ (db.exec (.unfinalizeFromBlock fromBlock) answer).events ↔
      (∃ e₀ ∈ db.events, fromBlock ≤ e₀.blockNumber ∧ e = { e₀ with finalized := false }) ∨
      (e ∈ db.events ∧ ¬ fromBlock ≤ e.blockNumber) := by
  show e ∈ db.events.update (fun e => fromBlock ≤ e.blockNumber)
    (fun e => { e with finalized := false }) (fun _ => rfl) ↔ _
  exact Table.mem_update_iff

end RadarDb

section

variable {w : RadarWorld} {t : ScanState} {c : Cmd}

namespace RadarWorld

/-- An event is finalized only once its own chain has been scanned its finality depth further. -/
def Deep (w : RadarWorld) : Prop :=
  ∀ e ∈ w.db.events, e.finalized = true →
    e.blockNumber + finalityDepthFor e.chainId ≤ w.scanned e.chainId

/-- What holds of the tables. -/
structure Sound (w : RadarWorld) : Prop where
  deep : w.Deep
  blocks : ∀ e ∈ w.db.events, 1 ≤ e.blockNumber
  checkpoints : ∀ r ∈ w.db.checkpoints, r.checkpoint.blockNumber ≤ w.scanned r.chainId

/-- Further scans and fewer events keep the tables sound. -/
theorem Sound.mono {w' : RadarWorld} (hw : w.Sound)
    (hevents : ∀ e ∈ w'.db.events, e ∈ w.db.events)
    (hcheckpoints : w'.db.checkpoints = w.db.checkpoints)
    (hscanned : ∀ chainId, w.scanned chainId ≤ w'.scanned chainId) : w'.Sound where
  deep e he hf := (hw.deep e (hevents e he) hf).trans (hscanned e.chainId)
  blocks e he := hw.blocks e (hevents e he)
  checkpoints r hr := (hw.checkpoints r (hcheckpoints ▸ hr)).trans (hscanned r.chainId)

/-- A command that a pass may issue, and that spares the other chains, keeps the tables sound. -/
theorem Sound.exec (hw : w.Sound) (ht : ∀ chainId ∈ t.chain, t.reach ≤ w.scanned chainId)
    (hguard : scanLocal.guard t c) (hspares : w.db.Spares t.chain c) (answer : c.Resp) :
    (w.exec c answer).Sound := by
  have hscanned := w.scanned_le_exec c answer
  cases c with
  | insertMintEvent row =>
    obtain ⟨-, hblock, hfresh⟩ := hguard
    constructor
    · intro e he hf
      rcases Table.mem_insert.mp he with he | ⟨rfl, -⟩
      · exact hw.deep e he hf
      · exact absurd (hfresh.symm.trans hf) Bool.false_ne_true
    · intro e he
      rcases Table.mem_insert.mp he with he | ⟨rfl, -⟩
      · exact hw.blocks e he
      · exact hblock
    · exact hw.checkpoints
  | markEventsFinalized throughBlock =>
    constructor
    · intro e he hf
      rcases (RadarDb.mem_marked throughBlock answer).mp he with
        ⟨e₀, he₀, ⟨hopen, hle⟩, rfl⟩ | ⟨he, -⟩
      · have hblock := hw.blocks e₀ he₀
        -- what another chain would finalize here has been spared
        have hown : t.chain = some e₀.chainId := by
          by_contra hne
          exact Bool.false_ne_true (hopen.symm.trans (hspares e₀ he₀ hne hle))
        show e₀.blockNumber + finalityDepthFor e₀.chainId ≤ w.scanned e₀.chainId
        have hreach := ht e₀.chainId hown
        rcases hguard with rfl | ⟨chainId, hchain, hdue⟩
        · omega
        · obtain rfl := Option.some_inj.mp (hown.symm.trans hchain)
          omega
      · exact hw.deep e he hf
    · intro e he
      rcases (RadarDb.mem_marked throughBlock answer).mp he with ⟨e₀, he₀, -, rfl⟩ | ⟨he, -⟩
      · exact hw.blocks e₀ he₀
      · exact hw.blocks e he
    · exact hw.checkpoints
  | unfinalizeFromBlock fromBlock =>
    constructor
    · intro e he hf
      rcases (RadarDb.mem_unfinalized fromBlock answer).mp he with ⟨e₀, -, -, rfl⟩ | ⟨he, -⟩
      · exact absurd hf Bool.false_ne_true
      · exact hw.deep e he hf
    · intro e he
      rcases (RadarDb.mem_unfinalized fromBlock answer).mp he with ⟨e₀, he₀, -, rfl⟩ | ⟨he, -⟩
      · exact hw.blocks e₀ he₀
      · exact hw.blocks e he
    · exact hw.checkpoints
  | saveCheckpoint chainId providerId checkpoint =>
    refine ⟨hw.deep, hw.blocks, fun r hr => ?_⟩
    rcases Table.mem_upsert.mp hr with rfl | ⟨hr, -⟩
    · exact hguard.2.trans (ht chainId hguard.1)
    · exact hw.checkpoints r hr
  | ensureContractProject chainId contract name now =>
    have hsame : (w.db.exec (.ensureContractProject chainId contract name now) answer).events =
          w.db.events ∧
        (w.db.exec (.ensureContractProject chainId contract name now) answer).checkpoints =
          w.db.checkpoints := by
      rw [RadarDb.exec]
      split
      · exact ⟨rfl, rfl⟩
      · exact ⟨rfl, rfl⟩
    exact hw.mono (fun e he => hsame.1 ▸ he) hsame.2 hscanned
  | _ => exact hw.mono (fun e he => he) rfl hscanned

/-- What a pass knows to have been scanned has been. -/
theorem Sound.reach_next (hw : w.Sound) (ht : ∀ chainId ∈ t.chain, t.reach ≤ w.scanned chainId)
    (hguard : scanLocal.guard t c) {x : Except Thrown c.Resp} (hx : radarWorld.allowed w c x) :
    ∀ chainId ∈ (scanLocal.next t c x).chain,
      (scanLocal.next t c x).reach ≤ (radarWorld.next w c x).scanned chainId := by
  cases x with
  | error e =>
    cases c with
    | resolveBestRpcUrl => exact fun _ _ => Nat.zero_le _
    | _ => exact ht
  | ok answer =>
    have hscanned := w.scanned_le_exec c answer
    cases c with
    | resolveBestRpcUrl => exact fun _ _ => Nat.zero_le _
    | getCheckpoint chainId providerId =>
      cases answer with
      | none => exact ht
      | some checkpoint =>
        obtain ⟨hread, -, -⟩ := hx
        obtain ⟨r, hr, rfl⟩ := Option.map_eq_some_iff.mp hread.symm
        obtain ⟨hr, hkey⟩ := Table.get?_eq_some.mp hr
        intro chainId' hchain
        obtain rfl := Option.some_inj.mp (hguard.symm.trans hchain)
        refine max_le (ht chainId hguard) ?_
        have hid : r.chainId = chainId := congrArg Prod.fst hkey
        exact hid ▸ hw.checkpoints r hr
    | getLogs chainId fromBlock toBlock =>
      intro chainId' hchain
      obtain rfl := Option.some_inj.mp (hguard.symm.trans hchain)
      show max t.reach toBlock ≤ Function.update w.scanned chainId _ chainId
      rw [Function.update_self]
      exact max_le_max_right toBlock (ht chainId hguard)
    | _ => exact fun chainId hchain => (ht chainId hchain).trans (hscanned chainId)

/-- A command leaves the events of the other chains as they are, if and only if it spares them. -/
theorem leaves_iff_spares {chain : Option ℕ} {answer : c.Resp} :
    (∀ e ∈ w.db.events, chain ≠ some e.chainId → e ∈ (w.exec c answer).db.events) ↔
      w.db.Spares chain c := by
  cases c with
  | insertMintEvent row =>
    exact ⟨fun _ => trivial, fun _ e he _ => Table.mem_insert_of_mem he⟩
  | markEventsFinalized throughBlock =>
    constructor
    · intro h e he hne hle
      rcases (RadarDb.mem_marked throughBlock answer).mp (h e he hne) with
        ⟨e₀, -, -, rfl⟩ | ⟨-, hout⟩
      · rfl
      · by_contra hf
        exact hout ⟨Bool.eq_false_iff.mpr hf, hle⟩
    · intro h e he hne
      refine (RadarDb.mem_marked throughBlock answer).mpr (Or.inr ⟨he, fun hin => ?_⟩)
      exact Bool.false_ne_true (hin.1.symm.trans (h e he hne hin.2))
  | unfinalizeFromBlock fromBlock =>
    constructor
    · intro h e he hne hle
      rcases (RadarDb.mem_unfinalized fromBlock answer).mp (h e he hne) with
        ⟨e₀, -, -, rfl⟩ | ⟨-, hout⟩
      · rfl
      · exact absurd hle hout
    · intro h e he hne
      by_cases hin : fromBlock ≤ e.blockNumber
      · refine (RadarDb.mem_unfinalized fromBlock answer).mpr (Or.inl ⟨e, he, hin, ?_⟩)
        rw [← h e he hne hin]
      · exact (RadarDb.mem_unfinalized fromBlock answer).mpr (Or.inr ⟨he, hin⟩)
  | ensureContractProject chainId contract name now =>
    refine ⟨fun _ => trivial, fun _ e he _ => ?_⟩
    show e ∈ (w.db.exec (.ensureContractProject chainId contract name now) answer).events
    rw [RadarDb.exec]
    split
    · exact he
    · exact he
  | _ => exact ⟨fun _ => trivial, fun _ e he _ => he⟩

end RadarWorld

end

/-! ### Every run -/

namespace RadarRun

variable {abi : Abi} {s s' : RadarRun}

/-- The tables, and the passes under way. -/
structure Ok (s : RadarRun) : Prop where
  world : s.world.Sound
  safe : ∀ t ∈ s.passes, t.Safe scanLocal fun _ _ => True
  reach : ∀ t ∈ s.passes, ∀ chainId ∈ t.here.chain, t.here.reach ≤ s.world.scanned chainId

theorem ok_of_reach (h : Reach (step abi) Spares start s) : s.Ok := by
  refine h.invariant ⟨⟨?_, ?_, ?_⟩, ?_, ?_⟩ ?_
  · exact fun e he => absurd he Table.not_mem_empty
  · exact fun e he => absurd he Table.not_mem_empty
  · exact fun r hr => absurd hr Table.not_mem_empty
  · exact fun t ht => absurd ht List.not_mem_nil
  · exact fun t ht => absurd ht List.not_mem_nil
  · intro s l s' _ hok hl hstep
    cases l with
    | sync config =>
      obtain rfl := Option.some_inj.mp hstep
      refine ⟨hok.world, fun t ht => ?_, fun t ht => ?_⟩
      · exact of_mem_enter ht hok.safe runChainSync_scans
      · exact of_mem_enter ht hok.reach (fun _ _ => Nat.zero_le _)
    | purge before =>
      obtain rfl := Option.some_inj.mp hstep
      refine ⟨hok.world.mono (fun e he => (Table.mem_delete.mp he).1) rfl fun _ => le_rfl, ?_, ?_⟩
      · exact hok.safe
      · exact hok.reach
    | catalogue projects =>
      obtain rfl := Option.some_inj.mp hstep
      exact ⟨hok.world.mono (fun e he => he) rfl fun _ => le_rfl, hok.safe, hok.reach⟩
    | advance i answer =>
      obtain ⟨c, k, here, hi, hx, rfl⟩ := step_advance_cases hstep
      have hl : SparesAt s.world here c (answer c) := (atCommand_iff hi).mp hl
      have hmem := List.mem_of_getElem? hi
      generalize answer c = x at hx hl ⊢
      -- logs are of the blocks that were asked for
      have hscan : scanLocal.allowed here c x := by
        cases c with
        | getLogs chainId fromBlock toBlock =>
          cases x with
          | error => trivial
          | ok logs => exact hx.2.2
        | _ => trivial
      obtain ⟨hguard, hsafe⟩ := safe_advance hi hok.safe hscan
      -- checkpoints never go back
      have hscanned : ∀ chainId, s.world.scanned chainId ≤
          (radarWorld.next s.world c x).scanned chainId := by
        cases x with
        | error => exact fun _ => le_rfl
        | ok answer => exact s.world.scanned_le_exec c answer
      refine ⟨?_, hsafe, fun t ht => ?_⟩
      · cases x with
        | error => exact hok.world
        | ok answer => exact hok.world.exec (hok.reach _ hmem) hguard (hl rfl) answer
      · rcases List.mem_or_eq_of_mem_set ht with ht | rfl
        · exact fun chainId hchain => (hok.reach t ht chainId hchain).trans (hscanned chainId)
        · exact hok.world.reach_next (hok.reach _ hmem) hguard hx

/-- A step of a pass leaves the events of the chains it is not at as they are. -/
def LeavesOthers (s s' : RadarRun) : RadarStep → Prop
  | .advance i _ => ∀ t ∈ s.passes[i]?, ∀ e ∈ s.world.db.events,
      t.here.chain ≠ some e.chainId → e ∈ s'.world.db.events
  | _ => True

/-- **Finality, chain by chain.**  While every statement over the events of all chains would
change none of the other chains', an event is finalized only once its own chain has been scanned
its finality depth further; and a step leaves the events of the other chains as they are exactly
when that is so of it. -/
theorem finality_of_reach (h : Reach (step abi) Spares start s) :
    s.world.Deep ∧
      ∀ l s', s.step abi l = some s' → (s.LeavesOthers s' l ↔ s.Spares l) := by
  refine ⟨(ok_of_reach h).world.deep, fun l s' hstep => ?_⟩
  cases l with
  | sync | purge | catalogue => exact Iff.rfl
  | advance i answer =>
    obtain ⟨c, k, here, hi, -, rfl⟩ := step_advance_cases hstep
    rw [Spares, atCommand_iff hi, LeavesOthers, hi]
    generalize answer c = x
    cases x with
    | error e =>
      refine ⟨fun _ hok => absurd hok Bool.false_ne_true, fun _ t _ e he _ => he⟩
    | ok answer =>
      have hiff : (∀ e ∈ s.world.db.events, here.chain ≠ some e.chainId →
          e ∈ (s.world.exec c answer).db.events) ↔ s.world.db.Spares here.chain c :=
        RadarWorld.leaves_iff_spares
      constructor
      · intro h _
        exact hiff.mp (h _ rfl)
      · intro h t ht
        obtain rfl := Option.mem_some_iff.mp ht
        exact hiff.mpr (h rfl)

end RadarRun

/-! ### A sample -/

namespace Sample

def abi : Abi := ⟨fun _ => none, fun _ => none⟩

def config : Config := ⟨4663, none, 500, by decide⟩

def recipient : String := "0x000000000000000000000000000000000000beef"

/-- A mint in block 100. -/
def mint : Log :=
  { address := "0xc0de"
    topics := [erc721TransferTopic, zeroAddress, recipient]
    data := "0x", transactionHash := some "0x1", logIndex := some 0, blockNumber := some 100
    blockHash := some "0xb" }

/-- Chain 8453 has the mint, and its head is where it is said to be; chain 42161 is far higher
and empty. -/
def answer (head : ℕ) : (c : Cmd) → Except Thrown c.Resp
  | .now => .ok 0
  | .getBlockNumber chainId => .ok (if chainId = 8453 then head else 1000)
  | .getBlock .. => .ok "0xb"
  | .getLogs chainId .. => .ok (if chainId = 8453 then [mint] else [])
  | .distinctEnabledRpcChainIds => .ok [8453, 42161]
  | .resolveBestRpcUrl chainId _ =>
    .ok (if chainId = 4663 then none else some "https://rpc.example")
  | .ensureProvider _ => .ok ⟨"p", true⟩
  | .getCheckpoint .. => .ok none
  | .selectProjects _ => .ok []
  | .projectIdsForContracts _ => .ok [1]
  | .sumByRecipient _ => .ok [(recipient, 1)]
  | .ensureContractProject .. => .ok 1
  | .insertMintEvent _ => .ok true
  | .markEventsFinalized throughBlock =>
    .ok (if throughBlock = 190 ∨ (throughBlock = 988 ∧ head = 100) then 1 else 0)
  | .unfinalizeFromBlock _ => .ok 0
  | .refreshBuckets .. => .ok 0
  | .refreshActivitySnapshot _ => .ok 0
  | .upsertHolderSnapshot .. => .ok ()
  | .saveCheckpoint .. => .ok ()
  | .markProviderHealth .. => .ok ()
  | .publishEvent _ => .ok ()

/-- One pass, answered so many times. -/
def syncing (head n : ℕ) : List RadarStep :=
  .sync config :: List.replicate n (.advance 0 (answer head))

/-- The event of chain 8453 is finalized, and its chain has been scanned so far. -/
def finalizedAt (scanned : ℕ) (s : RadarRun) : Bool :=
  decide (∃ e ∈ s.world.db.events, e.chainId = 8453 ∧ e.blockNumber = 100 ∧ e.finalized = true) &&
    decide (s.world.scanned 8453 = scanned)

end Sample

namespace RadarRun

theorem finality_of_reach_200 :
    ∃ s, Sample.finalizedAt 200 s = true ∧ s.world.Deep ∧
      ∀ l s', s.step Sample.abi l = some s' → (s.LeavesOthers s' l ↔ s.Spares l) := by
  obtain ⟨s, hr, hs⟩ := exists_reach_of_run (step Sample.abi) Spares start
    (Sample.syncing 200 32) (Sample.finalizedAt 200) (by decide) (by decide)
  exact ⟨s, hs, finality_of_reach hr⟩

/-- Chain 42161 finalizes an event of chain 8453 in the highest block scanned of it. -/
theorem other_chain_finalizes :
    ∃ s, Reachable (step Sample.abi) start s ∧ ¬ s.world.Deep := by
  obtain ⟨s, hr, hs⟩ := exists_reachable_of_run (step Sample.abi) start
    (Sample.syncing 100 32) (Sample.finalizedAt 100) (by decide)
  obtain ⟨hevent, hscanned⟩ := (Bool.and_eq_true _ _).mp hs
  obtain ⟨e, he, hchain, hblock, hfinalized⟩ := of_decide_eq_true hevent
  refine ⟨s, hr, fun hdeep => ?_⟩
  have hpast := hdeep e he hfinalized
  rw [hchain, hblock, of_decide_eq_true hscanned] at hpast
  exact absurd hpast (by decide)

end RadarRun

end ChainRadar
