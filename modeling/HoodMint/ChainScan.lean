/-
What a chain sync keeps to, chain by chain.

A pass of `runChainSync` turns from one chain to the next.  `ScanState` is the chain it is at
and the highest block it knows that chain to have been scanned to; `scanLocal` follows a pass
with it.

* `runChainSync_scans` — whatever it is answered, a pass inserts unfinalized events of the
  chain it is at, finalizes through a block that lies the chain's own finality depth below
  what has been scanned, and writes no checkpoint beyond it;
* `pageLogs_scans` — the windows of a span reach the end of the span.
-/
import HoodMint.ChainSync

namespace ChainRadar

open Effect

/-- `eth_getLogs` answers with logs of the blocks asked for. -/
def LogsWithin (fromBlock toBlock : ℕ) (logs : List Log) : Prop :=
  ∀ log ∈ logs, ∀ n ∈ log.blockNumber, fromBlock ≤ n ∧ n ≤ toBlock

instance (fromBlock toBlock : ℕ) (logs : List Log) :
    Decidable (LogsWithin fromBlock toBlock logs) :=
  (inferInstance : Decidable (∀ log ∈ logs, ∀ n ∈ log.blockNumber, fromBlock ≤ n ∧ n ≤ toBlock))

/-- The chain a pass is at, and how far it knows the chain to have been scanned. -/
structure ScanState where
  chain : Option ℕ
  reach : ℕ
deriving DecidableEq

/-- The same chain, scanned at least as far. -/
def ScanState.Extends (t t' : ScanState) : Prop := t'.chain = t.chain ∧ t.reach ≤ t'.reach

theorem ScanState.Extends.refl (t : ScanState) : t.Extends t := ⟨rfl, le_rfl⟩

theorem ScanState.Extends.trans {t t' t'' : ScanState} (h : t.Extends t') (h' : t'.Extends t'') :
    t.Extends t'' :=
  ⟨h'.1.trans h.1, h.2.trans h'.2⟩

/-- Finalizing through a block is due once the chain is scanned its own depth further; block 0
holds no events. -/
def ScanState.Due (t : ScanState) (throughBlock : ℕ) : Prop :=
  throughBlock = 0 ∨
    ∃ chainId ∈ t.chain, throughBlock + finalityDepthFor chainId ≤ t.reach

/-- What a pass keeps to. -/
def scanLocal : Monitor signature Thrown ScanState where
  guard t c :=
    match c with
    | .getLogs chainId _ _ | .getCheckpoint chainId _ => t.chain = some chainId
    | .insertMintEvent row =>
      t.chain = some row.chainId ∧ 1 ≤ row.blockNumber ∧ row.finalized = false
    | .markEventsFinalized throughBlock => t.Due throughBlock
    | .saveCheckpoint chainId _ checkpoint =>
      t.chain = some chainId ∧ checkpoint.blockNumber ≤ t.reach
    | _ => True
  allowed _ c x :=
    match c, x with
    | .getLogs _ fromBlock toBlock, .ok logs => LogsWithin fromBlock toBlock logs
    | _, _ => True
  next t c x :=
    match c, x with
    | .resolveBestRpcUrl chainId _, _ => ⟨some chainId, 0⟩
    | .getCheckpoint .., .ok (some checkpoint) => ⟨t.chain, max t.reach checkpoint.blockNumber⟩
    | .getLogs _ _ toBlock, .ok _ => ⟨t.chain, max t.reach toBlock⟩
    | _, _ => t

/-- A command the scan state does not see, and that is free to be issued. -/
def Cmd.Aside : Cmd → Prop
  | .getLogs .. | .getCheckpoint .. | .insertMintEvent _ | .markEventsFinalized _
  | .saveCheckpoint .. | .resolveBestRpcUrl .. => False
  | _ => True

theorem maintains_aside (t : ScanState) : scanLocal.Maintains Cmd.Aside (· = t) := by
  rintro t' c hc rfl
  cases c with
  | getLogs | getCheckpoint | insertMintEvent | markEventsFinalized | saveCheckpoint
  | resolveBestRpcUrl => exact hc.elim
  | _ => exact ⟨trivial, fun _ _ => rfl⟩

/-- A program of such commands leaves the scan state as it is. -/
theorem aside_scans {α : Type} {p : Radar α} (hp : p.Only (S := signature) Cmd.Aside)
    (t : ScanState) : p.wp scanLocal (fun _ t' => t' = t) t :=
  hp.wp_of (maintains_aside t) rfl

/-! ### Windows -/

section

variable {abi : Abi} {config : Config} {chainId : ℕ} {now : ℤ} {t : ScanState}

/-- An unfinalized event of the chain; no block 0 holds any. -/
structure MintEventInsert.Fresh (chainId : ℕ) (event : MintEventInsert) : Prop where
  chain : event.chainId = chainId
  block : 1 ≤ event.blockNumber
  finalized : event.finalized = false

theorem fresh_of_decode {log : Log} {event : MintEventInsert}
    (hblock : ∀ n ∈ log.blockNumber, 1 ≤ n) (h : decodeMintLog abi chainId now log = some event) :
    event.Fresh chainId := by
  obtain ⟨⟨quantity, recipient⟩, -, h⟩ := Option.bind_eq_some_iff.mp h
  obtain ⟨txHash, -, h⟩ := Option.bind_eq_some_iff.mp h
  obtain ⟨blockNumber, hnumber, h⟩ := Option.bind_eq_some_iff.mp h
  obtain ⟨blockHash, -, h⟩ := Option.bind_eq_some_iff.mp h
  obtain rfl := Option.some_inj.mp h
  exact ⟨rfl, hblock blockNumber hnumber, rfl⟩

/-- What a window leaves: it starts where it was asked to, and the chain is scanned through it. -/
def ScanState.Fetched (t : ScanState) (fromBlock toBlock : ℕ) :
    Except Thrown LogsWindow → ScanState → Prop
  | .ok window, t' => t.Extends t' ∧ 0 < window.range ∧ fromBlock ≤ window.windowTo ∧
      window.windowTo ≤ toBlock ∧ window.windowTo ≤ t'.reach ∧
      LogsWithin fromBlock window.windowTo window.logs
  | .error _, _ => True

theorem fetchLogsWindow_scans {fromBlock toBlock attempts transientFailures range : ℕ}
    (hchain : t.chain = some chainId) (hrange : 0 < range) (hle : fromBlock ≤ toBlock) :
    (fetchLogsWindow chainId fromBlock toBlock attempts transientFailures range).wp scanLocal
      (t.Fetched fromBlock toBlock) t := by
  induction attempts generalizing transientFailures range with
  | zero => trivial
  | succ attempts ih =>
    refine Prog.wp_bind.mpr (Prog.wp_attempt.mpr (Prog.wp_issue.mpr ⟨hchain, ?_⟩))
    rintro (e | logs) hlogs
    · dsimp only
      split
      · exact ih (lt_of_lt_of_le (by decide : 0 < hardFloor) (le_max_left _ _))
      · split
        · trivial
        · exact ih hrange
    · obtain ⟨hfrom, hto⟩ := windowTo_bounds hrange hle
      exact ⟨⟨rfl, le_max_left _ _⟩, adaptRange_pos hrange, hfrom, hto, le_max_right _ _, hlogs⟩

/-- What a pager leaves: fresh events, and the chain is scanned to the end of the span. -/
def ScanState.Paged (t : ScanState) (chainId toBlock : ℕ) :
    Except Thrown (List MintEventInsert) → ScanState → Prop
  | .ok events, t' => t.Extends t' ∧ toBlock ≤ t'.reach ∧ ∀ e ∈ events, e.Fresh chainId
  | .error _, _ => True

theorem pageLogs_scans {toBlock pages range cursor : ℕ} (hchain : t.chain = some chainId)
    (hrange : 0 < range) (hcursor : 1 ≤ cursor) (hpages : toBlock + 1 - cursor ≤ pages)
    (hreach : toBlock < cursor → toBlock ≤ t.reach) :
    (pageLogs abi chainId toBlock now pages range cursor).wp scanLocal (t.Paged chainId toBlock)
      t := by
  induction pages generalizing t range cursor with
  | zero => exact ⟨.refl t, hreach (by omega), fun e he => absurd he List.not_mem_nil⟩
  | succ pages ih =>
    rw [pageLogs]
    split
    · next hle =>
      refine Prog.wp_bind_of (fetchLogsWindow_scans hchain hrange hle) ?_ fun _ _ _ => trivial
      rintro window t₁ ⟨hext, hrange₁, hfrom, hto, hreach₁, hlogs⟩
      refine Prog.wp_bind_of (ih (t := t₁) (hext.1.trans hchain) hrange₁ (by omega) (by omega)
        fun hlt => by omega) ?_ fun _ _ _ => trivial
      rintro rest t₂ ⟨hext₂, hend, hrest⟩
      refine ⟨hext.trans hext₂, hend, fun e he => ?_⟩
      rcases List.mem_append.mp he with he | he
      · obtain ⟨log, hlog, hdecode⟩ := List.mem_filterMap.mp he
        exact fresh_of_decode (fun n hn => hcursor.trans (hlogs log hlog n hn).1) hdecode
      · exact hrest e he
    · next hlt =>
      exact ⟨.refl t, hreach (by omega), fun e he => absurd he List.not_mem_nil⟩

/-! ### The span -/

/-- A checkpoint that is known to have been scanned. -/
def ScanState.Knows (t : ScanState) (checkpoint : Option Checkpoint) : Prop :=
  ∀ c ∈ checkpoint, c.blockNumber ≤ t.reach

/-- Where a span starts: past its end only when the end is known to have been scanned. -/
def ScanState.Starts (t : ScanState) (head : ℕ) : Except Thrown (Bool × ℕ) → ScanState → Prop
  | .ok (_, fromBlock), t' => t' = t ∧ 1 ≤ fromBlock ∧ (head < fromBlock → head ≤ t.reach)
  | .error _, t' => t' = t

theorem startBlock_scans {head : ℕ} {checkpoint : Option Checkpoint} (hknows : t.Knows checkpoint) :
    (startBlock config chainId head checkpoint).wp scanLocal (t.Starts head) t := by
  have hfresh : t.Starts head (.ok (false, if head > config.chainSyncInitialRange then
      head - config.chainSyncInitialRange + 1 else 1)) t := by
    have hpos := config.chainSyncInitialRange_pos
    refine ⟨rfl, ?_, fun hlt => ?_⟩
    · split
      · omega
      · omega
    · split at hlt
      · omega
      · omega
  cases checkpoint with
  | none => exact hfresh
  | some checkpoint =>
    have hreach : checkpoint.blockNumber ≤ t.reach := hknows checkpoint rfl
    rw [startBlock]
    split
    · exact hfresh
    · refine Prog.wp_issue_bind trivial (fun currentHash _ => ?_) fun _ _ => rfl
      split
      · refine ⟨rfl, ?_, fun hlt => ?_⟩
        · rw [rewound]
          split
          · omega
          · omega
        · rw [rewound] at hlt
          split at hlt
          · omega
          · omega
      · exact ⟨rfl, by omega, fun hlt => by omega⟩

/-- What a span leaves. -/
def ScanState.Synced (t : ScanState) (chainId : ℕ) : Except Thrown SyncResult → ScanState → Prop
  | .ok result, t' => t.Extends t' ∧ result.toBlock ≤ t'.reach ∧
      ∀ e ∈ result.events, e.Fresh chainId
  | .error _, _ => True

theorem syncFromCheckpoint_scans {checkpoint : Option Checkpoint} (hchain : t.chain = some chainId)
    (hknows : t.Knows checkpoint) :
    (syncFromCheckpoint abi config chainId checkpoint now).wp scanLocal (t.Synced chainId) t := by
  refine Prog.wp_issue_bind trivial (fun head _ => ?_) fun _ _ => trivial
  refine Prog.wp_bind_of (startBlock_scans hknows) ?_ fun _ _ _ => trivial
  rintro ⟨reorgDetected, fromBlock⟩ t' ⟨ht, hfrom, hbehind⟩
  obtain rfl : t = t' := ht.symm
  have hend : spanEnd head fromBlock < fromBlock → spanEnd head fromBlock ≤ t.reach := by
    have hspan : 0 < maxSpan := by decide
    rw [spanEnd]
    split
    · omega
    · exact hbehind
  dsimp only
  split
  · next hlt => exact ⟨.refl t, hend hlt, fun e he => absurd he List.not_mem_nil⟩
  · refine Prog.wp_bind_of
      (pageLogs_scans hchain config.chainSyncInitialRange_pos hfrom le_rfl hend) ?_
      fun _ _ _ => trivial
    exact fun events t₁ hpaged => hpaged

/-! ### Rows -/

theorem insertRows_scans {rows : List MintEvent}
    (h : ∀ row ∈ rows, t.chain = some row.chainId ∧ 1 ≤ row.blockNumber ∧ row.finalized = false) :
    (insertRows rows).wp scanLocal (fun _ t' => t' = t) t := by
  induction rows with
  | nil => rfl
  | cons row rows ih =>
    refine Prog.wp_issue_bind (h row List.mem_cons_self) (fun inserted _ => ?_) fun _ _ => rfl
    refine Prog.wp_bind_of (ih fun r hr => h r (List.mem_cons_of_mem row hr)) ?_ fun _ _ h' => h'
    exact fun _ _ h' => h'

theorem aside_ensureProjects {observedAt : ℤ} {contracts : List String}
    {byContract : List (String × ℕ)} :
    (ensureProjects chainId observedAt contracts byContract).Only (S := signature) Cmd.Aside := by
  induction contracts generalizing byContract with
  | nil => exact .pure _
  | cons contract contracts ih =>
    rw [ensureProjects]
    split
    · exact ih
    · exact .bind (.issue trivial) fun _ => ih

theorem insertMintEvents_scans {events : List MintEventInsert} (hchain : t.chain = some chainId)
    (h : ∀ e ∈ events, e.Fresh chainId) :
    (insertMintEvents events).wp scanLocal (fun _ t' => t' = t) t := by
  cases events with
  | nil => rfl
  | cons first events =>
    refine Prog.wp_issue_bind trivial (fun projectRows _ => ?_) fun _ _ => rfl
    refine Prog.wp_bind_of (aside_scans aside_ensureProjects t) ?_ fun _ _ h' => h'
    rintro byContract _ rfl
    refine insertRows_scans fun row hrow => ?_
    obtain ⟨e, he, rfl⟩ := List.mem_map.mp hrow
    obtain ⟨hid, hblock, hfinalized⟩ := h e he
    exact ⟨hchain.trans (congrArg some hid.symm), hblock, hfinalized⟩

theorem aside_refreshTouched {events : List MintEventInsert} :
    (refreshTouched events).Only (S := signature) Cmd.Aside := by
  refine .bind ?_ fun projectIds => ?_
  · rw [projectIdsForContracts]
    split
    · exact .pure _
    · exact .issue trivial
  · induction projectIds with
    | nil => exact .pure _
    | cons projectId projectIds ih =>
      refine .bind ?_ fun _ => .bind ?_ fun _ => ih
      · exact .bind (.issue trivial) fun _ => .bind (.issue trivial) fun _ =>
          .bind (.issue trivial) fun _ => .pure _
      · exact .bind (.issue trivial) fun _ => .issue trivial

theorem aside_unfinalizeRewound {window : ℕ} {checkpoint : Option Checkpoint} {reorg : Bool} :
    (unfinalizeRewound window checkpoint reorg).Only (S := signature) Cmd.Aside := by
  cases checkpoint with
  | none => exact .pure _
  | some checkpoint =>
    cases reorg with
    | false => exact .pure _
    | true => exact .bind (.issue trivial) fun _ => .pure _

/-! ### Chains -/

theorem syncWindow_scans {provider : Provider} {checkpoint : Option Checkpoint}
    (hchain : t.chain = some chainId) (hknows : t.Knows checkpoint) :
    (syncWindow abi config chainId provider checkpoint).wp scanLocal (fun _ _ => True) t := by
  refine Prog.wp_issue_bind trivial (fun now _ => ?_) fun _ _ => trivial
  refine Prog.wp_bind_of (syncFromCheckpoint_scans hchain hknows) ?_ fun _ _ _ => trivial
  rintro result t₁ ⟨hext, hto, hfresh⟩
  have hchain₁ := hext.1.trans hchain
  refine Prog.wp_bind_of (aside_scans aside_unfinalizeRewound t₁) ?_ fun _ _ _ => trivial
  intro _ t₂ ht₂
  obtain rfl : t₁ = t₂ := ht₂.symm
  refine Prog.wp_bind_of (insertMintEvents_scans hchain₁ hfresh) ?_ fun _ _ _ => trivial
  intro inserted t₂ ht₂
  obtain rfl : t₁ = t₂ := ht₂.symm
  have hdue : t₁.Due (blocksBelow result.toBlock (finalityDepthFor chainId)) := by
    rw [blocksBelow]
    split
    · exact Or.inr ⟨chainId, hchain₁, by omega⟩
    · exact Or.inl rfl
  refine Prog.wp_issue_bind hdue (fun _ _ => ?_) fun _ _ => trivial
  refine Prog.wp_bind_of (aside_scans aside_refreshTouched t₁) ?_ fun _ _ _ => trivial
  intro _ t₂ ht₂
  obtain rfl : t₁ = t₂ := ht₂.symm
  refine Prog.wp_issue_bind trivial (fun blockHash _ => ?_) fun _ _ => trivial
  refine Prog.wp_issue_bind ⟨hchain₁, hto⟩ (fun _ _ => ?_) fun _ _ => trivial
  refine Prog.wp_issue_bind trivial (fun _ _ => ?_) fun _ _ => trivial
  exact Prog.wp_issue_bind trivial (fun _ _ => trivial) fun _ _ => trivial

theorem syncChain_scans :
    (syncChain abi config chainId).wp scanLocal (fun _ _ => True) t := by
  refine Prog.wp_issue_bind trivial (fun rpcUrl _ => ?_) fun _ _ => trivial
  split
  · trivial
  · trivial
  · refine Prog.wp_issue_bind trivial (fun provider _ => ?_) fun _ _ => trivial
    split
    · trivial
    · refine Prog.wp_issue_bind rfl (fun checkpoint _ => ?_) fun _ _ => trivial
      refine Prog.wp_tryCatch_of (R := fun _ _ => True) ?_ (fun _ _ _ => trivial) fun e _ _ =>
        Prog.wp_issue_bind trivial (fun _ _ => trivial) fun _ _ => trivial
      cases checkpoint with
      | none => exact syncWindow_scans rfl fun c hc => absurd hc (Option.not_mem_none c)
      | some checkpoint =>
        refine syncWindow_scans rfl fun c hc => ?_
        obtain rfl := Option.mem_some_iff.mp hc
        exact le_max_right _ _

/-- **A pass, whatever it is answered,** inserts, finalizes and checkpoints chain by chain. -/
theorem runChainSync_scans : (runChainSync abi config).wp scanLocal (fun _ _ => True) t := by
  have hchains : ∀ chainIds total t', (syncChains abi config chainIds total).wp scanLocal
      (fun _ _ => True) t' := by
    intro chainIds
    induction chainIds with
    | nil => exact fun _ _ => trivial
    | cons chainId chainIds ih =>
      exact fun total t' => Prog.wp_bind_of syncChain_scans (fun _ _ _ => ih _ _)
        fun _ _ _ => trivial
  exact Prog.wp_issue_bind trivial (fun _ _ => hchains _ _ _) fun _ _ => trivial

end

end ChainRadar
