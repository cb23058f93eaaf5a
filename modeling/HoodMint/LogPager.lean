/-
The log pager against every sequence of answers (`packages/providers/src/chain/rpc.ts`).

`paging` follows a sync with the windows it has decoded and the failures of the window it is
at, beside one reading of the head and of the checkpoint's block.

* `pageLogs_windows`, `syncFromCheckpoint_covers` — what returns has decoded the whole span,
  whatever was answered;
* `fetchLogsWindow_returns` — one window: shrinks and other failures share twelve attempts;
* `fetchLogsWindow_may_exhaust` — nine shrinks and three failures use them up;
* `pager_covers_iff` — when every answer within the provider's caps lets the sync return.
-/
import HoodMint.ChainRadar
import HoodMint.Lib.Tiling

namespace ChainRadar

open Effect Tiling
open Text (lower)

/-! ### Following a sync -/

/-- A window whose logs were answered. -/
structure DecodedWindow where
  fromBlock : ℕ
  toBlock : ℕ
  logs : List Log

/-- The failures of the current window that were not about its size, and the windows decoded. -/
structure PagerState where
  failures : ℕ := 0
  windows : List DecodedWindow := []

/-- What may be answered to an `eth_getLogs`. -/
abbrev LogAnswers := PagerState → ℕ → ℕ → Except Thrown (List Log) → Prop

/-- The head and the checkpoint's block are read, and the logs are answered as `answers` has it. -/
def paging (answers : LogAnswers) (head : ℕ) (hash : String) :
    Monitor signature Thrown PagerState where
  guard _ _ := True
  allowed t c x :=
    match c, x with
    | .getBlockNumber _, x => x = .ok head
    | .getBlock .., x => x = .ok hash
    | .getLogs _ fromBlock toBlock, x => answers t fromBlock toBlock x
    | _, _ => True
  next t c x :=
    match c, x with
    | .getLogs _ fromBlock toBlock, .ok logs => ⟨0, t.windows ++ [⟨fromBlock, toBlock, logs⟩]⟩
    | .getLogs .., .error e => if isOversizedLogsError e then t else ⟨t.failures + 1, t.windows⟩
    | _, _ => t

/-- Anything. -/
def anyLogs : LogAnswers := fun _ _ _ _ => True

/-- A window of at most ten blocks is never too large, and fewer than four other failures come
before a window's logs. -/
def withinCaps : LogAnswers := fun t fromBlock toBlock x =>
  match x with
  | .ok _ => True
  | .error e =>
    if isOversizedLogsError e then 10 < toBlock + 1 - fromBlock else t.failures < 3

/-- The first block of a sync: after the checkpoint, or at the start of the safety window when
the checkpoint's hash has changed; without a checkpoint, a range below the head. -/
def firstBlock (range head : ℕ) (hash : String) : Option Checkpoint → ℕ
  | none => if head > range then head - range + 1 else 1
  | some checkpoint =>
    if checkpoint.blockNumber = 0 then if head > range then head - range + 1 else 1
    else if lower hash = lower checkpoint.blockHash then checkpoint.blockNumber + 1
    else rewound checkpoint.blockNumber

/-- The windows hold every block from the first to the last, each once. -/
def Partition (fromBlock toBlock : ℕ) (windows : List DecodedWindow) : Prop :=
  (∀ n, (∃ w ∈ windows, w.fromBlock ≤ n ∧ n ≤ w.toBlock) ↔ fromBlock ≤ n ∧ n ≤ toBlock) ∧
    windows.Pairwise fun w w' => w.toBlock < w'.fromBlock

variable {abi : Abi} {config : Config} {chainId head : ℕ} {hash : String} {now : ℤ}
  {answers : LogAnswers} {t : PagerState} {fromBlock toBlock : ℕ} {checkpoint : Option Checkpoint}

/-! ### One window -/

/-- The ranges stay positive and, once they are that small, below 720896. -/
theorem adaptRange_lt {range logs : ℕ} (h : range < 720896) : adaptRange range logs < 720896 := by
  rw [adaptRange]
  split
  · simp only [minRange]
    omega
  · split
    · simp only [maxRange]
      omega
    · exact h

/-- What a window that returns leaves: it is decoded, from the block asked for. -/
theorem fetchLogsWindow_decodes {attempts failures range : ℕ} (hrange : 0 < range)
    (hle : fromBlock ≤ toBlock) :
    (fetchLogsWindow chainId fromBlock toBlock attempts failures range).wp
      (paging answers head hash) (Prog.onReturn fun window t' =>
        t'.windows = t.windows ++ [⟨fromBlock, window.windowTo, window.logs⟩] ∧ t'.failures = 0 ∧
          fromBlock ≤ window.windowTo ∧ window.windowTo ≤ toBlock ∧ 0 < window.range ∧
          (range < 720896 → window.range < 720896)) t := by
  induction attempts generalizing failures range t with
  | zero => trivial
  | succ attempts ih =>
    refine Prog.wp_bind.mpr (Prog.wp_attempt.mpr (Prog.wp_issue.mpr ⟨trivial, ?_⟩))
    rintro (e | logs) -
    · dsimp only [paging]
      split
      · next hover =>
        rw [if_pos hover.1]
        refine Prog.wp_mono (ih (lt_of_lt_of_le (by decide : 0 < hardFloor) (le_max_left _ _))) ?_
        rintro (e | window) t' h
        · trivial
        · refine ⟨h.1, h.2.1, h.2.2.1, h.2.2.2.1, h.2.2.2.2.1, fun hsmall => h.2.2.2.2.2 ?_⟩
          simp only [hardFloor]
          omega
      · split
        · trivial
        · have hwindows : (if isOversizedLogsError e then t
              else ⟨t.failures + 1, t.windows⟩ : PagerState).windows = t.windows := by
            split <;> rfl
          refine Prog.wp_mono (ih hrange) ?_
          rintro (e | window) t' h
          · trivial
          · exact ⟨h.1.trans (congrArg (· ++ _) hwindows), h.2⟩
    · obtain ⟨hfrom, hto⟩ := windowTo_bounds hrange hle
      exact ⟨rfl, rfl, hfrom, hto, adaptRange_pos hrange, adaptRange_lt⟩

/-- Within the caps a window is decoded, as long as the shrinks its range can still take, the
failures it may still meet and one answer fit the attempts. -/
theorem fetchLogsWindow_returns {attempts failures shrinks range : ℕ}
    (hfailures : t.failures = failures) (hlt : failures ≤ 3)
    (hsize : toBlock + 1 - fromBlock ≤ 10 ∨ range < 11 * 4 ^ shrinks) (hrange : 0 < range)
    (hattempts : shrinks + (3 - failures) + 1 ≤ attempts) :
    (fetchLogsWindow chainId fromBlock toBlock attempts failures range).wp
      (paging withinCaps head hash) (fun r _ => ∃ window, r = .ok window) t := by
  induction attempts generalizing failures shrinks range t with
  | zero => omega
  | succ attempts ih =>
    refine Prog.wp_bind.mpr (Prog.wp_attempt.mpr (Prog.wp_issue.mpr ⟨trivial, ?_⟩))
    rintro (e | logs) hanswer
    · have hanswer : withinCaps t fromBlock (windowTo range fromBlock toBlock) (.error e) := hanswer
      rw [withinCaps] at hanswer
      dsimp only [paging]
      by_cases hover : isOversizedLogsError e = true
      · -- a window that is too large has more than ten blocks, so its range can shrink
        rw [if_pos hover] at hanswer ⊢
        have hbig : 10 < range ∧ 10 < toBlock + 1 - fromBlock := by
          rw [windowTo] at hanswer
          split at hanswer <;> omega
        have hsize : range < 11 * 4 ^ shrinks := by omega
        rw [if_pos ⟨hover, hbig.1⟩]
        cases shrinks with
        | zero => omega
        | succ shrinks =>
          rw [pow_succ] at hsize
          have hpos : 0 < 4 ^ shrinks := Nat.pow_pos (by omega)
          have hsmall : max hardFloor (range / 4) < 11 * 4 ^ shrinks := by
            simp only [hardFloor]
            omega
          exact ih hfailures hlt (Or.inr hsmall) (lt_of_lt_of_le (by decide : 0 < hardFloor)
            (le_max_left _ _)) (by omega)
      · rw [if_neg hover] at hanswer ⊢
        rw [if_neg fun h => hover h.1, if_neg (by omega)]
        refine ih ?_ (by omega) hsize hrange (by omega)
        rw [hfailures]
    · exact ⟨_, rfl⟩

/-! ### The span -/

/-- What a pager that returns leaves: windows that cover the span from the cursor on. -/
theorem pageLogs_windows {pages range cursor : ℕ} (hrange : 0 < range)
    (hcursor : cursor ≤ toBlock + 1) (hpages : toBlock + 1 - cursor ≤ pages) :
    (pageLogs abi chainId toBlock now pages range cursor).wp (paging answers head hash)
      (Prog.onReturn fun events t' => ∃ ws, t'.windows = t.windows ++ ws ∧
        Tiles DecodedWindow.fromBlock DecodedWindow.toBlock cursor (toBlock + 1) ws ∧
        events = ws.flatMap fun w => w.logs.filterMap (decodeMintLog abi chainId now)) t := by
  induction pages generalizing t range cursor with
  | zero =>
    have hend : cursor = toBlock + 1 := by omega
    exact ⟨[], (List.append_nil _).symm, hend, rfl⟩
  | succ pages ih =>
    rw [pageLogs]
    split
    · next hle =>
      refine Prog.onReturn_bind (fetchLogsWindow_decodes hrange hle) ?_
      intro window t₁ h
      obtain ⟨hwindows, -, hfrom, hto, hrange₁, -⟩ := h
      refine Prog.onReturn_bind (ih hrange₁ (by omega) (by omega)) ?_
      intro rest t₂ h
      obtain ⟨ws, hws, htiles, hrest⟩ := h
      refine ⟨⟨cursor, window.windowTo, window.logs⟩ :: ws, ?_, ⟨rfl, hfrom, htiles⟩, ?_⟩
      · rw [hws, hwindows, List.append_assoc]
        rfl
      · rw [hrest, List.flatMap_cons]
    · next hlt =>
      have hend : cursor = toBlock + 1 := by omega
      exact ⟨[], (List.append_nil _).symm, hend, rfl⟩

/-- Within the caps a pager returns when its range starts below 720896, or when it has no more
than ten blocks to cover. -/
theorem pageLogs_returns {pages range cursor : ℕ} (hrange : 0 < range)
    (hsize : toBlock + 1 - cursor ≤ 10 ∨ range < 720896) (hfailures : t.failures = 0) :
    (pageLogs abi chainId toBlock now pages range cursor).wp (paging withinCaps head hash)
      (fun r _ => ∃ events, r = .ok events) t := by
  induction pages generalizing t range cursor with
  | zero => exact ⟨_, rfl⟩
  | succ pages ih =>
    rw [pageLogs]
    split
    · next hle =>
      have hbudget : toBlock + 1 - cursor ≤ 10 ∨ range < 11 * 4 ^ 8 := hsize
      have hreturns : (fetchLogsWindow chainId cursor toBlock 12 0 range).wp
          (paging withinCaps head hash) (fun r _ => ∃ window, r = .ok window) t :=
        fetchLogsWindow_returns hfailures (by omega) hbudget hrange (le_refl 12)
      refine Prog.wp_bind_of (Prog.wp_and hreturns (fetchLogsWindow_decodes hrange hle)) ?_ ?_
      · intro window t₁ h
        obtain ⟨-, -, hzero, hfrom, -, hrange₁, hsmall⟩ := h
        refine Prog.wp_bind_of (ih hrange₁ (by omega) hzero) ?_ ?_
        · intro rest t₂ _
          exact ⟨_, rfl⟩
        · intro e t₂ h
          obtain ⟨_, h⟩ := h
          cases h
      · intro e t₁ h
        obtain ⟨⟨_, h⟩, -⟩ := h
        cases h
    · exact ⟨_, rfl⟩

/-- A sync starts where it should. -/
theorem startBlock_eq : (startBlock config chainId head checkpoint).wp (paging answers head hash)
    (fun r t' => (∃ reorgDetected, r = .ok (reorgDetected,
      firstBlock config.chainSyncInitialRange head hash checkpoint)) ∧ t' = t) t := by
  cases checkpoint with
  | none => exact ⟨⟨false, rfl⟩, rfl⟩
  | some checkpoint =>
    rw [startBlock, firstBlock]
    by_cases hzero : checkpoint.blockNumber = 0
    · rw [if_pos hzero, if_pos hzero]
      exact ⟨⟨false, rfl⟩, rfl⟩
    · rw [if_neg hzero, if_neg hzero]
      refine Prog.wp_issue_bind trivial (fun currentHash hanswer => ?_) fun e hanswer => ?_
      · obtain rfl : currentHash = hash := Except.ok.inj hanswer
        by_cases hsame : lower currentHash = lower checkpoint.blockHash
        · rw [if_neg (not_not.mpr hsame), if_pos hsame]
          exact ⟨⟨false, rfl⟩, rfl⟩
        · rw [if_pos hsame, if_neg hsame]
          exact ⟨⟨true, rfl⟩, rfl⟩
      · have hanswer : (Except.error e : Except Thrown String) = .ok hash := hanswer
        cases hanswer

theorem spanEnd_le (head fromBlock : ℕ) : spanEnd head fromBlock ≤ head := by
  rw [spanEnd]
  split <;> omega

/-- A sync is decoded: it starts where it should, ends at the head or before it, its windows
hold every block of its span once, and its events are those of their logs, in order. -/
structure Covers (abi : Abi) (config : Config) (chainId : ℕ) (checkpoint : Option Checkpoint)
    (now : ℤ) (head : ℕ) (hash : String) (windows : List DecodedWindow) (result : SyncResult) :
    Prop where
  fromBlock : result.fromBlock = firstBlock config.chainSyncInitialRange head hash checkpoint
  toBlock_le : result.toBlock ≤ head
  partition : Partition result.fromBlock result.toBlock windows
  events : result.events =
    windows.flatMap fun w => w.logs.filterMap (decodeMintLog abi chainId now)

theorem partition_of_tiles {ws : List DecodedWindow}
    (h : Tiles DecodedWindow.fromBlock DecodedWindow.toBlock fromBlock (toBlock + 1) ws) :
    Partition fromBlock toBlock ws := by
  refine ⟨fun n => h.mem_iff.trans ?_, h.pairwise⟩
  omega

theorem partition_nil (h : toBlock < fromBlock) : Partition fromBlock toBlock [] := by
  refine ⟨fun n => iff_of_false (fun h => ?_) (by omega), List.Pairwise.nil⟩
  obtain ⟨w, hw, -⟩ := h
  exact List.not_mem_nil hw

/-- **What returns is whole**: whatever the log requests are answered, a sync that returns has
decoded its span; one window that finally fails makes it throw. -/
theorem syncFromCheckpoint_covers :
    (syncFromCheckpoint abi config chainId checkpoint now).wp (paging answers head hash)
      (Prog.onReturn fun result t' =>
        Covers abi config chainId checkpoint now head hash t'.windows result) {} := by
  refine Prog.onReturn_issue_bind trivial fun head' hanswer => ?_
  obtain rfl : head' = head := Except.ok.inj hanswer
  refine Prog.wp_bind_of startBlock_eq ?_ fun _ _ _ => trivial
  intro started t' h
  obtain ⟨⟨reorgDetected, hstart⟩, rfl⟩ := h
  obtain rfl := Except.ok.inj hstart
  dsimp only
  split
  · next hlt => exact ⟨rfl, spanEnd_le _ _, partition_nil hlt, rfl⟩
  · refine Prog.onReturn_bind
      (pageLogs_windows config.chainSyncInitialRange_pos (by omega) (le_refl _)) ?_
    intro events t₁ h
    obtain ⟨ws, hws, htiles, hevents⟩ := h
    have hws : t₁.windows = ws := hws
    exact ⟨rfl, spanEnd_le _ _, hws ▸ partition_of_tiles htiles, hws ▸ hevents⟩

/-- Within the caps a sync returns when the configured range is below 720896, or when no more
than ten blocks are to be covered. -/
theorem syncFromCheckpoint_returns
    (h : config.chainSyncInitialRange < 720896 ∨
      head + 1 - firstBlock config.chainSyncInitialRange head hash checkpoint ≤ 10) :
    (syncFromCheckpoint abi config chainId checkpoint now).wp (paging withinCaps head hash)
      (fun r _ => ∃ result, r = .ok result) {} := by
  refine Prog.wp_issue_bind trivial (fun head' hanswer => ?_) fun e hanswer => ?_
  · obtain rfl : head' = head := Except.ok.inj hanswer
    refine Prog.wp_bind_of startBlock_eq ?_ ?_
    · intro started t' hstarted
      obtain ⟨⟨reorgDetected, hstart⟩, rfl⟩ := hstarted
      obtain rfl := Except.ok.inj hstart
      dsimp only
      split
      · exact ⟨_, rfl⟩
      · have hspan := spanEnd_le head'
          (firstBlock config.chainSyncInitialRange head' hash checkpoint)
        refine Prog.wp_bind_of
          (pageLogs_returns config.chainSyncInitialRange_pos (by omega) rfl) ?_ ?_
        · intro events t₁ _
          exact ⟨_, rfl⟩
        · intro e t₁ h
          obtain ⟨_, h⟩ := h
          cases h
    · intro e t' hstarted
      obtain ⟨⟨_, hstart⟩, -⟩ := hstarted
      cases hstart
  · have hanswer : (Except.error e : Except Thrown ℕ) = .ok head := hanswer
    cases hanswer

/-! ### Where the attempts run out -/

/-- An endpoint that refuses a window for its size, and one that fails otherwise. -/
def tooLarge : Thrown := ⟨"block range is too large", "", true⟩

def unavailable : Thrown := ⟨"HTTP request failed.", "", true⟩

theorem isOversizedLogsError_tooLarge : isOversizedLogsError tooLarge = true := by
  decide

theorem isOversizedLogsError_unavailable : isOversizedLogsError unavailable = false := by
  decide

/-- **The attempts run out**: a range that takes as many shrinks as there are attempts beside
the failures to come may leave none for an answer. -/
theorem fetchLogsWindow_may_exhaust {attempts failures shrinks range : ℕ}
    (hfailures : t.failures = failures) (hlt : failures ≤ 3) (hspan : 10 < toBlock + 1 - fromBlock)
    (hrange : shrinks = 0 ∨ 11 * 4 ^ (shrinks - 1) ≤ range)
    (hattempts : attempts = shrinks + (3 - failures)) :
    (fetchLogsWindow chainId fromBlock toBlock attempts failures range).may
      (paging withinCaps head hash) (fun r _ => ∃ e, r = .error e) t := by
  induction attempts generalizing failures shrinks range t with
  | zero => exact ⟨_, rfl⟩
  | succ attempts ih =>
    rw [fetchLogsWindow]
    cases shrinks with
    | zero =>
      refine Prog.may_bind (.error unavailable) (Prog.may_attempt.mpr ?_)
      refine Prog.may_issue (.error unavailable) ?_ ⟨rfl, ?_⟩
      · show withinCaps t fromBlock (windowTo range fromBlock toBlock) (.error unavailable)
        rw [withinCaps, if_neg (by rw [isOversizedLogsError_unavailable]; exact Bool.false_ne_true)]
        omega
      · dsimp only [paging]
        rw [isOversizedLogsError_unavailable]
        rw [if_neg (fun h => Bool.false_ne_true h.1), if_neg (by omega),
          if_neg Bool.false_ne_true]
        have hmore : (⟨t.failures + 1, t.windows⟩ : PagerState).failures = failures + 1 :=
          congrArg (· + 1) hfailures
        exact ih hmore (by omega) (Or.inl rfl) (by omega)
    | succ shrinks =>
      have hpow : 11 * 4 ^ shrinks ≤ range := by
        obtain h | h := hrange
        · omega
        · exact h
      have hpos : 0 < 4 ^ shrinks := Nat.pow_pos (by omega)
      have hnext : shrinks = 0 ∨ 11 * 4 ^ (shrinks - 1) ≤ max hardFloor (range / 4) := by
        cases shrinks with
        | zero => exact Or.inl rfl
        | succ shrinks =>
          rw [pow_succ] at hpow
          rw [Nat.add_sub_cancel]
          omega
      refine Prog.may_bind (.error tooLarge) (Prog.may_attempt.mpr ?_)
      refine Prog.may_issue (.error tooLarge) ?_ ⟨rfl, ?_⟩
      · show withinCaps t fromBlock (windowTo range fromBlock toBlock) (.error tooLarge)
        rw [withinCaps, if_pos isOversizedLogsError_tooLarge, windowTo]
        split <;> omega
      · dsimp only [paging]
        rw [if_pos ⟨isOversizedLogsError_tooLarge, by simp only [hardFloor]; omega⟩,
          if_pos isOversizedLogsError_tooLarge]
        exact ih hfailures hlt hnext (by omega)

/-- A pass covers more than ten blocks when there are that many. -/
theorem spanEnd_of_long (h : 10 < head + 1 - fromBlock) :
    10 < spanEnd head fromBlock + 1 - fromBlock := by
  have hspan : maxSpan = 1000 := by decide
  rw [spanEnd]
  split <;> omega

/-- The first window of a long span may take all attempts. -/
theorem pageLogs_may_throw {pages range : ℕ} (hrange : 720896 ≤ range) (hpages : 0 < pages)
    (hspan : 10 < toBlock + 1 - fromBlock) (hfailures : t.failures = 0) :
    (pageLogs abi chainId toBlock now pages range fromBlock).may (paging withinCaps head hash)
      (fun r _ => ∃ e, r = .error e) t := by
  obtain ⟨pages, rfl⟩ := Nat.exists_eq_succ_of_ne_zero (by omega : pages ≠ 0)
  rw [pageLogs, if_pos (by omega)]
  have hexhaust : 9 = 0 ∨ 11 * 4 ^ (9 - 1) ≤ range := Or.inr hrange
  refine Prog.may_bind_of
    (fetchLogsWindow_may_exhaust hfailures (by omega) hspan hexhaust rfl) ?_ ?_
  · intro window t₁ h
    obtain ⟨e, h⟩ := h
    cases h
  · intro e t₁ _
    exact ⟨e, rfl⟩

/-- A sync whose configured range takes nine shrinks, with more than ten blocks to cover, may
throw though every answer is within the caps. -/
theorem syncFromCheckpoint_may_throw (hrange : 720896 ≤ config.chainSyncInitialRange)
    (hspan : 10 < head + 1 - firstBlock config.chainSyncInitialRange head hash checkpoint) :
    (syncFromCheckpoint abi config chainId checkpoint now).may (paging withinCaps head hash)
      (fun r _ => ∃ e, r = .error e) {} := by
  have hanswers : ∀ t c, ∃ x, (paging withinCaps head hash).allowed t c x := by
    intro t c
    cases c with
    | getBlockNumber => exact ⟨_, rfl⟩
    | getBlock => exact ⟨_, rfl⟩
    | getLogs => exact ⟨.ok [], trivial⟩
    | _ => exact ⟨.error unavailable, trivial⟩
  refine Prog.may_bind head (Prog.may_issue (.ok head) rfl ⟨rfl, ?_⟩)
  refine Prog.may_bind_of (Prog.may_of_wp hanswers startBlock_eq) ?_ ?_
  · intro started t' h
    obtain ⟨⟨reorgDetected, hstart⟩, rfl⟩ := h
    obtain rfl := Except.ok.inj hstart
    have hend := spanEnd_of_long hspan
    dsimp only
    rw [if_neg (by omega)]
    refine Prog.may_bind_of (pageLogs_may_throw hrange (by omega) hend rfl) ?_
      fun e t₁ _ => ⟨e, rfl⟩
    intro events t₁ h
    obtain ⟨e, h⟩ := h
    cases h
  · intro e t' h
    obtain ⟨⟨_, h⟩, -⟩ := h
    cases h

/-! ### Every sequence of answers -/

/-- Every run of a sync whose log requests are answered within the caps returns, decoded; and
no run at all returns otherwise. -/
def PagerCovers (abi : Abi) (config : Config) (chainId : ℕ) (checkpoint : Option Checkpoint)
    (now : ℤ) (head : ℕ) (hash : String) : Prop :=
  (∀ tr r, (syncFromCheckpoint abi config chainId checkpoint now).Runs tr (.finished r) →
    (paging withinCaps head hash).Admits {} tr → ∃ result, r = .ok result ∧
      Covers abi config chainId checkpoint now head hash
        ((paging withinCaps head hash).after {} tr).windows result) ∧
  ∀ tr result,
    (syncFromCheckpoint abi config chainId checkpoint now).Runs tr (.finished (.ok result)) →
    (paging anyLogs head hash).Admits {} tr →
      Covers abi config chainId checkpoint now head hash
        ((paging anyLogs head hash).after {} tr).windows result

/-- The run that throws is one of them. -/
theorem not_pagerCovers (hrange : 720896 ≤ config.chainSyncInitialRange)
    (hspan : 10 < head + 1 - firstBlock config.chainSyncInitialRange head hash checkpoint) :
    ¬PagerCovers abi config chainId checkpoint now head hash := by
  intro h
  have hthrow : (syncFromCheckpoint abi config chainId checkpoint now).may
      (paging withinCaps head hash) (fun r _ => ∃ e, r = .error e) {} :=
    syncFromCheckpoint_may_throw hrange hspan
  obtain ⟨tr, r, hruns, hadmits, e, rfl⟩ := Prog.exists_run hthrow
  obtain ⟨result, hresult, -⟩ := h.1 tr _ hruns hadmits
  cases hresult

/-- **The pager covers its span exactly once**, under every sequence of answers within the
caps, exactly when the configured range is below 720896 or at most ten blocks are to be
covered: from there on nine shrinks and three other failures use up the twelve attempts. -/
theorem pager_covers_iff : PagerCovers abi config chainId checkpoint now head hash ↔
    config.chainSyncInitialRange < 720896 ∨
      head + 1 - firstBlock config.chainSyncInitialRange head hash checkpoint ≤ 10 := by
  constructor
  · intro h
    by_contra hnot
    obtain ⟨hrange, hspan⟩ := not_or.mp hnot
    exact not_pagerCovers (not_lt.mp hrange) (not_le.mp hspan) h
  · intro h
    refine ⟨fun tr r hruns hadmits => ?_, fun tr result hruns hadmits => ?_⟩
    · obtain ⟨result, rfl⟩ := (Prog.sound (syncFromCheckpoint_returns h) hruns hadmits).2 r rfl
      exact ⟨result, rfl, (Prog.sound syncFromCheckpoint_covers hruns hadmits).2 _ rfl⟩
    · exact (Prog.sound syncFromCheckpoint_covers hruns hadmits).2 _ rfl

/-- A worker configured to start with a million blocks. -/
def wideConfig : Config := ⟨4663, none, 1000000, by decide⟩

/-- Nine hundred blocks behind the head it may throw under answers within the caps. -/
theorem pager_exhausts :
    ¬PagerCovers ⟨fun _ => none, fun _ => none⟩ wideConfig 4663 (some ⟨100, "0xa"⟩) 0 1000
      "0xa" :=
  not_pagerCovers (by decide) (by decide)

end ChainRadar
