/-
The guard on speculative writes (`packages/core/src/write-quota.ts`,
`apps/worker/src/workers/pre-build.ts`).

* `currentWriteQuotaWindow`, `shouldAttemptSpeculativeWrite`, `recordWriteQuotaCall` — one window
  and its count;
* `Worker`, `step` — the passes of `runSpeculativePreBuild`, one command at a time, with the calls
  that have been made;
* `Capped` — no hour holds more calls than the cap;
* `Fresh` — a call is made when those of earlier windows are an hour old, or when these and the
  current window's keep to the cap together;
* `capped_of_reach` — the one follows from the other; `two_windows` — else it may not.

Instants are in milliseconds.  Logs are left out.
-/
import Mathlib.Data.Rat.Floor
import Mathlib.Logic.Function.Basic
import HoodMint.Lib.Rolling
import HoodMint.Lib.Transition

namespace PreBuild

open Rolling

/-! ### The window -/

/-- `WriteQuotaWindow`. -/
structure WriteQuotaWindow where
  windowStartMs : ℤ
  count : ℕ
deriving DecidableEq

def hourMs : ℤ := 60 * 60 * 1000

/-- `currentWriteQuotaWindow`. -/
def currentWriteQuotaWindow (stored : Option WriteQuotaWindow) (nowMs : ℤ) : WriteQuotaWindow :=
  match stored with
  | none => ⟨nowMs, 0⟩
  | some window => if nowMs - window.windowStartMs ≥ hourMs then ⟨nowMs, 0⟩ else window

/-- `shouldAttemptSpeculativeWrite`. -/
def shouldAttemptSpeculativeWrite (window : WriteQuotaWindow) (maxPerHour : ℕ) (capFraction : ℚ) :
    Bool :=
  (window.count : ℤ) < ⌊(maxPerHour : ℚ) * capFraction⌋

/-- The default of `capFraction`. -/
def defaultFraction : ℚ := 4 / 5

/-- `recordWriteQuotaCall`. -/
def recordWriteQuotaCall (window : WriteQuotaWindow) : WriteQuotaWindow :=
  ⟨window.windowStartMs, window.count + 1⟩

def openseaWriteQuotaPerHour : ℕ := 30

/-- What is left to speculative calls. -/
def speculativeCap : ℕ := ⌊(openseaWriteQuotaPerHour : ℚ) * defaultFraction⌋.toNat

example : speculativeCap = 24 := by decide +kernel

theorem shouldAttempt_iff (window : WriteQuotaWindow) :
    shouldAttemptSpeculativeWrite window openseaWriteQuotaPerHour defaultFraction = true ↔
      window.count < speculativeCap := by
  have hfloor : (0 : ℤ) ≤ ⌊(openseaWriteQuotaPerHour : ℚ) * defaultFraction⌋ := by
    rw [openseaWriteQuotaPerHour, defaultFraction]
    norm_num
  rw [shouldAttemptSpeculativeWrite, decide_eq_true_iff, speculativeCap]
  omega

/-- `preBuildBackoffMs`. -/
def preBuildBackoffMs (consecutiveFailures : ℕ) : ℤ :=
  min (30000 * 2 ^ (consecutiveFailures - 1)) (5 * 60000)

/-! ### A pass -/

/-- A row of `plansNeedingPreBuild`, as far as it is read. -/
structure Plan where
  id : String
  projectId : String
  walletId : String
  quantity : ℕ
deriving DecidableEq

/-- What `buildOpenSeaMintTx` is given. -/
structure Target where
  slug : String
  chainId : ℕ
  minter : String
  quantity : ℕ
deriving DecidableEq

/-- How long a plan is held back, and how often it has failed. -/
structure Held where
  heldUntil : ℤ
  failures : ℕ
deriving DecidableEq

/-- `PreBuildSummary`. -/
structure PreBuildSummary where
  candidates : ℕ
  built : ℕ
  skippedQuota : ℕ
  skippedBackoff : ℕ
  failed : ℕ
deriving DecidableEq

/-- Where a pass is: before the next candidate, with the call recorded, or with the call made. -/
inductive Phase
  | ready
  | recorded (plan : Plan) (target : Target)
  | sent (plan : Plan)
deriving DecidableEq

structure Pass where
  window : WriteQuotaWindow
  rest : List Plan
  phase : Phase
  summary : PreBuildSummary
deriving DecidableEq

/-- A speculative write call. -/
structure Call where
  instant : ℤ
  target : Target
  windowStartMs : ℤ
deriving DecidableEq

structure Worker where
  clock : ℤ
  stored : Option WriteQuotaWindow
  backoff : String → Option Held
  pass : Option Pass
  /-- The calls that have been made, the last one first. -/
  calls : List Call

/-- What the tables say of a candidate's project and wallet. -/
inductive Lookup
  | failed
  | nothing
  | found (slug : String) (chainId : ℕ) (address : String)

/-- How a call ends. -/
inductive Answer
  | refused
  | built (cached : Bool)

inductive Label
  /-- Time passes. -/
  | tick (ms : ℕ)
  /-- A pass starts; there are five candidates at most. -/
  | start (candidates : List Plan)
  /-- The next candidate, with what is found of it and whether the window is saved. -/
  | next (lookup : Lookup) (saved : Bool)
  | send
  /-- The build throws before its call. -/
  | throw
  | answer (a : Answer)
  | finish
  /-- The process is restarted. -/
  | restart

namespace Worker

variable (d : Worker)

/-- The `catch` branch. -/
def fail (p : Pass) (plan : Plan) : Worker :=
  let failures := (d.backoff plan.id).elim 0 (·.failures) + 1
  { d with
    backoff := Function.update d.backoff plan.id
      (some ⟨d.clock + preBuildBackoffMs failures, failures⟩)
    pass := some { p with
      phase := .ready, summary := { p.summary with failed := p.summary.failed + 1 } } }

/-- The plan is held back. -/
def isHeld (plan : Plan) : Bool := (d.backoff plan.id).any fun held => d.clock < held.heldUntil

/-- One candidate, up to its call. -/
def attempt (p : Pass) (plan : Plan) (lookup : Lookup) (saved : Bool) : Worker :=
  if shouldAttemptSpeculativeWrite p.window openseaWriteQuotaPerHour defaultFraction = false then
    { d with
      pass := some { p with
        summary := { p.summary with skippedQuota := p.summary.skippedQuota + 1 } } }
  else if d.isHeld plan then
    { d with
      pass := some { p with
        summary := { p.summary with skippedBackoff := p.summary.skippedBackoff + 1 } } }
  else
    match lookup with
    | .failed => d.fail p plan
    | .nothing => { d with pass := some p }
    | .found slug chainId address =>
      -- metered before the attempt
      let window := recordWriteQuotaCall p.window
      if saved then
        { d with
          stored := some window
          pass := some { p with
            window, phase := .recorded plan ⟨slug, chainId, address, plan.quantity⟩ } }
      else d.fail { p with window } plan

/-- What becomes of a call that has been made. -/
def settle (p : Pass) (plan : Plan) : Answer → Worker
  | .refused => d.fail p plan
  | .built cached =>
    let d := { d with backoff := Function.update d.backoff plan.id none }
    if cached then
      { d with
        pass := some { p with
          phase := .ready, summary := { p.summary with built := p.summary.built + 1 } } }
    else d.fail p plan

end Worker

/-- `runSpeculativePreBuild`, and what goes on around it. -/
def step (d : Worker) : Label → Option Worker
  | .tick ms => some { d with clock := d.clock + ms }
  | .start candidates =>
    match d.pass with
    | some _ => none
    | none =>
      if candidates.length ≤ 5 then
        some { d with
          pass := some
            { window := currentWriteQuotaWindow d.stored d.clock
              rest := candidates
              phase := .ready
              summary := ⟨candidates.length, 0, 0, 0, 0⟩ } }
      else none
  | .next lookup saved =>
    match d.pass with
    | some { window, rest := plan :: rest, phase := .ready, summary } =>
      some (d.attempt { window, rest, phase := .ready, summary } plan lookup saved)
    | _ => none
  | .send =>
    match d.pass with
    | some { window, rest, phase := .recorded plan target, summary } =>
      some { d with
        pass := some { window, rest, phase := .sent plan, summary }
        calls := ⟨d.clock, target, window.windowStartMs⟩ :: d.calls }
    | _ => none
  | .throw =>
    match d.pass with
    | some { window, rest, phase := .recorded plan target, summary } =>
      some (d.fail { window, rest, phase := .recorded plan target, summary } plan)
    | _ => none
  | .answer a =>
    match d.pass with
    | some { window, rest, phase := .sent plan, summary } =>
      some (d.settle { window, rest, phase := .sent plan, summary } plan a)
    | _ => none
  | .finish =>
    match d.pass with
    | some { rest := [], phase := .ready, .. } => some { d with pass := none }
    | _ => none
  | .restart => some { d with pass := none, backoff := fun _ => none }

def init : Worker := ⟨0, none, fun _ => none, none, []⟩

/-- **The cap.**  No hour holds more calls. -/
def Capped (d : Worker) : Prop := ∀ t, rolling Call.instant hourMs t d.calls ≤ speculativeCap

/-- The calls of the last hour that the current window has not counted. -/
def uncounted (d : Worker) (p : Pass) : ℕ :=
  d.calls.countP fun c => c.windowStartMs ≠ p.window.windowStartMs ∧ d.clock - hourMs < c.instant

/-- When a call is made, the calls of earlier windows are an hour old; or these and the window's
keep to the cap together. -/
def Fresh (d : Worker) : Label → Prop
  | .send => ∀ p ∈ d.pass, uncounted d p = 0 ∨ uncounted d p + p.window.count ≤ speculativeCap
  | _ => True

/-! ### The calls of a window -/

/-- The calls counted in the window that starts then. -/
def countedAt (start : ℤ) (calls : List Call) : ℕ :=
  calls.countP fun c => c.windowStartMs = start

section

variable {d d' : Worker} {p : Pass}

/-- What a pass knows of the calls: its window has counted them, and the recorded one besides. -/
structure Counted (d : Worker) (p : Pass) : Prop where
  cap : p.window.count ≤ speculativeCap
  since : ∀ w ∈ d.stored, w.windowStartMs ≤ p.window.windowStartMs
  counted : countedAt p.window.windowStartMs d.calls ≤ p.window.count
  recorded : ∀ plan target, p.phase = .recorded plan target →
    countedAt p.window.windowStartMs d.calls < p.window.count ∧ d.stored = some p.window

/-- What is true between any two steps. -/
structure Sound (d : Worker) : Prop where
  past : ∀ c ∈ d.calls, c.instant ≤ d.clock
  known : ∀ c ∈ d.calls, ∃ w ∈ d.stored, c.windowStartMs ≤ w.windowStartMs
  stored : ∀ w ∈ d.stored, w.windowStartMs ≤ d.clock ∧ w.count ≤ speculativeCap ∧
    countedAt w.windowStartMs d.calls ≤ w.count
  pass : ∀ p ∈ d.pass, p.window.windowStartMs ≤ d.clock ∧ Counted d p

theorem sound_init : Sound init :=
  ⟨fun _ hc => absurd hc List.not_mem_nil, fun _ hc => absurd hc List.not_mem_nil,
    fun w hw => absurd hw (Option.not_mem_none w), fun p hp => absurd hp (Option.not_mem_none p)⟩

/-- A window that is just opened has counted nothing, and there is nothing for it to count. -/
theorem countedAt_new (h : Sound d) (hnew : ∀ w ∈ d.stored, w.windowStartMs < d.clock) :
    countedAt d.clock d.calls = 0 := by
  refine List.countP_eq_zero.mpr fun c hc hstart => ?_
  obtain ⟨w, hw, hle⟩ := h.known c hc
  have hlt := hnew w hw
  have heq := of_decide_eq_true hstart
  omega

/-- **A pass starts** with a window that has counted its calls. -/
theorem counted_start (h : Sound d) (rest : List Plan) (summary : PreBuildSummary) :
    (currentWriteQuotaWindow d.stored d.clock).windowStartMs ≤ d.clock ∧
      Counted d ⟨currentWriteQuotaWindow d.stored d.clock, rest, .ready, summary⟩ := by
  have hready : ∀ plan target, Phase.ready ≠ .recorded plan target := fun _ _ => by simp
  cases hstored : d.stored with
  | none =>
    have hzero := countedAt_new h fun w hw => by simp [hstored] at hw
    refine ⟨le_rfl, Nat.zero_le _, fun w hw => ?_, hzero.le, fun _ _ hp => absurd hp (hready _ _)⟩
    simp [hstored] at hw
  | some w =>
    obtain ⟨hle, hcap, hcounted⟩ := h.stored w hstored
    by_cases hold : d.clock - w.windowStartMs ≥ hourMs
    · have hwindow : currentWriteQuotaWindow (some w) d.clock = ⟨d.clock, 0⟩ := if_pos hold
      rw [hwindow]
      have hlt : ∀ w' ∈ d.stored, w'.windowStartMs < d.clock := by
        intro w' hw'
        obtain rfl := Option.some_inj.mp (hstored.symm.trans hw')
        rw [hourMs] at hold
        omega
      exact ⟨le_rfl, Nat.zero_le _, fun w' hw' => (hlt w' hw').le, (countedAt_new h hlt).le,
        fun _ _ hp => absurd hp (hready _ _)⟩
    · have hwindow : currentWriteQuotaWindow (some w) d.clock = w := if_neg hold
      rw [hwindow]
      refine ⟨hle, hcap, fun w' hw' => ?_, hcounted, fun _ _ hp => absurd hp (hready _ _)⟩
      obtain rfl := Option.some_inj.mp (hstored.symm.trans hw')
      exact le_rfl

/-- A pass whose window counts no less, with no call recorded. -/
theorem Counted.ready {p' : Pass} (h : Counted d p)
    (hstart : p'.window.windowStartMs = p.window.windowStartMs)
    (hcount : p.window.count ≤ p'.window.count) (hcap : p'.window.count ≤ speculativeCap)
    (hphase : ∀ plan target, p'.phase ≠ .recorded plan target) : Counted d p' :=
  ⟨hcap, fun w hw => hstart ▸ h.since w hw, hstart ▸ h.counted.trans hcount,
    fun plan target hp => absurd hp (hphase plan target)⟩

/-- Neither the clock nor the calls nor the stored window change. -/
structure Idle (d d' : Worker) : Prop where
  clock : d'.clock = d.clock
  stored : d'.stored = d.stored
  calls : d'.calls = d.calls

theorem Counted.congr {p : Pass} (h : Counted d p) (hstored : d'.stored = d.stored)
    (hcalls : d'.calls = d.calls) : Counted d' p := by
  refine ⟨h.cap, ?_, ?_, ?_⟩
  · rw [hstored]
    exact h.since
  · rw [hcalls]
    exact h.counted
  · rw [hcalls, hstored]
    exact h.recorded

theorem Sound.idle (h : Sound d) (hidle : Idle d d')
    (hpass : ∀ p ∈ d'.pass, p.window.windowStartMs ≤ d.clock ∧ Counted d p) : Sound d' := by
  refine ⟨?_, ?_, ?_, fun p hp => ?_⟩
  · rw [hidle.clock, hidle.calls]
    exact h.past
  · rw [hidle.calls, hidle.stored]
    exact h.known
  · rw [hidle.clock, hidle.calls, hidle.stored]
    exact h.stored
  · rw [hidle.clock]
    exact ⟨(hpass p hp).1, (hpass p hp).2.congr hidle.stored hidle.calls⟩

theorem sound_fail (h : Sound d) {plan : Plan} (hstart : p.window.windowStartMs ≤ d.clock)
    (hp : Counted d p) : Sound (d.fail p plan) := by
  refine h.idle ⟨rfl, rfl, rfl⟩ fun p' hp' => ?_
  obtain rfl := Option.some_inj.mp hp'
  exact ⟨hstart, hp.ready rfl le_rfl hp.cap fun _ _ => by simp⟩

/-- **The next candidate.** -/
theorem sound_attempt (h : Sound d) {plan : Plan} {lookup : Lookup} {saved : Bool}
    (hphase : p.phase = .ready) (hstart : p.window.windowStartMs ≤ d.clock) (hp : Counted d p) :
    Sound (d.attempt p plan lookup saved) := by
  have hready : ∀ plan target, p.phase ≠ .recorded plan target := fun _ _ => by simp [hphase]
  have hskip : ∀ p' : Pass, p'.window = p.window → p'.phase = p.phase →
      Sound { d with pass := some p' } := by
    intro p' hwindow hphase'
    refine h.idle ⟨rfl, rfl, rfl⟩ fun p'' hp'' => ?_
    obtain rfl := Option.some_inj.mp hp''
    rw [hwindow]
    exact ⟨hstart, hp.ready (by rw [hwindow]) (by rw [hwindow]) (by rw [hwindow]; exact hp.cap)
      (hphase' ▸ hready)⟩
  unfold Worker.attempt
  split
  · exact hskip _ rfl rfl
  rename_i hshould
  split
  · exact hskip _ rfl rfl
  have hroom : p.window.count < speculativeCap :=
    (shouldAttempt_iff p.window).mp (by simpa using hshould)
  cases lookup with
  | failed => exact sound_fail h hstart hp
  | nothing => exact hskip _ rfl rfl
  | found slug chainId address =>
    dsimp only
    split
    · -- the window is saved, with the call that is about to be made
      have hwithin : p.window.count + 1 ≤ speculativeCap := hroom
      have hcounted : countedAt p.window.windowStartMs d.calls < p.window.count + 1 :=
        Nat.lt_succ_of_le hp.counted
      refine ⟨h.past, fun c hc => ?_, fun w hw => ?_, fun p' hp' => ?_⟩
      · obtain ⟨w, hw, hle⟩ := h.known c hc
        exact ⟨_, rfl, hle.trans (hp.since w hw)⟩
      · obtain rfl := Option.some_inj.mp hw
        exact ⟨hstart, hwithin, hcounted.le⟩
      · obtain rfl := Option.some_inj.mp hp'
        refine ⟨hstart, hwithin, fun w hw => ?_, hcounted.le, fun _ _ _ => ⟨hcounted, rfl⟩⟩
        obtain rfl := Option.some_inj.mp hw
        exact le_rfl
    · exact sound_fail h hstart (hp.ready rfl (Nat.le_succ _) hroom hready)

/-- A call that has been made is settled. -/
theorem sound_settle (h : Sound d) {plan : Plan} {a : Answer}
    (hstart : p.window.windowStartMs ≤ d.clock) (hp : Counted d p) :
    Sound (d.settle p plan a) := by
  cases a with
  | refused => exact sound_fail h hstart hp
  | built cached =>
    rw [Worker.settle]
    have hdelete : Sound { d with backoff := Function.update d.backoff plan.id none } :=
      h.idle ⟨rfl, rfl, rfl⟩ h.pass
    dsimp only
    split
    · refine h.idle ⟨rfl, rfl, rfl⟩ fun p' hp' => ?_
      obtain rfl := Option.some_inj.mp hp'
      exact ⟨hstart, hp.ready rfl le_rfl hp.cap fun _ _ => by simp⟩
    · exact sound_fail hdelete hstart (hp.congr rfl rfl)

/-- A call is made: its window has counted it already. -/
theorem sound_send (h : Sound d) {plan : Plan} {target : Target} (hd : p ∈ d.pass)
    (hphase : p.phase = .recorded plan target) :
    Sound { d with
      pass := some { p with phase := .sent plan }
      calls := ⟨d.clock, target, p.window.windowStartMs⟩ :: d.calls } := by
  obtain ⟨hstart, hp⟩ := h.pass p hd
  obtain ⟨hlt, hstored⟩ := hp.recorded plan target hphase
  have hcons : ∀ start, countedAt start (⟨d.clock, target, p.window.windowStartMs⟩ :: d.calls) =
      countedAt start d.calls + if p.window.windowStartMs = start then 1 else 0 := by
    intro start
    rw [countedAt, countedAt, List.countP_cons]
    simp
  refine ⟨?_, ?_, fun w hw => ?_, fun p' hp' => ?_⟩
  · exact List.forall_mem_cons.mpr ⟨le_rfl, h.past⟩
  · exact List.forall_mem_cons.mpr ⟨⟨_, hstored, le_rfl⟩, h.known⟩
  · obtain rfl := Option.some_inj.mp (hstored.symm.trans hw)
    exact ⟨hstart, hp.cap, by rw [hcons, if_pos rfl]; exact hlt⟩
  · obtain rfl := Option.some_inj.mp hp'
    refine ⟨hstart, hp.cap, hp.since, ?_, fun _ _ hphase' => by simp at hphase'⟩
    rw [hcons, if_pos rfl]
    exact hlt

/-- **What a step does**, by its label. -/
theorem step_cases {l : Label} (hstep : step d l = some d') :
    (∃ ms, l = .tick ms ∧ d' = { d with clock := d.clock + ms }) ∨
    (∃ candidates, l = .start candidates ∧ d' = { d with
      pass := some ⟨currentWriteQuotaWindow d.stored d.clock, candidates, .ready,
        ⟨candidates.length, 0, 0, 0, 0⟩⟩ }) ∨
    (∃ lookup saved window plan rest summary, l = .next lookup saved ∧
      d.pass = some ⟨window, plan :: rest, .ready, summary⟩ ∧
      d' = d.attempt ⟨window, rest, .ready, summary⟩ plan lookup saved) ∨
    (∃ p plan target, l = .send ∧ d.pass = some p ∧ p.phase = .recorded plan target ∧
      d' = { d with
        pass := some { p with phase := .sent plan }
        calls := ⟨d.clock, target, p.window.windowStartMs⟩ :: d.calls }) ∨
    (∃ p plan, l = .throw ∧ d.pass = some p ∧ d' = d.fail p plan) ∨
    (∃ a p plan, l = .answer a ∧ d.pass = some p ∧ d' = d.settle p plan a) ∨
    (l = .finish ∧ d' = { d with pass := none }) ∨
    (l = .restart ∧ d' = { d with pass := none, backoff := fun _ => none }) := by
  cases l with
  | tick ms => exact Or.inl ⟨ms, rfl, (Option.some_inj.mp hstep).symm⟩
  | start candidates =>
    right; left
    simp only [step] at hstep
    split at hstep
    · cases hstep
    · obtain ⟨-, hd'⟩ := Option.ite_none_right_eq_some.mp hstep
      exact ⟨candidates, rfl, (Option.some_inj.mp hd').symm⟩
  | next lookup saved =>
    right; right; left
    simp only [step] at hstep
    split at hstep
    · next window plan rest summary hd =>
      exact ⟨lookup, saved, window, plan, rest, summary, rfl, hd, (Option.some_inj.mp hstep).symm⟩
    · cases hstep
  | send =>
    right; right; right; left
    simp only [step] at hstep
    split at hstep
    · next hd => exact ⟨_, _, _, rfl, hd, rfl, (Option.some_inj.mp hstep).symm⟩
    · cases hstep
  | throw =>
    right; right; right; right; left
    simp only [step] at hstep
    split at hstep
    · next hd => exact ⟨_, _, rfl, hd, (Option.some_inj.mp hstep).symm⟩
    · cases hstep
  | answer a =>
    right; right; right; right; right; left
    simp only [step] at hstep
    split at hstep
    · next hd => exact ⟨a, _, _, rfl, hd, (Option.some_inj.mp hstep).symm⟩
    · cases hstep
  | finish =>
    right; right; right; right; right; right; left
    simp only [step] at hstep
    split at hstep
    · exact ⟨rfl, (Option.some_inj.mp hstep).symm⟩
    · cases hstep
  | restart =>
    right; right; right; right; right; right; right
    exact ⟨rfl, (Option.some_inj.mp hstep).symm⟩

/-- **One step.** -/
theorem sound_step {l : Label} (h : Sound d) (hstep : step d l = some d') : Sound d' := by
  rcases step_cases hstep with ⟨ms, -, rfl⟩ | ⟨candidates, -, rfl⟩ |
    ⟨lookup, saved, window, plan, rest, summary, -, hd, rfl⟩ |
    ⟨p, plan, target, -, hd, hphase, rfl⟩ | ⟨p, plan, -, hd, rfl⟩ | ⟨a, p, plan, -, hd, rfl⟩ |
    ⟨-, rfl⟩ | ⟨-, rfl⟩
  · have hlater : d.clock ≤ d.clock + ms := by omega
    exact ⟨fun c hc => (h.past c hc).trans hlater, h.known,
      fun w hw => ⟨(h.stored w hw).1.trans hlater, (h.stored w hw).2⟩,
      fun p hp => ⟨(h.pass p hp).1.trans hlater, (h.pass p hp).2.congr rfl rfl⟩⟩
  · refine h.idle ⟨rfl, rfl, rfl⟩ fun p hp => ?_
    obtain rfl := Option.some_inj.mp hp
    exact counted_start h _ _
  · obtain ⟨hstart, hp⟩ := h.pass _ hd
    exact sound_attempt h rfl hstart (hp.ready rfl le_rfl hp.cap fun _ _ => by simp)
  · exact sound_send h hd hphase
  · obtain ⟨hstart, hp⟩ := h.pass _ hd
    exact sound_fail h hstart hp
  · obtain ⟨hstart, hp⟩ := h.pass _ hd
    exact sound_settle h hstart hp
  · exact h.idle ⟨rfl, rfl, rfl⟩ fun p hp => absurd hp (Option.not_mem_none p)
  · exact h.idle ⟨rfl, rfl, rfl⟩ fun p hp => absurd hp (Option.not_mem_none p)

@[simp] theorem calls_fail (plan : Plan) : (d.fail p plan).calls = d.calls := rfl

theorem calls_attempt (plan : Plan) (lookup : Lookup) (saved : Bool) :
    (d.attempt p plan lookup saved).calls = d.calls := by
  unfold Worker.attempt
  split
  · rfl
  split
  · rfl
  cases lookup with
  | failed => rfl
  | nothing => rfl
  | found slug chainId address => cases saved <;> rfl

theorem calls_settle (plan : Plan) (a : Answer) : (d.settle p plan a).calls = d.calls := by
  cases a with
  | refused => rfl
  | built cached => cases cached <;> rfl

/-- A step makes a call, of the window of the pass, or none. -/
theorem calls_of_step {l : Label} (hstep : step d l = some d') :
    (l = .send ∧ ∃ p ∈ d.pass, ∃ plan target, p.phase = .recorded plan target ∧
      d'.calls = ⟨d.clock, target, p.window.windowStartMs⟩ :: d.calls) ∨
    d'.calls = d.calls := by
  rcases step_cases hstep with ⟨ms, -, rfl⟩ | ⟨candidates, -, rfl⟩ |
    ⟨lookup, saved, window, plan, rest, summary, -, -, rfl⟩ |
    ⟨p, plan, target, rfl, hd, hphase, rfl⟩ | ⟨p, plan, -, -, rfl⟩ | ⟨a, p, plan, -, -, rfl⟩ |
    ⟨-, rfl⟩ | ⟨-, rfl⟩
  · exact Or.inr rfl
  · exact Or.inr rfl
  · exact Or.inr (calls_attempt _ _ _)
  · exact Or.inl ⟨rfl, p, hd, plan, target, hphase, rfl⟩
  · exact Or.inr (calls_fail _)
  · exact Or.inr (calls_settle _ _)
  · exact Or.inr rfl
  · exact Or.inr rfl

/-! ### The cap -/

/-- The calls of the last hour are the window's, or uncounted. -/
theorem rolling_le_uncounted (d : Worker) (p : Pass) :
    rolling Call.instant hourMs d.clock d.calls ≤
      uncounted d p + countedAt p.window.windowStartMs d.calls := by
  refine countP_le_add fun c _ hin => ?_
  have hin' := of_decide_eq_true hin
  by_cases hstart : c.windowStartMs = p.window.windowStartMs
  · exact Or.inr (decide_eq_true hstart)
  · exact Or.inl (decide_eq_true ⟨hstart, hin'.1⟩)

theorem capped_step {l : Label} (h : Sound d) (hcapped : Capped d) (hfresh : Fresh d l)
    (hstep : step d l = some d') : Capped d' := by
  rcases calls_of_step hstep with ⟨rfl, p, hd, plan, target, hphase, hcalls⟩ | hcalls
  · intro t
    rw [hcalls]
    refine rolling_cons_le h.past rfl (hcapped t) ?_
    obtain ⟨-, hp⟩ := h.pass p hd
    have hcount := (hp.recorded plan target hphase).1
    have hsplit := rolling_le_uncounted d p
    have hnew : d.clock - hourMs < d.clock ∧ d.clock ≤ d.clock := by
      rw [hourMs]
      omega
    have hcons : rolling Call.instant hourMs d.clock
        (⟨d.clock, target, p.window.windowStartMs⟩ :: d.calls) =
          rolling Call.instant hourMs d.clock d.calls + 1 := rolling_cons_of_le hnew
    show rolling Call.instant hourMs d.clock _ ≤ _
    rw [hcons]
    -- the window has counted the new call
    rcases hfresh p hd with hnone | hboth
    · have hcap := hp.cap
      omega
    · omega
  · intro t
    rw [hcalls]
    exact hcapped t

/-- **No hour holds more calls than the cap**, when each is made with those of earlier windows an
hour old, or within the cap together with them. -/
theorem capped_of_reach (h : Transition.Reach step Fresh init d) : Capped d := by
  have hinv : Sound d ∧ Capped d := by
    refine h.invariant (I := fun d => Sound d ∧ Capped d) ⟨sound_init, fun t => Nat.zero_le _⟩ ?_
    rintro d l d' - ⟨hsound, hcapped⟩ hfresh hstep
    exact ⟨sound_step hsound hstep, capped_step hsound hcapped hfresh hstep⟩
  exact hinv.2

/-- Whatever the times, no window has more calls than the cap. -/
theorem countedAt_le_of_reachable (h : Transition.Reachable step init d) :
    ∀ w ∈ d.stored, countedAt w.windowStartMs d.calls ≤ speculativeCap := by
  have hsound : Sound d :=
    h.invariant sound_init fun d l d' _ hsound _ hstep => sound_step hsound hstep
  exact fun w hw => (hsound.stored w hw).2.2.trans (hsound.stored w hw).2.1

end

/-! ### Two windows -/

instance (d : Worker) : DecidablePred (Fresh d) := fun l =>
  match l with
  | .send => (inferInstance : Decidable (∀ p ∈ d.pass,
      uncounted d p = 0 ∨ uncounted d p + p.window.count ≤ speculativeCap))
  | .tick _ | .start _ | .next .. | .throw | .answer _ | .finish | .restart => isTrue trivial

namespace Sample

def plan : Plan := ⟨"plan", "project", "wallet", 1⟩

/-- A candidate whose call succeeds. -/
def built : List Label :=
  [.next (.found "drop" 4663 "0xaa") true, .send, .answer (.built true)]

/-- A pass over as many candidates, all of which are built. -/
def pass (n : ℕ) : List Label :=
  .start (List.replicate n plan) :: (List.replicate n built).flatten ++ [.finish]

/-- One call, then nothing for almost an hour. -/
def opened : List Label := pass 1 ++ [.tick (59 * 60 * 1000)]

/-- The rest of the window in one minute, and the next window in the same. -/
def straddled : List Label :=
  opened ++ pass 5 ++ pass 5 ++ pass 5 ++ pass 5 ++ pass 3 ++ [.tick (60 * 1000)] ++ pass 5

end Sample

/-- A call, and another an hour later. -/
theorem capped_of_reach_hourly :
    ∃ d, Transition.Reach step Fresh init d ∧ d.calls.length = 2 ∧ Capped d := by
  obtain ⟨d, hreach, hlength⟩ := Transition.exists_reach_of_run step Fresh init
    (Sample.opened ++ [.tick (60 * 1000)] ++ Sample.pass 1) (fun d => d.calls.length = 2)
    (by decide +kernel) (by decide +kernel)
  exact ⟨d, hreach, of_decide_eq_true hlength, capped_of_reach hreach⟩

/-- **Two windows** meet in one hour. -/
theorem two_windows : ¬∀ d, Transition.Reachable step init d → Capped d := by
  intro h
  obtain ⟨d, hreach, hmany⟩ := Transition.exists_reachable_of_run step init Sample.straddled
    (fun d => speculativeCap < rolling Call.instant hourMs hourMs d.calls) (by decide +kernel)
  exact absurd (h d hreach hourMs) (not_le.mpr (of_decide_eq_true hmany))

end PreBuild
