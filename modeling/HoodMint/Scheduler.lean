/-
The worker's interval loops (`apps/worker/src/scheduler.ts`).

* `delayAfterFailure`, `startupDelay`, `runProviderJob` — the delays, and a queue job that a
  provider has told to wait;
* `State`, `step` — one loop in the event loop: its timers, the passes it has started, and the
  variables `stopped` and `timer`; the environment lets time pass, fires timers that are due, ends
  passes and calls the stop function, in any order;
* `Inv` — one thing is pending at a time: a timer, or a pass under way;
* `passes_apart` — no two passes overlap, the loop never dies, and after a stop none starts;
* `passes_spaced` — how far apart they are, and how many fit into a window.

A pass is under way as long as it has not `settled`; nothing in `step` keeps a second timer from
being armed, nor a second pass from starting.
-/
import HoodMint.Lib.Spacing
import HoodMint.Lib.Transition
import HoodMint.ProviderFetch
import Mathlib.Data.List.Chain

namespace Scheduler

open ProviderHttp Transition Utf16

/-! ### Delays -/

/-- `() => Math.floor(base * 0.1 * random())`, a whole number of at most a tenth. -/
structure Random where
  jitter : ℕ → ℕ
  jitter_le : ∀ base, jitter base ≤ base / 10

/-- The error of a provider that has told us to wait, or for which no credential is usable. -/
def backpressure : Thrown → Option AppError
  | .app error =>
    if error.category ≠ .rateLimited ∧ error.category ≠ .authRequired then none else some error
  | _ => none

/-- `delayAfterFailure`. -/
def delayAfterFailure (intervalMs : ℕ) (error : Thrown) (random : Random) : ℕ :=
  match backpressure error with
  | none => intervalMs
  | some error =>
    let providerDelayMs := error.retryAfterSeconds.getD (5 * 60) * 1000
    let base := max intervalMs providerDelayMs
    base + random.jitter base

/-- What `runProviderJob` gives BullMQ, and what `onPark` is called with. -/
def runProviderJob {T : Type} (task : Except Thrown T) (random : Random) :
    Except Thrown (Option T) × Option (Thrown × ℕ) :=
  match task with
  | .ok result => (.ok (some result), none)
  | .error error =>
    match backpressure error with
    | none => (.error error, none)
    | some _ => (.ok none, some (error, delayAfterFailure 0 error random))

/-- The first code unit of each code point of a text, `char.charCodeAt(0)`. -/
def leads : JsString → List UInt16
  | u :: v :: rest =>
    if 0xD800 ≤ u ∧ u < 0xDC00 ∧ 0xDC00 ≤ v ∧ v < 0xE000 then u :: leads rest
    else u :: leads (v :: rest)
  | short => short

/-- `startupDelay`. -/
def startupDelay (name : JsString) (intervalMs : ℕ) : ℕ :=
  let window := min intervalMs 5000
  let hash := (leads name).foldl (fun hash char => (hash * 31 + char.toNat) % 2 ^ 32) 0
  if window = 0 then 0 else hash % window

theorem delayAfterFailure_of_backpressure {intervalMs : ℕ} {error : Thrown} {random : Random}
    {e : AppError} (h : backpressure error = some e) :
    max intervalMs (e.retryAfterSeconds.getD 300 * 1000) ≤
      delayAfterFailure intervalMs error random := by
  rw [delayAfterFailure, h]
  exact Nat.le_add_right _ _

/-- A failure never shortens the wait. -/
theorem le_delayAfterFailure (intervalMs : ℕ) (error : Thrown) (random : Random) :
    intervalMs ≤ delayAfterFailure intervalMs error random := by
  cases h : backpressure error with
  | none => rw [delayAfterFailure, h]
  | some e => exact (le_max_left _ _).trans (delayAfterFailure_of_backpressure h)

/-- A job is parked for no less than the provider has asked for, and what it threw is what `onPark`
is told. -/
theorem runProviderJob_parks {T : Type} {task : Except Thrown T} {random : Random} {error : Thrown}
    {delayMs : ℕ} (h : (runProviderJob task random).2 = some (error, delayMs)) :
    task = .error error ∧ ∃ e, backpressure error = some e ∧
      e.retryAfterSeconds.getD 300 * 1000 ≤ delayMs := by
  cases task with
  | ok result => cases h
  | error thrown =>
    rw [runProviderJob] at h
    cases hpark : backpressure thrown with
    | none =>
      rw [hpark] at h
      cases h
    | some e =>
      rw [hpark] at h
      obtain ⟨rfl, rfl⟩ := Prod.mk.inj (Option.some_inj.mp h)
      exact ⟨rfl, e, hpark, (le_max_right _ _).trans (delayAfterFailure_of_backpressure hpark)⟩

/-! ### One loop -/

/-- `ScheduledTaskOptions`, without the functions. -/
structure Options where
  intervalMs : ℕ
  name : JsString
  initialDelayMs : Option ℕ := none

/-- How a pass ends; `reported` tells whether `onError` returned. -/
inductive Outcome
  | done
  | failed (error : Thrown) (reported : Bool) (random : Random)

/-- A pass of the task, and when and how it settled. -/
structure Pass where
  startedMs : ℕ
  settled : Option (ℕ × Outcome) := none

/-- A timer of the event loop. -/
structure Timer where
  id : ℕ
  dueMs : ℕ
deriving DecidableEq

structure State where
  nowMs : ℕ
  stopped : Bool
  timer : Option ℕ
  nextId : ℕ
  armed : List Timer
  passes : List Pass

/-- The longest delay a timer has. -/
def maxTimeoutMs : ℕ := 2147483647

/-- The delay of a timer: one that is out of range counts as a millisecond. -/
def timeoutMs (delayMs : ℕ) : ℕ := if 1 ≤ delayMs ∧ delayMs ≤ maxTimeoutMs then delayMs else 1

theorem timeoutMs_of_le {delayMs : ℕ} (h : delayMs ≤ maxTimeoutMs) :
    delayMs ≤ timeoutMs delayMs := by
  rw [timeoutMs]
  split <;> omega

inductive Event
  | elapse (ms : ℕ)
  | fire (id : ℕ)
  | settle (pass : ℕ) (outcome : Outcome)
  | stop

namespace Options

variable (options : Options)

/-- `nextDelay`: it is assigned after `onError` has returned. -/
def nextDelay : Outcome → ℕ
  | .done => options.intervalMs
  | .failed error reported random =>
    if reported then delayAfterFailure options.intervalMs error random else options.intervalMs

def firstDelay : ℕ := options.initialDelayMs.getD (startupDelay options.name options.intervalMs)

/-- `schedule`. -/
def schedule (s : State) (delayMs : ℕ) : State :=
  if s.stopped then s
  else
    { s with
      timer := some s.nextId
      nextId := s.nextId + 1
      armed := ⟨s.nextId, s.nowMs + timeoutMs delayMs⟩ :: s.armed }

/-- `scheduleNonOverlappingTask`, called at `nowMs`. -/
def start (nowMs : ℕ) : State :=
  schedule ⟨nowMs, false, none, 0, [], []⟩ options.firstDelay

/-- The function it returns. -/
def stop (s : State) : State :=
  { s with
    stopped := true
    armed := match s.timer with
      | some id => s.armed.filter fun timer => timer.id ≠ id
      | none => s.armed }

def step (s : State) : Event → Option State
  | .elapse ms => some { s with nowMs := s.nowMs + ms }
  | .fire id =>
    match s.armed.find? fun timer => timer.id = id with
    | some timer =>
      if timer.dueMs ≤ s.nowMs then
        some { s with armed := s.armed.erase timer, passes := ⟨s.nowMs, none⟩ :: s.passes }
      else none
    | none => none
  | .settle pass outcome =>
    match s.passes[pass]? with
    | some ⟨startedMs, none⟩ =>
      some (schedule
        { s with passes := s.passes.set pass ⟨startedMs, some (s.nowMs, outcome)⟩ }
        (options.nextDelay outcome))
    | _ => none
  | .stop => some (stop s)

theorem intervalMs_le_nextDelay (outcome : Outcome) :
    options.intervalMs ≤ options.nextDelay outcome := by
  cases outcome with
  | done => exact le_rfl
  | failed error reported random =>
    cases reported with
    | false => exact le_rfl
    | true => exact le_delayAfterFailure _ _ _

/-! ### What is pending -/

/-- The pass has settled, and its delay is over at `t`. -/
def Rested (pass : Pass) (t : ℕ) : Prop :=
  ∃ settledMs outcome, pass.settled = some (settledMs, outcome) ∧ pass.startedMs ≤ settledMs ∧
    settledMs + timeoutMs (options.nextDelay outcome) ≤ t

theorem Rested.mono {pass : Pass} {t t' : ℕ} (h : options.Rested pass t) (ht : t ≤ t') :
    options.Rested pass t' := by
  obtain ⟨settledMs, outcome, hsettled, hle, hrest⟩ := h
  exact ⟨settledMs, outcome, hsettled, hle, hrest.trans ht⟩

/-- Newest first, each pass starts after the one before has rested. -/
def Chain (passes : List Pass) : Prop :=
  passes.IsChain fun newer older => options.Rested older newer.startedMs

/-- What is pending: a timer, a pass under way, or nothing after a stop. -/
inductive Pending (s : State) : Prop
  | waiting (timer : Timer) (hrunning : s.stopped = false) (htimer : s.timer = some timer.id)
      (harmed : s.armed = [timer]) (hrest : ∀ p ∈ s.passes.head?, options.Rested p timer.dueMs)
  | working (startedMs : ℕ) (older : List Pass) (harmed : s.armed = [])
      (hpasses : s.passes = ⟨startedMs, none⟩ :: older) (hpast : startedMs ≤ s.nowMs)
  | over (hstopped : s.stopped = true) (harmed : s.armed = [])
      (hsettled : ∀ p ∈ s.passes.head?, p.settled.isSome)

structure Inv (s : State) : Prop where
  chain : options.Chain s.passes
  pending : options.Pending s

variable {options} {s s' : State}

theorem inv_start (nowMs : ℕ) : options.Inv (options.start nowMs) :=
  ⟨List.isChain_nil, .waiting ⟨0, nowMs + timeoutMs options.firstDelay⟩ rfl rfl rfl nofun⟩

theorem Inv.elapse (h : options.Inv s) (ms : ℕ) :
    options.Inv { s with nowMs := s.nowMs + ms } := by
  refine ⟨h.chain, ?_⟩
  rcases h.pending with ⟨timer, hr, ht, ha, hrest⟩ | ⟨started, older, ha, hp, hpast⟩ | ⟨hs, ha, hp⟩
  · exact .waiting timer hr ht ha hrest
  · exact .working started older ha hp (Nat.le_add_right_of_le hpast)
  · exact .over hs ha hp

theorem Inv.stop (h : options.Inv s) : options.Inv (stop s) := by
  refine ⟨h.chain, ?_⟩
  have harmed : s.armed = [] → (Options.stop s).armed = [] := by
    intro ha
    rw [Options.stop]
    cases s.timer <;> simp [ha]
  rcases h.pending with ⟨timer, _, ht, ha, hrest⟩ | ⟨started, older, ha, hp, hpast⟩ | ⟨_, ha, hp⟩
  · -- the timer that is cleared is the one that is armed
    refine .over rfl (by simp [Options.stop, ht, ha]) fun p hp => ?_
    obtain ⟨settledMs, outcome, hsettled, -, -⟩ := hrest p hp
    simp [hsettled]
  · exact .working started older (harmed ha) hp hpast
  · exact .over rfl (harmed ha) hp

theorem Rested.isSome {pass : Pass} {t : ℕ} (h : options.Rested pass t) :
    pass.settled.isSome := by
  obtain ⟨settledMs, outcome, hsettled, -, -⟩ := h
  simp [hsettled]

/-- In a chain whose newest pass has settled no pass is under way. -/
theorem not_underway {passes : List Pass} (h : options.Chain passes)
    (hhead : ∀ p ∈ passes.head?, p.settled.isSome) (i startedMs : ℕ) :
    passes[i]? ≠ some ⟨startedMs, none⟩ := by
  induction passes generalizing i with
  | nil => simp
  | cons p older ih =>
    cases i with
    | zero =>
      intro hi
      have := hhead p rfl
      rw [List.getElem?_cons_zero, Option.some_inj] at hi
      simp [hi] at this
    | succ i =>
      obtain ⟨hrest, hchain⟩ := List.isChain_cons.mp h
      exact ih hchain (fun q hq => (hrest q hq).isSome) i

/-- A timer that fires is the only one, and nothing is under way. -/
theorem Inv.fire {id : ℕ} (h : options.Inv s) (hs : options.step s (.fire id) = some s') :
    options.Inv s' ∧ s.stopped = false := by
  rw [step] at hs
  split at hs
  · next timer hfind =>
    split at hs
    · next hdue =>
      obtain rfl := Option.some_inj.mp hs
      have hmem : timer ∈ s.armed := List.mem_of_find?_eq_some hfind
      rcases h.pending with ⟨timer', hr, -, ha, hrest⟩ | ⟨_, _, ha, -, -⟩ | ⟨-, ha, -⟩
      · rw [ha, List.mem_singleton] at hmem
        subst hmem
        refine ⟨⟨?_, .working s.nowMs s.passes (by simp [ha]) rfl le_rfl⟩, hr⟩
        exact List.isChain_cons.mpr ⟨fun p hp => (hrest p hp).mono _ hdue, h.chain⟩
      · rw [ha] at hmem
        exact absurd hmem List.not_mem_nil
      · rw [ha] at hmem
        exact absurd hmem List.not_mem_nil
    · exact absurd hs nofun
  · exact absurd hs nofun

/-- A pass that settles was the newest, and the only one under way. -/
theorem Inv.settle {pass : ℕ} {outcome : Outcome} (h : options.Inv s)
    (hs : options.step s (.settle pass outcome) = some s') : options.Inv s' := by
  rw [step] at hs
  split at hs
  · next startedMs hget =>
    obtain rfl := Option.some_inj.mp hs
    have hsettled : ∀ older : List Pass, options.Chain (⟨startedMs, none⟩ :: older) →
        options.Chain (⟨startedMs, some (s.nowMs, outcome)⟩ :: older) := by
      intro older hc
      exact List.isChain_cons.mpr (List.isChain_cons.mp hc)
    rcases h.pending with ⟨_, -, -, -, hrest⟩ | ⟨started', older, ha, hp, hpast⟩ | ⟨-, -, hp⟩
    · exact absurd hget (not_underway h.chain (fun p hp => (hrest p hp).isSome) _ _)
    · have hchain : options.Chain (⟨started', none⟩ :: older) := hp ▸ h.chain
      obtain ⟨hrest, hold⟩ := List.isChain_cons.mp hchain
      obtain ⟨rfl, rfl⟩ : pass = 0 ∧ startedMs = started' := by
        rw [hp] at hget
        cases pass with
        | zero => simpa using hget.symm
        | succ pass =>
          have hunder : options.Chain older := hold
          exact absurd hget (not_underway hunder (fun p hp' => (hrest p hp').isSome) _ _)
      have hchain := hsettled older hchain
      rw [schedule]
      split
      · next hstopped =>
        refine ⟨by simpa [hp] using hchain, .over hstopped ha ?_⟩
        simp [hp]
      · next hrunning =>
        refine ⟨by simpa [hp] using hchain, .waiting ⟨s.nextId, _⟩ (by simpa using hrunning) rfl
          (by rw [ha]) ?_⟩
        rw [hp, List.set_cons_zero, List.head?_cons]
        intro p hp'
        obtain rfl := Option.some_inj.mp hp'
        exact ⟨s.nowMs, outcome, rfl, hpast, le_rfl⟩
    · exact absurd hget (not_underway h.chain hp _ _)
  · exact absurd hs nofun

theorem inv_step {event : Event} (h : options.Inv s) (hs : options.step s event = some s') :
    options.Inv s' := by
  cases event with
  | elapse ms => exact Option.some_inj.mp hs ▸ h.elapse ms
  | fire id => exact (h.fire hs).1
  | settle pass outcome => exact h.settle hs
  | stop => exact Option.some_inj.mp hs ▸ h.stop

/-- After a stop no pass starts: one step. -/
theorem starts_step {event : Event} (hinv : options.Inv s) (hstopped : s.stopped = true)
    (hs : options.step s event = some s') :
    s'.stopped = true ∧ s'.passes.map Pass.startedMs = s.passes.map Pass.startedMs := by
  cases event with
  | elapse ms =>
    obtain rfl := Option.some_inj.mp hs
    exact ⟨hstopped, rfl⟩
  | fire id =>
    -- the timers are gone
    exact absurd ((hinv.fire hs).2) (by simp [hstopped])
  | settle pass outcome =>
    rw [step] at hs
    split at hs
    · next startedMs hget =>
      obtain rfl := Option.some_inj.mp hs
      rw [schedule, if_pos (by exact hstopped)]
      refine ⟨hstopped, ?_⟩
      obtain ⟨hlt, hpass⟩ := List.getElem?_eq_some_iff.mp hget
      rw [List.map_set]
      refine (List.set_getElem_self (by simpa using hlt)).symm ▸ ?_
      simp [hpass]
    · exact absurd hs nofun
  | stop =>
    obtain rfl := Option.some_inj.mp hs
    exact ⟨rfl, rfl⟩

/-- After a stop no pass starts. -/
theorem starts_of_stopped {φ : State → Event → Prop} (hinv : options.Inv s)
    (hstopped : s.stopped = true) (h : Reach options.step φ s s') :
    s'.passes.map Pass.startedMs = s.passes.map Pass.startedMs := by
  have hall : options.Inv s' ∧ s'.stopped = true ∧
      s'.passes.map Pass.startedMs = s.passes.map Pass.startedMs := by
    refine h.invariant (I := fun t => options.Inv t ∧ t.stopped = true ∧
      t.passes.map Pass.startedMs = s.passes.map Pass.startedMs) ⟨hinv, hstopped, rfl⟩ ?_
    rintro t event t' - ⟨hinv, hstop, heq⟩ - hs
    obtain ⟨hstop', heq'⟩ := starts_step hinv hstop hs
    exact ⟨inv_step hinv hs, hstop', heq'.trans heq⟩
  exact hall.2.2

theorem inv_of_reach {φ : State → Event → Prop} {nowMs : ℕ}
    (h : Reach options.step φ (options.start nowMs) s) : options.Inv s :=
  h.invariant (inv_start nowMs) fun _ _ _ _ hinv _ hs => inv_step hinv hs

/-! ### The loop over a whole run -/

/-- The passes that are under way. -/
def underway (s : State) : List Pass := s.passes.filter fun p => p.settled.isNone

theorem underway_eq_nil {passes : List Pass} (h : options.Chain passes)
    (hhead : ∀ p ∈ passes.head?, p.settled.isSome) :
    passes.filter (fun p => p.settled.isNone) = [] := by
  refine List.filter_eq_nil_iff.mpr fun p hp hnone => ?_
  obtain ⟨i, hi⟩ := List.getElem?_of_mem hp
  obtain ⟨startedMs, settled⟩ := p
  obtain rfl := Option.isNone_iff_eq_none.mp hnone
  exact not_underway h hhead i startedMs hi

/-- A timer and no pass, one pass and no timer, or neither after a stop. -/
theorem Inv.count (h : options.Inv s) :
    (underway s).length + s.armed.length = if s.stopped ∧ underway s = [] then 0 else 1 := by
  rcases h.pending with ⟨timer, hr, -, ha, hrest⟩ | ⟨started, older, ha, hp, -⟩ | ⟨hs, ha, hold⟩
  · have hnone := underway_eq_nil h.chain fun p hp => (hrest p hp).isSome
    simp [underway, hnone, ha, hr]
  · obtain ⟨hrest, hold⟩ := List.isChain_cons.mp (hp ▸ h.chain : options.Chain (_ :: older))
    have hchain : options.Chain older := hold
    have hnone := underway_eq_nil hchain fun p hp' => (hrest p hp').isSome
    simp [underway, hp, hnone, ha]
  · have hnone := underway_eq_nil h.chain hold
    simp [underway, hnone, ha, hs]

/-- **Passes never overlap.**  In every state of every run a loop has one timer armed or one pass
under way, and never both; after a stop it has no timer, and no pass starts any more. -/
theorem passes_apart {nowMs : ℕ} (h : Reachable options.step (options.start nowMs) s) :
    (underway s).length + s.armed.length ≤ 1 ∧
      (s.stopped = false → (underway s).length + s.armed.length = 1) ∧
      (s.stopped = true → s.armed = [] ∧ ∀ s', Reachable options.step s s' →
        s'.passes.map Pass.startedMs = s.passes.map Pass.startedMs) := by
  have hinv : options.Inv s := inv_of_reach h
  have hcount := hinv.count
  refine ⟨?_, fun hr => ?_, fun hs => ⟨?_, fun s' hs' => starts_of_stopped hinv hs hs'⟩⟩
  · rw [hcount]
    split <;> omega
  · rw [hcount, if_neg (by simp [hr])]
  · rcases hinv.pending with ⟨_, hr, -, -, -⟩ | ⟨_, _, ha, -, -⟩ | ⟨-, ha, -⟩
    · exact absurd hs (by simp [hr])
    · exact ha
    · exact ha

/-- A loop with a minute between passes. -/
def everyMinute : Options := ⟨60000, ofText "rpc-health", some 5⟩

/-- The first pass is rate limited for ten minutes; the loop is stopped during the second. -/
def limitedRun : List Event :=
  [.elapse 7, .fire 0, .elapse 40,
    .settle 0 (.failed (.app ⟨.rateLimited, [], none, some 600⟩) true
      ⟨(· / 10), fun _ => le_rfl⟩),
    .elapse 660000, .fire 1, .stop]

theorem passes_apart_limitedRun : ∃ s : State, (s.stopped = true ∧ s.passes.length = 2) ∧
    (underway s).length + s.armed.length ≤ 1 := by
  obtain ⟨s, hreach, hs⟩ := exists_reachable_of_run (step everyMinute) (start everyMinute 0)
    limitedRun (fun s => decide (s.stopped = true ∧ s.passes.length = 2)) rfl
  exact ⟨s, of_decide_eq_true hs, (passes_apart hreach).1⟩

/-! ### The distance between passes -/

/-- The delay after a pass that settles is one a timer can have. -/
def InRange (options : Options) (_ : State) : Event → Prop
  | .settle _ outcome => options.nextDelay outcome ≤ maxTimeoutMs
  | _ => True

instance (s : State) : DecidablePred (options.InRange s) := fun event =>
  match event with
  | .settle _ outcome => inferInstanceAs (Decidable (options.nextDelay outcome ≤ maxTimeoutMs))
  | .elapse _ | .fire _ | .stop => isTrue trivial

/-- The outcomes so far were all in range. -/
def Timed (options : Options) (s : State) : Prop :=
  ∀ p ∈ s.passes, ∀ settledMs outcome, p.settled = some (settledMs, outcome) →
    options.nextDelay outcome ≤ maxTimeoutMs

theorem passes_schedule (s : State) (delayMs : ℕ) : (schedule s delayMs).passes = s.passes := by
  rw [schedule]
  split <;> rfl

theorem timed_step {event : Event} (h : options.Timed s) (hin : options.InRange s event)
    (hs : options.step s event = some s') : options.Timed s' := by
  cases event with
  | elapse ms => exact Option.some_inj.mp hs ▸ h
  | stop => exact Option.some_inj.mp hs ▸ h
  | fire id =>
    rw [step] at hs
    split at hs
    · split at hs
      · obtain rfl := Option.some_inj.mp hs
        intro p hp settledMs outcome hsettled
        rcases List.mem_cons.mp hp with rfl | hp
        · exact absurd hsettled nofun
        · exact h p hp settledMs outcome hsettled
      · exact absurd hs nofun
    · exact absurd hs nofun
  | settle pass outcome =>
    rw [step] at hs
    split at hs
    · obtain rfl := Option.some_inj.mp hs
      intro p hp settledMs outcome' hsettled
      rw [passes_schedule] at hp
      rcases List.mem_or_eq_of_mem_set hp with hp | rfl
      · exact h p hp settledMs outcome' hsettled
      · obtain ⟨-, rfl⟩ := Prod.mk.inj (Option.some_inj.mp hsettled)
        exact hin
    · exact absurd hs nofun

theorem timed_of_reach {nowMs : ℕ}
    (h : Reach options.step options.InRange (options.start nowMs) s) : options.Timed s :=
  h.invariant (fun _ hp => absurd hp List.not_mem_nil) fun _ _ _ _ htimed hin hs =>
    timed_step htimed hin hs

/-- What the newer of two passes has waited for after the older one settled: the interval, and
what a provider has asked for. -/
def Waited (options : Options) (newer older : Pass) : Prop :=
  ∃ settledMs outcome, older.settled = some (settledMs, outcome) ∧
    older.startedMs ≤ settledMs ∧ settledMs + options.intervalMs ≤ newer.startedMs ∧
    ∀ error e random, outcome = .failed error true random → backpressure error = some e →
      settledMs + e.retryAfterSeconds.getD 300 * 1000 ≤ newer.startedMs

theorem waited_of_rested {newer older : Pass} (h : options.Rested older newer.startedMs)
    (htimed : ∀ settledMs outcome, older.settled = some (settledMs, outcome) →
      options.nextDelay outcome ≤ maxTimeoutMs) : options.Waited newer older := by
  obtain ⟨settledMs, outcome, hsettled, hle, hrest⟩ := h
  have hdelay : options.nextDelay outcome ≤ timeoutMs (options.nextDelay outcome) :=
    timeoutMs_of_le (htimed settledMs outcome hsettled)
  have hinterval := options.intervalMs_le_nextDelay outcome
  refine ⟨settledMs, outcome, hsettled, hle, by omega, ?_⟩
  rintro error e random rfl he
  have hasked : max options.intervalMs (e.retryAfterSeconds.getD 300 * 1000) ≤
      options.nextDelay (.failed error true random) := delayAfterFailure_of_backpressure he
  omega

theorem spaced_of_waited {passes : List Pass} (h : passes.IsChain options.Waited) :
    Spacing.Spaced options.intervalMs (passes.map Pass.startedMs) := by
  induction passes with
  | nil => exact Spacing.Spaced.nil
  | cons newer rest ih =>
    obtain ⟨hnewer, hrest⟩ := List.isChain_cons.mp h
    refine (ih hrest).cons fun t ht => ?_
    rw [List.head?_map, Option.mem_map] at ht
    obtain ⟨older, holder, rfl⟩ := ht
    obtain ⟨settledMs, outcome, -, hle, hinterval, -⟩ := hnewer older holder
    omega

/-- **Cadence and backpressure.**  As long as no delay is longer than a timer can have, a pass
starts an interval after the one before it has settled, or as much later as a provider has asked
for, and so at most `span / intervalMs + 1` passes start in a window of length `span`. -/
theorem passes_spaced {nowMs : ℕ} (hinterval : 0 < options.intervalMs)
    (h : Reach options.step options.InRange (options.start nowMs) s) :
    s.passes.IsChain options.Waited ∧
      ∀ a span, ((s.passes.map Pass.startedMs).filter fun t =>
        decide (a ≤ t ∧ t ≤ a + span)).length ≤ span / options.intervalMs + 1 := by
  have hchain : s.passes.IsChain options.Waited := by
    have htimed := timed_of_reach h
    refine (inv_of_reach h).chain.imp_of_mem_imp fun newer older _ holder hrest => ?_
    exact waited_of_rested hrest (htimed older holder)
  exact ⟨hchain, fun a span => (spaced_of_waited hchain).count_le hinterval a span⟩

theorem passes_spaced_limitedRun : ∃ s : State, s.passes.length = 2 ∧
    s.passes.IsChain everyMinute.Waited := by
  obtain ⟨s, hreach, hs⟩ := exists_reach_of_run (step everyMinute) everyMinute.InRange
    (start everyMinute 0) limitedRun (fun s => decide (s.passes.length = 2)) rfl rfl
  exact ⟨s, of_decide_eq_true hs, (passes_spaced (by decide) hreach).1⟩

end Options

end Scheduler
