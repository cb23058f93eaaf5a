/-
The signature burst (`burstBuildOpenSeaMintTx` of `apps/worker/src/mint-tx.ts`).

* `fire`, `onBuilt`, `onError`, `onFinally` — the callbacks, over the variables they share;
* `step` — the event loop: the interval fires, requests are answered, their `finally` runs, each
  at a reading of the clock, in any order;
* `decides`, `Lawful` — what a burst promises;
* `lawful_iff` — it keeps the promise exactly when no key that the list has twice comes up again
  before the deadline; `same_key_again` — a list that has one twice.
-/
import HoodMint.ExecutionEffects
import HoodMint.Lib.Text
import HoodMint.Lib.Transition
import Mathlib.Logic.Function.Basic

namespace SignatureBurst

open MintWorker Transition

/-! ### The callbacks -/

/-- What a burst is started with.  `keys` has at least one key; `startMs` is the clock. -/
structure Input where
  keys : List String
  chainId : ℕ
  maxMs : ℤ
  cadenceMs : ℤ
  startMs : ℕ

def Input.deadline (b : Input) : ℤ := b.startMs + b.maxMs

/-- How long `setInterval` waits: what does not fit is one millisecond. -/
def Input.intervalMs (b : Input) : ℕ :=
  if 1 ≤ b.cadenceMs ∧ b.cadenceMs ≤ 2147483647 then b.cadenceMs.toNat else 1

/-- `DropMintTransaction`. -/
structure DropMintTransaction where
  target : String
  calldata : String
  valueWei : ℕ

/-- The answer to a request. -/
abbrev Reply := Except Thrown DropMintTransaction

/-- A request that has been started: the index of its key, and when. -/
structure Request where
  idx : ℕ
  startedMs : ℕ

/-- The variables of a burst, and its requests: those without an answer, those whose `finally` is
still to run, and all answers so far.  The interval is `due` at an instant, or later. -/
structure Burst where
  clock : ℕ
  due : ℕ
  settled : Option (Except Thrown Tx)
  inFlight : ℕ
  i : ℕ
  penalized : ℕ → Option ℕ
  attempts : ℕ
  lastError : String
  requests : List Request
  pending : List ℕ
  answered : List ℕ
  replies : List Reply

/-- Runs of blanks made one, as `text.replace(/\s+/g, " ")`. -/
def squeeze : List Char → List Char
  | [] => []
  | c :: text =>
    if Text.isSpace c then
      if (text.head?.map Text.isSpace).getD false then squeeze text else ' ' :: squeeze text
    else c :: squeeze text

def oneLine (message : String) : String := String.ofList ((squeeze message.toList).take 160)

example : oneLine "provider\n  rate  limited " = "provider rate limited " := by decide

/-- `/429|rate limit/i.test(message)`. -/
def isRateLimited (message : String) : Bool :=
  mentions "429" message || mentions "rate limit" message

/-- The error of an answer 429, as `fetchJson` words it. -/
example : isRateLimited "provider rate limited" = true := by decide

namespace Burst

variable (b : Input) (s : Burst)

/-- The error of a burst that has run out of time. -/
def timedOut : Except Thrown Tx :=
  .error (.error ("signature burst timed out after " ++ toString s.attempts ++ " attempts: " ++
    s.lastError))

/-- `finish`. -/
def finish (result : Except Thrown Tx) : Burst :=
  if s.settled.isNone then { s with settled := some result } else s

/-- `fire`. -/
def fire (now : ℕ) : Burst :=
  if s.settled.isSome then s
  else if b.deadline < now then
    if s.inFlight = 0 then s.finish s.timedOut else s
  else
    let idx := s.i % b.keys.length
    let s := { s with i := s.i + 1 }
    if now < (s.penalized idx).getD 0 then s
    else match b.keys[idx]? with
    | none => s
    | some _ =>
      { s with
        attempts := s.attempts + 1
        inFlight := s.inFlight + 1
        requests := s.requests ++ [⟨idx, now⟩]
        pending := s.requests.length :: s.pending }

/-- What `then` does with calldata. -/
def onBuilt (tx : DropMintTransaction) : Burst :=
  s.finish (.ok ⟨tx.target, tx.calldata, tx.valueWei, b.chainId⟩)

/-- What `catch` does with an error. -/
def onError (idx : ℕ) (error : Thrown) (now : ℕ) : Burst :=
  let message := error.text
  let s := { s with lastError := oneLine message }
  let s := if isRateLimited message then
    { s with penalized := Function.update s.penalized idx (some (now + 1500)) } else s
  if isTerminalMintBuildError message && !isPerWalletLimitError message then
    s.finish (.error error.asError)
  else s

def onReply (idx : ℕ) (reply : Reply) (now : ℕ) : Burst :=
  match reply with
  | .ok tx => s.onBuilt b tx
  | .error error => s.onError idx error now

/-- What `finally` does. -/
def onFinally (now : ℕ) : Burst :=
  let s := { s with inFlight := s.inFlight - 1 }
  if s.settled.isNone && b.deadline < now && s.inFlight = 0 then s.finish s.timedOut else s

end Burst

/-! ### The event loop -/

/-- What can happen: `fire` is called, a request is answered, its `finally` runs, or something
else. -/
inductive Step
  | tick (now : ℕ)
  | answer (r : ℕ) (reply : Reply) (now : ℕ)
  | release (r : ℕ) (now : ℕ)
  | idle (now : ℕ)

def Step.now : Step → ℕ
  | .tick now => now
  | .answer _ _ now => now
  | .release _ now => now
  | .idle now => now

/-- A burst before its first call of `fire`, which does not wait for the interval. -/
def init (b : Input) : Burst :=
  ⟨b.startMs, b.startMs, none, 0, 0, fun _ => none, 0, "no attempt", [], [], [], []⟩

/-- A step, at a reading of the clock that is not before the last.  The interval is cleared once
the burst has settled, and never fires early. -/
def step (b : Input) (s : Burst) (l : Step) : Option Burst :=
  if l.now < s.clock then none
  else match l with
    | .tick now =>
      if s.settled.isSome ∨ now < s.due then none
      else some { s.fire b now with due := now + b.intervalMs, clock := now }
    | .answer r reply now =>
      if r ∈ s.pending then
        s.requests[r]?.map fun request =>
          { s.onReply b request.idx reply now with
            pending := s.pending.erase r
            answered := r :: s.answered
            replies := s.replies ++ [reply]
            clock := now }
      else none
    | .release r now =>
      if r ∈ s.answered then
        some { s.onFinally b now with answered := s.answered.erase r, clock := now }
      else none
    | .idle now => some { s with clock := now }

/-! ### The promise -/

/-- How an answer decides the burst: calldata does, and an error that is terminal for the drop. -/
def decides (b : Input) : Reply → Option (Except Thrown Tx)
  | .ok tx => some (.ok ⟨tx.target, tx.calldata, tx.valueWei, b.chainId⟩)
  | .error error =>
    if isTerminalMintBuildError error.text && !isPerWalletLimitError error.text then
      some (.error error.asError)
    else none

/-- A run of the event loop. -/
abbrev Run (b : Input) := InfiniteRun (step b) (init b)

/-- Time passes and the interval fires, every request is answered, and its `finally` runs. -/
structure Fair {b : Input} (run : Run b) : Prop where
  ticks : ∀ t n, ∃ m ≥ n, (run.state m).settled.isSome ∨ ∃ now ≥ t, run.label m = .tick now
  answers : ∀ n, ∀ r ∈ (run.state n).pending, ∃ m ≥ n, ∃ reply now, run.label m = .answer r reply now
  finallys : ∀ n, ∀ r ∈ (run.state n).answered, ∃ m ≥ n, ∃ now, run.label m = .release r now

/-- What a burst promises of every run. -/
structure Lawful (b : Input) : Prop where
  settles : ∀ run : Run b, Fair run → ∃ n, (run.state n).settled.isSome
  /-- It settles by the first answer that decides it, -/
  decided : ∀ s, Reachable (step b) (init b) s → ∀ result,
    s.replies.findSome? (decides b) = some result → s.settled = some result
  /-- else only by running out of time. -/
  undecided : ∀ s, Reachable (step b) (init b) s → s.replies.findSome? (decides b) = none →
    ∀ result, s.settled = some result → result = s.timedOut ∧ b.deadline < s.clock
  /-- No other answer ends it. -/
  continues : ∀ s s' r reply now, Reachable (step b) (init b) s →
    step b s (.answer r reply now) = some s' → decides b reply = none → s'.settled = s.settled
  /-- A request is started only before the deadline, while the burst has not settled. -/
  starts : ∀ s s' l, Reachable (step b) (init b) s → step b s l = some s' →
    s.requests.length < s'.requests.length → s.settled = none ∧ l.now ≤ b.deadline
  /-- After an answer 429, its key rests. -/
  rests : ∀ s s' s'' r request error now, Reachable (step b) (init b) s →
    step b s (.answer r (.error error) now) = some s' → isRateLimited error.text →
      s.requests[r]? = some request → Reachable (step b) s' s'' →
        ∀ later ∈ s''.requests.drop s'.requests.length,
          b.keys[later.idx]? = b.keys[request.idx]? → now + 1500 ≤ later.startedMs

/-- No key comes up twice in the list before the deadline. -/
def Input.Apart (b : Input) : Prop :=
  ∀ i j, i < j → j < b.keys.length → b.keys[i]? = b.keys[j]? → b.maxMs < j * b.intervalMs

/-! ### What the callbacks do -/

variable {b : Input} {s s' s'' : Burst} {now r idx : ℕ} {reply : Reply}

namespace Burst

theorem finish_eq (result : Except Thrown Tx) :
    s.finish result = { s with settled := s.settled.or (some result) } := by
  rw [finish]
  cases s with
  | mk _ _ settled => cases settled <;> rfl

/-- A call of `fire` while the burst goes on: after the deadline it settles once nothing is in
flight, before it starts a request unless the key rests. -/
theorem fire_cases (hkeys : b.keys ≠ []) (hs : s.settled = none) (now : ℕ) :
    (b.deadline < now ∧ s.inFlight = 0 ∧ s.fire b now = { s with settled := some s.timedOut }) ∨
    (b.deadline < now ∧ s.inFlight ≠ 0 ∧ s.fire b now = s) ∨
    (now ≤ b.deadline ∧ now < (s.penalized (s.i % b.keys.length)).getD 0 ∧
      s.fire b now = { s with i := s.i + 1 }) ∨
    (now ≤ b.deadline ∧ (s.penalized (s.i % b.keys.length)).getD 0 ≤ now ∧
      s.fire b now =
        { s with
          i := s.i + 1
          attempts := s.attempts + 1
          inFlight := s.inFlight + 1
          requests := s.requests ++ [⟨s.i % b.keys.length, now⟩]
          pending := s.requests.length :: s.pending }) := by
  have hidx : s.i % b.keys.length < b.keys.length :=
    Nat.mod_lt _ (List.length_pos_iff.mpr hkeys)
  have hkey : b.keys[s.i % b.keys.length]? = some b.keys[s.i % b.keys.length] :=
    List.getElem?_eq_getElem hidx
  rw [fire, if_neg (by simp [hs])]
  by_cases hlate : b.deadline < now
  · rw [if_pos hlate]
    by_cases hflight : s.inFlight = 0
    · rw [if_pos hflight, finish_eq, hs]
      exact Or.inl ⟨hlate, hflight, rfl⟩
    · rw [if_neg hflight]
      exact Or.inr (Or.inl ⟨hlate, hflight, rfl⟩)
  · rw [if_neg hlate]
    have hearly : now ≤ b.deadline := Int.not_lt.mp hlate
    by_cases hrest : now < (s.penalized (s.i % b.keys.length)).getD 0
    · refine Or.inr (Or.inr (Or.inl ⟨hearly, hrest, ?_⟩))
      simp only [if_pos hrest]
    · refine Or.inr (Or.inr (Or.inr ⟨hearly, not_lt.mp hrest, ?_⟩))
      simp only [if_neg hrest, hkey]

/-- An answer settles the burst if it decides it, and lays its key to rest if it is 429. -/
theorem onReply_eq (b : Input) (s : Burst) (idx : ℕ) (reply : Reply) (now : ℕ) :
    ∃ lastError penalized,
      s.onReply b idx reply now =
        { s with settled := s.settled.or (decides b reply), lastError, penalized } ∧
      (∀ idx', penalized idx' = s.penalized idx' ∨
        idx' = idx ∧ penalized idx' = some (now + 1500)) ∧
      ∀ error, reply = .error error → isRateLimited error.text →
        penalized idx = some (now + 1500) := by
  cases reply with
  | ok tx =>
    refine ⟨s.lastError, s.penalized, ?_, fun _ => Or.inl rfl, fun _ h => by cases h⟩
    rw [onReply, onBuilt, finish_eq, decides]
  | error error =>
    refine ⟨oneLine error.text, if isRateLimited error.text then
      Function.update s.penalized idx (some (now + 1500)) else s.penalized, ?_, fun idx' => ?_,
      fun _ h hrate => ?_⟩
    · rw [onReply, onError, decides]
      by_cases hrate : isRateLimited error.text <;>
        by_cases hdecides :
          (isTerminalMintBuildError error.text && !isPerWalletLimitError error.text) = true <;>
        simp [hrate, hdecides, finish_eq]
    · by_cases hrate : isRateLimited error.text
      · rw [if_pos hrate]
        by_cases hidx : idx' = idx
        · exact Or.inr ⟨hidx, hidx ▸ Function.update_self _ _ _⟩
        · exact Or.inl (Function.update_of_ne hidx _ _)
      · exact Or.inl (congrFun (if_neg hrate) idx')
    · cases h
      rw [if_pos hrate]
      exact Function.update_self _ _ _

/-- The last `finally` after the deadline settles the burst. -/
theorem onFinally_cases (b : Input) (s : Burst) (now : ℕ) :
    (s.settled = none ∧ b.deadline < now ∧ s.inFlight - 1 = 0 ∧
      s.onFinally b now =
        { s with inFlight := s.inFlight - 1, settled := some s.timedOut }) ∨
    s.onFinally b now = { s with inFlight := s.inFlight - 1 } := by
  rw [onFinally]
  by_cases hend : (s.settled.isNone && b.deadline < now && s.inFlight - 1 = 0) = true
  · simp only [Bool.and_eq_true, Option.isNone_iff_eq_none, decide_eq_true_eq] at hend
    obtain ⟨⟨hs, hlate⟩, hflight⟩ := hend
    refine Or.inl ⟨hs, hlate, hflight, ?_⟩
    simp [hs, hlate, hflight, finish_eq, timedOut]
  · exact Or.inr (if_neg hend)

end Burst

/-! ### What a step does -/

theorem step_tick (h : step b s (.tick now) = some s') :
    s.settled = none ∧ s.due ≤ now ∧
      s' = { s.fire b now with due := now + b.intervalMs, clock := now } := by
  rw [step.eq_def] at h
  simp only [Option.ite_none_left_eq_some, not_or, not_lt, Option.some_inj] at h
  obtain ⟨-, ⟨hs, hdue⟩, hs'⟩ := h
  exact ⟨Option.not_isSome_iff_eq_none.mp hs, hdue, hs'.symm⟩

theorem step_answer (h : step b s (.answer r reply now) = some s') :
    r ∈ s.pending ∧ ∃ request, s.requests[r]? = some request ∧
      s' = { s.onReply b request.idx reply now with
        pending := s.pending.erase r
        answered := r :: s.answered
        replies := s.replies ++ [reply]
        clock := now } := by
  rw [step.eq_def] at h
  simp only [Option.ite_none_left_eq_some, Option.ite_none_right_eq_some,
    Option.map_eq_some_iff] at h
  obtain ⟨-, hr, request, hrequest, hs'⟩ := h
  exact ⟨hr, request, hrequest, hs'.symm⟩

theorem step_release (h : step b s (.release r now) = some s') :
    r ∈ s.answered ∧
      s' = { s.onFinally b now with answered := s.answered.erase r, clock := now } := by
  rw [step.eq_def] at h
  simp only [Option.ite_none_left_eq_some, Option.ite_none_right_eq_some, Option.some_inj] at h
  exact ⟨h.2.1, h.2.2.symm⟩

theorem step_idle (h : step b s (.idle now) = some s') : s' = { s with clock := now } := by
  rw [step.eq_def] at h
  simp only [Option.ite_none_left_eq_some, Option.some_inj] at h
  exact h.2.symm

theorem step_clock {l : Step} (h : step b s l = some s') : s.clock ≤ l.now ∧ s'.clock = l.now := by
  constructor
  · by_contra hlt
    rw [step.eq_def, if_pos (not_le.mp hlt)] at h
    cases h
  · cases l with
    | tick now =>
      obtain ⟨-, -, rfl⟩ := step_tick h
      rfl
    | answer r reply now =>
      obtain ⟨-, request, -, rfl⟩ := step_answer h
      rfl
    | release r now =>
      obtain ⟨-, rfl⟩ := step_release h
      rfl
    | idle now =>
      obtain rfl := step_idle h
      rfl

/-! ### Over a run -/

/-- What is so of a burst at any instant. -/
structure Inv (b : Input) (s : Burst) : Prop where
  inFlight : s.inFlight = s.pending.length + s.answered.length
  running : s.settled = none → s.replies.findSome? (decides b) = none
  ended : ∀ result, s.settled = some result →
    s.replies.findSome? (decides b) = some result ∨
      s.replies.findSome? (decides b) = none ∧ result = s.timedOut ∧ b.deadline < s.clock ∧
        s.inFlight = 0
  pace : b.startMs + s.i * b.intervalMs ≤ s.due
  turns : ∀ request ∈ s.requests, ∃ turn < s.i, request.idx = turn % b.keys.length

theorem Inv.init (b : Input) : Inv b (init b) where
  inFlight := rfl
  running _ := rfl
  ended _ h := by cases h
  pace := by simp [SignatureBurst.init]
  turns _ h := absurd h List.not_mem_nil

namespace Inv

variable {now r : ℕ} {reply : Reply}

theorem tick (hkeys : b.keys ≠ []) (hs : Inv b s)
    (h : SignatureBurst.step b s (.tick now) = some s') : Inv b s' := by
  obtain ⟨hnone, hdue, rfl⟩ := step_tick h
  have hundecided := hs.running hnone
  have hpace := hs.pace
  have hnext : b.startMs + (s.i + 1) * b.intervalMs ≤ now + b.intervalMs := by
    rw [Nat.add_mul, Nat.one_mul]
    omega
  have hunsettled : ∀ {result}, s.settled ≠ some result := by
    intro result hresult
    rw [hnone] at hresult
    cases hresult
  have hturns : ∀ request ∈ s.requests, ∃ turn < s.i + 1, request.idx = turn % b.keys.length :=
    fun request hmem =>
      have ⟨turn, hturn, hidx⟩ := hs.turns request hmem
      ⟨turn, by omega, hidx⟩
  -- the time is up, a request is in flight still, the key rests, or a request is started
  rcases s.fire_cases hkeys hnone now with
    ⟨hlate, hflight, hfire⟩ | ⟨-, -, hfire⟩ | ⟨-, -, hfire⟩ | ⟨-, -, hfire⟩ <;> rw [hfire]
  · refine ⟨hs.inFlight, nofun, fun result hresult => Or.inr ?_, ?_, hs.turns⟩
    · exact ⟨hundecided, (Option.some_inj.mp hresult).symm, hlate, hflight⟩
    · show b.startMs + s.i * b.intervalMs ≤ now + b.intervalMs
      omega
  · refine ⟨hs.inFlight, hs.running, fun _ hresult => absurd hresult hunsettled, ?_, hs.turns⟩
    show b.startMs + s.i * b.intervalMs ≤ now + b.intervalMs
    omega
  · exact ⟨hs.inFlight, hs.running, fun _ hresult => absurd hresult hunsettled, hnext, hturns⟩
  · refine ⟨?_, hs.running, fun _ hresult => absurd hresult hunsettled, hnext, ?_⟩
    · show s.inFlight + 1 = s.pending.length + 1 + s.answered.length
      have := hs.inFlight
      omega
    · intro request hmem
      rcases List.mem_append.mp hmem with hmem | hmem
      · exact hturns request hmem
      · obtain rfl := List.mem_singleton.mp hmem
        exact ⟨s.i, Nat.lt_succ_self _, rfl⟩

theorem answer (hs : Inv b s) (h : SignatureBurst.step b s (.answer r reply now) = some s') :
    Inv b s' := by
  obtain ⟨hr, request, -, rfl⟩ := step_answer h
  obtain ⟨lastError, penalized, hreply, -, -⟩ := s.onReply_eq b request.idx reply now
  have hlength := List.length_erase_of_mem hr
  have hpos := List.length_pos_of_mem hr
  have hfind : (s.replies ++ [reply]).findSome? (decides b) =
      (s.replies.findSome? (decides b)).or (decides b reply) := by
    rw [List.findSome?_append]
    simp
  have hflight := hs.inFlight
  rw [hreply]
  refine ⟨?_, fun hnone => ?_, fun result hresult => Or.inl ?_, hs.pace, hs.turns⟩
  · show s.inFlight = (s.pending.erase r).length + (s.answered.length + 1)
    omega
  · -- a burst that goes on has had no reply that decides it
    obtain ⟨hnone, hundecided⟩ := Option.or_eq_none_iff.mp hnone
    show (s.replies ++ [reply]).findSome? _ = none
    rw [hfind, hs.running hnone, hundecided]
    rfl
  · show (s.replies ++ [reply]).findSome? _ = _
    rw [hfind]
    rcases Option.or_eq_some_iff.mp hresult with hsettled | ⟨hnone, hdecides⟩
    · rcases hs.ended result hsettled with hfound | ⟨-, -, -, hzero⟩
      · rw [hfound]
        rfl
      · -- nothing is in flight after a time-out
        omega
    · rw [hs.running hnone, hdecides]
      rfl

theorem release (hs : Inv b s) (h : SignatureBurst.step b s (.release r now) = some s') :
    Inv b s' := by
  obtain ⟨hr, rfl⟩ := step_release h
  have hlength := List.length_erase_of_mem hr
  have hpos := List.length_pos_of_mem hr
  have hflight := hs.inFlight
  have hfewer : s.inFlight - 1 = s.pending.length + (s.answered.erase r).length := by omega
  -- the last request to end may settle a burst whose time is up
  rcases s.onFinally_cases b now with ⟨hnone, hlate, hzero, hfinally⟩ | hfinally <;> rw [hfinally]
  · refine ⟨hfewer, nofun, fun result hresult => Or.inr ?_, hs.pace, hs.turns⟩
    exact ⟨hs.running hnone, (Option.some_inj.mp hresult).symm, hlate, hzero⟩
  · refine ⟨hfewer, hs.running, fun result hresult => ?_, hs.pace, hs.turns⟩
    rcases hs.ended result hresult with hfound | ⟨-, -, -, hzero⟩
    · exact Or.inl hfound
    · -- the request that ends here was in flight
      omega

theorem idle (hs : Inv b s) (h : SignatureBurst.step b s (.idle now) = some s') : Inv b s' := by
  have hclock : s.clock ≤ now := (step_clock h).1
  obtain rfl := step_idle h
  refine ⟨hs.inFlight, hs.running, fun result hresult => ?_, hs.pace, hs.turns⟩
  refine (hs.ended result hresult).imp_right fun ⟨hnone, hresult, hlate, hzero⟩ =>
    ⟨hnone, hresult, ?_, hzero⟩
  show b.deadline < now
  omega

theorem step {l : Step} (hkeys : b.keys ≠ []) (hs : Inv b s)
    (h : SignatureBurst.step b s l = some s') : Inv b s' := by
  cases l with
  | tick => exact hs.tick hkeys h
  | answer => exact hs.answer h
  | release => exact hs.release h
  | idle => exact hs.idle h

end Inv

theorem inv_of_reach (hkeys : b.keys ≠ []) (h : Reachable (step b) (init b) s) : Inv b s :=
  h.invariant (Inv.init b) fun _ _ _ _ hs _ hstep => hs.step hkeys hstep

/-- A step leaves the requests, or starts one. -/
theorem step_requests {l : Step} (hkeys : b.keys ≠ []) (h : step b s l = some s') :
    s'.requests = s.requests ∧ s.i ≤ s'.i ∨
    (s.settled = none ∧ l.now ≤ b.deadline ∧ s.due ≤ l.now ∧ s'.i = s.i + 1 ∧
      s'.requests = s.requests ++ [⟨s.i % b.keys.length, l.now⟩] ∧
      (s.penalized (s.i % b.keys.length)).getD 0 ≤ l.now) := by
  cases l with
  | tick now =>
    obtain ⟨hnone, hdue, rfl⟩ := step_tick h
    rcases s.fire_cases hkeys hnone now with
      ⟨-, -, hfire⟩ | ⟨-, -, hfire⟩ | ⟨-, -, hfire⟩ | ⟨hearly, hrest, hfire⟩ <;> rw [hfire]
    · exact Or.inl ⟨rfl, le_rfl⟩
    · exact Or.inl ⟨rfl, le_rfl⟩
    · exact Or.inl ⟨rfl, Nat.le_succ _⟩
    · exact Or.inr ⟨hnone, hearly, hdue, rfl, rfl, hrest⟩
  | answer r reply now =>
    obtain ⟨-, request, -, rfl⟩ := step_answer h
    obtain ⟨lastError, penalized, hreply, -⟩ := s.onReply_eq b request.idx reply now
    rw [hreply]
    exact Or.inl ⟨rfl, le_rfl⟩
  | release r now =>
    obtain ⟨-, rfl⟩ := step_release h
    rcases s.onFinally_cases b now with ⟨-, -, -, hfinally⟩ | hfinally <;> rw [hfinally] <;>
      exact Or.inl ⟨rfl, le_rfl⟩
  | idle now =>
    obtain rfl := step_idle h
    exact Or.inl ⟨rfl, le_rfl⟩

/-! ### It settles -/

/-- What is still to come of the requests: an answer and a `finally`, or only that. -/
def Burst.outstanding (s : Burst) : ℕ := 2 * s.pending.length + s.answered.length

theorem outstanding_of_answer (h : step b s (.answer r reply now) = some s') :
    s'.outstanding < s.outstanding := by
  obtain ⟨hr, request, -, rfl⟩ := step_answer h
  have hlength := List.length_erase_of_mem hr
  have hpos := List.length_pos_of_mem hr
  show 2 * (s.pending.erase r).length + (s.answered.length + 1) < _
  rw [Burst.outstanding]
  omega

theorem outstanding_of_release (h : step b s (.release r now) = some s') :
    s'.outstanding < s.outstanding := by
  obtain ⟨hr, rfl⟩ := step_release h
  have hlength := List.length_erase_of_mem hr
  have hpos := List.length_pos_of_mem hr
  have hpending : (s.onFinally b now).pending = s.pending := by
    rcases s.onFinally_cases b now with ⟨-, -, -, hfinally⟩ | hfinally <;> rw [hfinally]
  show 2 * (s.onFinally b now).pending.length + (s.answered.erase r).length < _
  rw [hpending, Burst.outstanding]
  omega

/-- After the deadline nothing is added. -/
theorem outstanding_le {l : Step} (hkeys : b.keys ≠ []) (hlate : b.deadline < s.clock)
    (h : step b s l = some s') : s'.outstanding ≤ s.outstanding := by
  have hclock := (step_clock h).1
  cases l with
  | tick now =>
    obtain ⟨hnone, -, rfl⟩ := step_tick h
    have hclock' : s.clock ≤ now := hclock
    rcases s.fire_cases hkeys hnone now with
      ⟨-, -, hfire⟩ | ⟨-, -, hfire⟩ | ⟨hearly, -⟩ | ⟨hearly, -⟩
    · rw [hfire]
      exact le_rfl
    · rw [hfire]
      exact le_rfl
    · omega
    · omega
  | answer r reply now => exact (outstanding_of_answer h).le
  | release r now => exact (outstanding_of_release h).le
  | idle now =>
    obtain rfl := step_idle h
    exact le_rfl

theorem clock_mono (run : Run b) {n m : ℕ} (h : n ≤ m) :
    (run.state n).clock ≤ (run.state m).clock := by
  induction h with
  | refl => exact le_rfl
  | @step m _ ih =>
    obtain ⟨hle, heq⟩ := step_clock (run.next m)
    exact ih.trans (hle.trans heq.ge)

theorem outstanding_mono (hkeys : b.keys ≠ []) (run : Run b) {n m : ℕ}
    (hlate : b.deadline < (run.state n).clock) (h : n ≤ m) :
    (run.state m).outstanding ≤ (run.state n).outstanding := by
  induction h with
  | refl => exact le_rfl
  | @step m hle ih =>
    have hclock := clock_mono run hle
    exact (outstanding_le hkeys (by omega) (run.next m)).trans ih

/-- **A burst settles** once the deadline has passed and every request has had its answer. -/
theorem settles (hkeys : b.keys ≠ []) {run : Run b} (hfair : Fair run) :
    ∃ n, (run.state n).settled.isSome := by
  by_contra hnever
  have hrunning : ∀ n, (run.state n).settled.isSome = false := fun n =>
    Bool.eq_false_iff.mpr fun h => hnever ⟨n, h⟩
  obtain ⟨n₀, -, hsettled | ⟨now₀, hnow₀, hlabel₀⟩⟩ := hfair.ticks (b.deadline.toNat + 1) 0
  · exact hnever ⟨n₀, hsettled⟩
  have hlate₀ : b.deadline < (run.state (n₀ + 1)).clock := by
    have hclock := (step_clock (run.next n₀)).2
    rw [hlabel₀] at hclock
    have hclock' : (run.state (n₀ + 1)).clock = now₀ := hclock
    omega
  have hlate : ∀ n ≥ n₀ + 1, b.deadline < (run.state n).clock := fun n hn => by
    have := clock_mono run hn
    omega
  suffices h : ∀ k, ∀ n ≥ n₀ + 1, (run.state n).outstanding ≤ k → False from
    h _ (n₀ + 1) le_rfl le_rfl
  intro k
  induction k with
  | zero =>
    intro n hn hzero
    obtain ⟨m, hm, hsettled | ⟨now, -, hlabel⟩⟩ := hfair.ticks 0 n
    · exact hnever ⟨m, hsettled⟩
    · have hstep := run.next m
      rw [hlabel] at hstep
      have hzero' := (outstanding_mono hkeys run (hlate n hn) hm).trans hzero
      have hflight := (inv_of_reach hkeys (run.reachable m)).inFlight
      obtain ⟨hnone, -, hnext⟩ := step_tick hstep
      have hclock : (run.state m).clock ≤ now := (step_clock hstep).1
      have hlate' := hlate m (by omega)
      rw [Burst.outstanding] at hzero'
      rcases (run.state m).fire_cases hkeys hnone now with
        ⟨-, -, hfire⟩ | ⟨-, hmore, -⟩ | ⟨hearly, -⟩ | ⟨hearly, -⟩
      · have hsome := hrunning (m + 1)
        rw [hnext, hfire] at hsome
        cases hsome
      · exact hmore (by omega)
      · omega
      · omega
  | succ k ih =>
    intro n hn hk
    -- somebody is waited for, and comes
    by_cases hpending : (run.state n).pending = []
    · by_cases hanswered : (run.state n).answered = []
      · refine ih n hn ?_
        rw [Burst.outstanding, hpending, hanswered]
        exact Nat.zero_le k
      · obtain ⟨r, hr⟩ := List.exists_mem_of_ne_nil _ hanswered
        obtain ⟨m, hm, now, hlabel⟩ := hfair.finallys n r hr
        have hfewer := outstanding_of_release (hlabel ▸ run.next m)
        have hle := outstanding_mono hkeys run (hlate n hn) hm
        exact ih (m + 1) (by omega) (by omega)
    · obtain ⟨r, hr⟩ := List.exists_mem_of_ne_nil _ hpending
      obtain ⟨m, hm, reply, now, hlabel⟩ := hfair.answers n r hr
      have hfewer := outstanding_of_answer (hlabel ▸ run.next m)
      have hle := outstanding_mono hkeys run (hlate n hn) hm
      exact ih (m + 1) (by omega) (by omega)

/-! ### A key that rests -/

theorem step_penalized {l : Step} (hkeys : b.keys ≠ []) (h : step b s l = some s') (idx : ℕ) :
    s'.penalized idx = s.penalized idx ∨ s'.penalized idx = some (l.now + 1500) := by
  cases l with
  | tick now =>
    obtain ⟨hnone, -, rfl⟩ := step_tick h
    rcases s.fire_cases hkeys hnone now with
      ⟨-, -, hfire⟩ | ⟨-, -, hfire⟩ | ⟨-, -, hfire⟩ | ⟨-, -, hfire⟩ <;> rw [hfire] <;>
      exact Or.inl rfl
  | answer r reply now =>
    obtain ⟨-, request, -, rfl⟩ := step_answer h
    obtain ⟨lastError, penalized, hreply, hpenalized, -⟩ := s.onReply_eq b request.idx reply now
    rw [hreply]
    exact (hpenalized idx).imp_right And.right
  | release r now =>
    obtain ⟨-, rfl⟩ := step_release h
    rcases s.onFinally_cases b now with ⟨-, -, -, hfinally⟩ | hfinally <;> rw [hfinally] <;>
      exact Or.inl rfl
  | idle now =>
    obtain rfl := step_idle h
    exact Or.inl rfl

/-- What is so of a burst since the key at an index was laid to rest. -/
structure Rested (b : Input) (s₀ s : Burst) (idx awakeMs : ℕ) : Prop where
  inv : Inv b s
  turns : s₀.i ≤ s.i
  clock : awakeMs ≤ s.clock + 1500
  penalized : ∃ untilMs, s.penalized idx = some untilMs ∧ awakeMs ≤ untilMs
  requests : ∃ new, s.requests = s₀.requests ++ new ∧ ∀ later ∈ new,
    (∃ turn ≥ s₀.i, later.idx = turn % b.keys.length ∧ turn * b.intervalMs ≤ b.maxMs) ∧
      (later.idx = idx → awakeMs ≤ later.startedMs)

theorem Rested.step {s₀ : Burst} {awakeMs : ℕ} {l : Step} (hkeys : b.keys ≠ [])
    (hs : Rested b s₀ s idx awakeMs) (h : step b s l = some s') :
    Rested b s₀ s' idx awakeMs := by
  obtain ⟨hclock, hclock'⟩ := step_clock h
  obtain ⟨untilMs, huntil, hawake⟩ := hs.penalized
  obtain ⟨new, hnew, hlater⟩ := hs.requests
  have hsince := hs.clock
  have hturns := hs.turns
  have hpenalized : ∃ untilMs, s'.penalized idx = some untilMs ∧ awakeMs ≤ untilMs := by
    rcases step_penalized hkeys h idx with hsame | hagain
    · exact ⟨untilMs, hsame.trans huntil, hawake⟩
    · exact ⟨_, hagain, by omega⟩
  rcases step_requests hkeys h with
    ⟨hrequests, hi⟩ | ⟨-, hearly, hdue, hi, hrequests, hrest⟩
  · exact ⟨hs.inv.step hkeys h, hturns.trans hi, by omega, hpenalized, new, hrequests.trans hnew,
      hlater⟩
  · -- the place of the new request is another, or its rest is over
    refine ⟨hs.inv.step hkeys h, by omega, by omega, hpenalized,
      new ++ [⟨s.i % b.keys.length, l.now⟩], by rw [hrequests, hnew, List.append_assoc],
      fun later hmem => ?_⟩
    rcases List.mem_append.mp hmem with hmem | hmem
    · exact hlater later hmem
    · obtain rfl := List.mem_singleton.mp hmem
      refine ⟨⟨s.i, hturns, rfl, ?_⟩, fun hidx => ?_⟩
      · have hpace := hs.inv.pace
        rw [Input.deadline] at hearly
        have hcast : ((s.i * b.intervalMs : ℕ) : ℤ) ≤ b.maxMs := by omega
        exact_mod_cast hcast
      · have hidx' : s.i % b.keys.length = idx := hidx
        rw [hidx', huntil] at hrest
        exact hawake.trans hrest

/-- **It is not used again** while no key comes up twice. -/
theorem rests (hkeys : b.keys ≠ []) (hapart : b.Apart) {request : Request} {error : Thrown}
    (hreach : Reachable (step b) (init b) s)
    (hanswer : step b s (.answer r (.error error) now) = some s')
    (hrate : isRateLimited error.text) (hrequest : s.requests[r]? = some request)
    (hreach' : Reachable (step b) s' s'') :
    ∀ later ∈ s''.requests.drop s'.requests.length,
      b.keys[later.idx]? = b.keys[request.idx]? → now + 1500 ≤ later.startedMs := by
  have hinv := inv_of_reach hkeys hreach
  have hstart : Rested b s' s' request.idx (now + 1500) := by
    refine ⟨hinv.step hkeys hanswer, le_rfl, ?_, ?_, [], by simp, fun _ h => absurd h List.not_mem_nil⟩
    · have hclock : s'.clock = now := (step_clock hanswer).2
      omega
    · obtain ⟨-, request', hrequest', rfl⟩ := step_answer hanswer
      obtain rfl := Option.some_inj.mp (hrequest'.symm.trans hrequest)
      obtain ⟨lastError, penalized, hreply, -, hpenalized⟩ :=
        s.onReply_eq b request'.idx (.error error) now
      rw [hreply]
      exact ⟨_, hpenalized error rfl hrate, le_rfl⟩
  have hrested := hreach'.invariant (I := fun s => Rested b s' s request.idx (now + 1500)) hstart
    fun _ _ _ _ hs _ hstep => hs.step hkeys hstep
  obtain ⟨new, hnew, hlater⟩ := hrested.requests
  intro later hmem hsame
  rw [hnew, List.drop_left] at hmem
  obtain ⟨⟨turn, hturn, hidx, hpace⟩, hrest⟩ := hlater later hmem
  by_cases heq : later.idx = request.idx
  · exact hrest heq
  · -- else the list has the key twice
    exfalso
    obtain ⟨first, hfirst, hidx'⟩ := hinv.turns request (List.mem_of_getElem? hrequest)
    have hi : s'.i = s.i := by
      obtain ⟨-, request', -, rfl⟩ := step_answer hanswer
      obtain ⟨lastError, penalized, hreply, -⟩ := s.onReply_eq b request'.idx (.error error) now
      rw [hreply]
    have hlen : 0 < b.keys.length := List.length_pos_iff.mpr hkeys
    have hlt := Nat.mod_lt turn hlen
    have hlt' := Nat.mod_lt first hlen
    have hle := Nat.mod_le turn b.keys.length
    have hle' := Nat.mod_le first b.keys.length
    have hmax : ∀ j ≤ turn, (j * b.intervalMs : ℤ) ≤ b.maxMs := fun j hj => by
      have := Nat.mul_le_mul_right b.intervalMs hj
      have hcast : ((turn * b.intervalMs : ℕ) : ℤ) ≤ b.maxMs := by exact_mod_cast hpace
      have hcast' : ((j * b.intervalMs : ℕ) : ℤ) ≤ b.maxMs := by omega
      exact_mod_cast hcast'
    rcases Nat.lt_or_gt_of_ne heq with hbefore | hafter
    · have := hapart later.idx request.idx hbefore (by omega) hsame
      have := hmax request.idx (by omega)
      omega
    · have := hapart request.idx later.idx hafter (by omega) hsame.symm
      have := hmax later.idx (by omega)
      omega

/-! ### A key that the list has twice -/

/-- The first requests have been started, and none has been answered. -/
structure Started (b : Input) (k : ℕ) (s : Burst) : Prop where
  reach : Reachable (step b) (init b) s
  clock : s.clock ≤ s.due
  due : s.due = b.startMs + k * b.intervalMs
  settled : s.settled = none
  i : s.i = k
  penalized : s.penalized = fun _ => none
  requests : s.requests = (List.range k).map fun idx => ⟨idx, b.startMs + idx * b.intervalMs⟩
  pending : ∀ idx < k, idx ∈ s.pending

/-- Before the deadline the interval starts the next request. -/
theorem tick_start {k : ℕ} (hk : k < b.keys.length) (hearly : (k * b.intervalMs : ℤ) ≤ b.maxMs)
    (hclock : s.clock ≤ s.due) (hdue : s.due = b.startMs + k * b.intervalMs)
    (hsettled : s.settled = none) (hi : s.i = k) (hrest : s.penalized k = none) :
    step b s (.tick s.due) = some
      { s with
        clock := s.due
        due := s.due + b.intervalMs
        i := k + 1
        attempts := s.attempts + 1
        inFlight := s.inFlight + 1
        requests := s.requests ++ [⟨k, s.due⟩]
        pending := s.requests.length :: s.pending } := by
  have hkeys : b.keys ≠ [] := List.ne_nil_of_length_pos (by omega)
  have hmod : s.i % b.keys.length = k := by rw [hi, Nat.mod_eq_of_lt hk]
  have hdeadline : ¬b.deadline < (s.due : ℤ) := by
    rw [Input.deadline, hdue]
    push_cast
    omega
  have hlater : ¬(Step.tick s.due).now < s.clock := not_lt.mpr hclock
  rw [step.eq_def, if_neg hlater]
  show (if s.settled.isSome ∨ s.due < s.due then none else _) = _
  rw [if_neg (by simp [hsettled])]
  rcases s.fire_cases hkeys hsettled s.due with
    ⟨hlate, -⟩ | ⟨hlate, -⟩ | ⟨-, hearly', -⟩ | ⟨-, -, hfire⟩
  · exact absurd hlate hdeadline
  · exact absurd hlate hdeadline
  · rw [hmod, hrest] at hearly'
    exact absurd hearly' (Nat.not_lt_zero _)
  · rw [hfire, hmod, hi]

theorem exists_started {k : ℕ} (hk : k ≤ b.keys.length)
    (hearly : ∀ m < k, (m * b.intervalMs : ℤ) ≤ b.maxMs) : ∃ s, Started b k s := by
  induction k with
  | zero => exact ⟨init b, .refl, le_rfl, by simp [init], rfl, rfl, rfl, rfl, fun _ h => by omega⟩
  | succ k ih =>
    obtain ⟨s, hs⟩ := ih (by omega) fun m hm => hearly m (by omega)
    have hlength : s.requests.length = k := by simp [hs.requests]
    have htick := tick_start (show k < _ from hk) (hearly k (Nat.lt_succ_self k)) hs.clock hs.due
      hs.settled hs.i (congrFun hs.penalized k)
    refine ⟨_, hs.reach.tail trivial htick, ?_, ?_, hs.settled, rfl, hs.penalized, ?_, ?_⟩
    · exact Nat.le_add_right _ _
    · show s.due + b.intervalMs = _
      rw [hs.due, Nat.add_mul, Nat.one_mul, Nat.add_assoc]
    · show s.requests ++ [⟨k, s.due⟩] = _
      rw [hs.requests, hs.due, List.range_succ, List.map_append]
      rfl
    · intro idx hidx
      rcases Nat.lt_succ_iff_lt_or_eq.mp hidx with hlt | rfl
      · exact List.mem_cons_of_mem _ (hs.pending idx hlt)
      · exact hlength ▸ List.mem_cons_self

/-- The answer 429, as `fetchJson` words it. -/
def rateLimited : Thrown := ⟨"provider rate limited", true, some "RateLimited"⟩

/-- A key that comes up twice before the deadline is used again at once. -/
theorem apart_of_rests
    (h : ∀ s s' s'' r request error now, Reachable (step b) (init b) s →
      step b s (.answer r (.error error) now) = some s' → isRateLimited error.text →
        s.requests[r]? = some request → Reachable (step b) s' s'' →
          ∀ later ∈ s''.requests.drop s'.requests.length,
            b.keys[later.idx]? = b.keys[request.idx]? → now + 1500 ≤ later.startedMs) :
    b.Apart := by
  intro i j hij hj hsame
  by_contra hearly
  have hearly' : (j * b.intervalMs : ℤ) ≤ b.maxMs := by omega
  have hmax : ∀ m < j, (m * b.intervalMs : ℤ) ≤ b.maxMs := fun m hm => by
    have hle : m * b.intervalMs ≤ j * b.intervalMs := Nat.mul_le_mul_right _ hm.le
    have hcast : (m * b.intervalMs : ℤ) ≤ j * b.intervalMs := by exact_mod_cast hle
    omega
  -- the requests up to the second place of the key, and the first place's answer is 429
  obtain ⟨s, hs⟩ := exists_started hj.le hmax
  have hrequest : s.requests[i]? = some ⟨i, b.startMs + i * b.intervalMs⟩ := by
    rw [hs.requests]
    simp [hij]
  obtain ⟨lastError, penalized, hreply, hpenalized, -⟩ :=
    s.onReply_eq b i (.error rateLimited) s.due
  have hundecided : decides b (.error rateLimited) = none := by
    have hword : (isTerminalMintBuildError rateLimited.text &&
        !isPerWalletLimitError rateLimited.text) = false := by decide
    rw [decides, hword]
    rfl
  have hrest : penalized j = none := by
    rcases hpenalized j with hsame | ⟨heq, -⟩
    · rw [hsame, hs.penalized]
    · omega
  have hanswer : step b s (.answer i (.error rateLimited) s.due) = some
      { s with
        lastError, penalized
        clock := s.due
        pending := s.pending.erase i
        answered := i :: s.answered
        replies := s.replies ++ [.error rateLimited] } := by
    have hlater : ¬(Step.answer i (.error rateLimited) s.due).now < s.clock := not_lt.mpr hs.clock
    rw [step.eq_def, if_neg hlater]
    show (if i ∈ s.pending then _ else none) = _
    rw [if_pos (hs.pending i hij), hrequest]
    simp only [Option.map_some, hreply, hundecided, Option.or_none]
  -- what is kept of the answer is the place, so the second place is used at once
  have htick := tick_start (s := { s with
        lastError, penalized
        clock := s.due
        pending := s.pending.erase i
        answered := i :: s.answered
        replies := s.replies ++ [.error rateLimited] }) hj hearly' le_rfl hs.due hs.settled hs.i hrest
  have hagain := h s _ _ i _ rateLimited s.due hs.reach hanswer (by decide) hrequest
    (Reach.refl.tail trivial htick) ⟨j, s.due⟩ (by simp) hsame.symm
  have hagain' : s.due + 1500 ≤ s.due := hagain
  omega

/-! ### Exactly when -/

/-- **A burst keeps its promise** exactly when no key comes up twice before the deadline. -/
theorem lawful_iff (hkeys : b.keys ≠ []) : Lawful b ↔ b.Apart := by
  refine ⟨fun h => apart_of_rests h.rests, fun hapart => ?_⟩
  refine ⟨fun run hfair => settles hkeys hfair, ?_, ?_, ?_, ?_, ?_⟩
  · intro s hreach result hfound
    have hs := inv_of_reach hkeys hreach
    cases hsettled : s.settled with
    | none =>
      rw [hs.running hsettled] at hfound
      cases hfound
    | some result' =>
      rcases hs.ended result' hsettled with hfound' | ⟨hnone, -⟩
      · exact hfound'.symm.trans hfound
      · rw [hnone] at hfound
        cases hfound
  · intro s hreach hnone result hsettled
    rcases (inv_of_reach hkeys hreach).ended result hsettled with hfound | ⟨-, hresult, hlate, -⟩
    · rw [hnone] at hfound
      cases hfound
    · exact ⟨hresult, hlate⟩
  · intro s s' r reply now _ hstep hundecided
    obtain ⟨-, request, -, rfl⟩ := step_answer hstep
    obtain ⟨lastError, penalized, hreply, -⟩ := s.onReply_eq b request.idx reply now
    rw [hreply, hundecided, Option.or_none]
  · intro s s' l _ hstep hmore
    rcases step_requests hkeys hstep with ⟨hrequests, -⟩ | ⟨hsettled, hearly, -⟩
    · rw [hrequests] at hmore
      exact absurd hmore (lt_irrefl _)
    · exact ⟨hsettled, hearly⟩
  · intro s s' s'' r request error now hreach hanswer hrate hrequest hreach'
    exact rests hkeys hapart hreach hanswer hrate hrequest hreach'

/-- Two keys that differ, polled for three seconds. -/
theorem lawful_iff_two_keys : Lawful ⟨["first", "second"], 1, 3000, 80, 0⟩ := by
  refine (lawful_iff (List.cons_ne_nil _ _)).mpr fun i j hij hj hsame => ?_
  have hj' : j < 2 := hj
  obtain rfl : i = 0 := by omega
  obtain rfl : j = 1 := by omega
  revert hsame
  decide

/-- A key saved twice is used again right after it has answered 429. -/
theorem same_key_again : ¬ ∀ b : Input, b.keys ≠ [] → Lawful b := by
  intro h
  have hlawful := h ⟨["key", "key"], 1, 3000, 80, 0⟩ (List.cons_ne_nil _ _)
  have hapart := apart_of_rests hlawful.rests 0 1 Nat.one_pos Nat.one_lt_two rfl
  revert hapart
  decide

end SignatureBurst
