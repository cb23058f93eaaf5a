/-
How OpenSea requests are paced (`packages/providers/src/opensea/rate-limiter.ts`).

* `Bucket`, `bucketFor`, `refill`, `waitMsForToken`, `pickKey` — the buckets of the process;
* `Limiter`, `step` — the limiter: callers that enter `acquire`, callers that wake up in it,
  penalties and picks, each at a reading of the clock;
* `step_available`, `step_grants` — what one step takes from a bucket;
* `budget_of_lt_one` — when a minute grants a key no more than its budget, whatever happens in it:
  when its bucket holds less than one token at the start.

The budget is the same in every call (`OPENSEA_PER_MINUTE_LIMIT`), so that a bucket once made is
never replaced.  Tokens are rational numbers, where the source has floating point.
-/
import HoodMint.Lib.TokenBucket
import HoodMint.Lib.Transition
import Mathlib.Data.Rat.Floor
import Mathlib.Logic.Function.Basic

namespace RateLimiter

open TokenBucket Transition

/-! ### Buckets -/

structure Bucket where
  tokens : ℚ
  capacity : ℕ
  refillPerMs : ℚ
  lastRefillMs : ℤ
  waiters : ℕ

/-- A bucket as it is made. -/
def Bucket.fresh (perMinute : ℕ) (now : ℤ) : Bucket :=
  ⟨perMinute, perMinute, perMinute / 60000, now, 0⟩

/-- `buckets`. -/
abbrev Buckets := String → Option Bucket

/-- `bucketFor`, whose callers put the bucket back. -/
def bucketFor (buckets : Buckets) (key : String) (perMinute : ℕ) (now : ℤ) : Bucket :=
  match buckets key with
  | some bucket => if bucket.capacity ≠ perMinute then .fresh perMinute now else bucket
  | none => .fresh perMinute now

namespace Bucket

variable (bucket : Bucket) (now : ℤ)

/-- `refill`. -/
def refill : Bucket :=
  let elapsed := max 0 (now - bucket.lastRefillMs)
  { bucket with
    tokens := min (bucket.capacity : ℚ) (bucket.tokens + elapsed * bucket.refillPerMs)
    lastRefillMs := now }

/-- `waitMsForToken`, with the bucket it has refilled. -/
def waitMsForToken : Bucket × ℤ :=
  let bucket := bucket.refill now
  (bucket, if 1 ≤ bucket.tokens then 0 else ⌈(1 - bucket.tokens) / bucket.refillPerMs⌉)

/-- A turn of the loop of `acquire`: the bucket, and whether the caller has its token. -/
def turn : Bucket × Bool :=
  let (bucket, wait) := bucket.waitMsForToken now
  if wait = 0 then
    ({ bucket with tokens := bucket.tokens - 1, waiters := bucket.waiters - 1 }, true)
  else (bucket, false)

/-- What `penalize` makes of it. -/
def penalized (retryAfterSeconds : ℚ) : Bucket :=
  { bucket with
    tokens := min bucket.tokens (-retryAfterSeconds * 1000 * bucket.refillPerMs)
    lastRefillMs := now }

end Bucket

/-- The loop of `pickKey`: the buckets, and the best key so far with its tokens. -/
structure Pick where
  buckets : Buckets
  best : String
  bestTokens : Option ℚ

/-- One key. -/
def Pick.consider (perMinute : ℕ) (now : ℤ) (pick : Pick) (key : String) : Pick :=
  let bucket := (bucketFor pick.buckets key perMinute now).refill now
  let buckets := Function.update pick.buckets key (some bucket)
  -- keys that already have callers queued on them count for less
  let effective := bucket.tokens - bucket.waiters
  if pick.bestTokens.elim true (· < effective) then ⟨buckets, key, some effective⟩
  else { pick with buckets }

/-- `pickKey`. -/
def pickKey (buckets : Buckets) (keys : List String) (perMinute : ℕ) (now : ℤ) : Pick :=
  keys.foldl (Pick.consider perMinute now) ⟨buckets, keys.headD "", none⟩

/-! ### The limiter -/

/-- A caller has been given a token. -/
structure Grant where
  key : String
  time : ℤ

/-- The buckets, the last reading of the clock, the keys of the callers asleep in `acquire`, and
the grants. -/
structure Limiter where
  buckets : Buckets
  clock : ℤ
  sleepers : List String
  grants : List Grant

/-- What can happen.  A timer may fire early or late, in any order with others. -/
inductive Step
  | acquire (key : String) (now : ℤ)
  | wake (i : ℕ) (now : ℤ)
  | penalize (key : String) (retryAfterSeconds : ℚ) (now : ℤ)
  | pickKey (keys : List String) (now : ℤ)

def Step.now : Step → ℤ
  | .acquire _ now => now
  | .wake _ now => now
  | .penalize _ _ now => now
  | .pickKey _ now => now

namespace Limiter

/-- No bucket, and nobody asleep. -/
def init (clock : ℤ) : Limiter := ⟨fun _ => none, clock, [], []⟩

/-- A caller has a turn of the loop on a bucket; `sleepers` are the others. -/
def turn (s : Limiter) (key : String) (bucket : Bucket) (sleepers : List String) (now : ℤ) :
    Limiter :=
  let (bucket, granted) := bucket.turn now
  { buckets := Function.update s.buckets key (some bucket)
    clock := now
    sleepers := if granted then sleepers else sleepers ++ [key]
    grants := if granted then ⟨key, now⟩ :: s.grants else s.grants }

/-- A step, at a reading of the clock that is not before the last. -/
def step (perMinute : ℕ) (s : Limiter) (l : Step) : Option Limiter :=
  if l.now < s.clock then none
  else match l with
    | .acquire key now =>
      let bucket := bucketFor s.buckets key perMinute now
      some (s.turn key { bucket with waiters := bucket.waiters + 1 } s.sleepers now)
    | .wake i now =>
      s.sleepers[i]?.bind fun key => (s.buckets key).map fun bucket =>
        s.turn key bucket (s.sleepers.eraseIdx i) now
    | .penalize key retryAfterSeconds now =>
      let bucket := bucketFor s.buckets key perMinute now
      some { s with
        buckets := Function.update s.buckets key (some (bucket.penalized now retryAfterSeconds))
        clock := now }
    | .pickKey keys now =>
      some { s with buckets := (RateLimiter.pickKey s.buckets keys perMinute now).buckets
                    clock := now }

/-- The tokens of a key at an instant. -/
def available (perMinute : ℕ) (s : Limiter) (key : String) (now : ℤ) : ℚ :=
  ((bucketFor s.buckets key perMinute now).refill now).tokens

/-- The tokens granted for a key. -/
def taken (s : Limiter) (key : String) : ℕ := s.grants.countP fun g => g.key = key

/-- The tokens granted for a key in the minute from an instant. -/
def takenIn (s : Limiter) (key : String) (start : ℤ) : ℕ :=
  s.grants.countP fun g => g.key = key ∧ start ≤ g.time ∧ g.time < start + 60000

end Limiter

/-- Tokens that flow into a bucket in a millisecond. -/
def perMs (perMinute : ℕ) : ℚ := perMinute / 60000

theorem perMs_nonneg (perMinute : ℕ) : 0 ≤ perMs perMinute :=
  div_nonneg (Nat.cast_nonneg perMinute) (by norm_num)

/-! ### One bucket -/

/-- A bucket of this budget, as it can be at an instant. -/
structure Bucket.Sound (perMinute : ℕ) (now : ℤ) (bucket : Bucket) : Prop where
  capacity : bucket.capacity = perMinute
  refillPerMs : bucket.refillPerMs = perMs perMinute
  lastRefillMs : bucket.lastRefillMs ≤ now
  tokens : bucket.tokens ≤ perMinute

namespace Bucket.Sound

variable {perMinute : ℕ} {bucket : Bucket} {now now' : ℤ}

theorem fresh (perMinute : ℕ) (now : ℤ) : (Bucket.fresh perMinute now).Sound perMinute now :=
  ⟨rfl, rfl, le_refl _, le_refl _⟩

theorem mono (h : bucket.Sound perMinute now) (hle : now ≤ now') : bucket.Sound perMinute now' :=
  ⟨h.capacity, h.refillPerMs, h.lastRefillMs.trans hle, h.tokens⟩

/-- What a refill leaves. -/
theorem refill_tokens (h : bucket.Sound perMinute now) :
    (bucket.refill now).tokens =
      level (perMinute : ℚ) (perMs perMinute) bucket.tokens (now - bucket.lastRefillMs) := by
  have helapsed : max 0 (now - bucket.lastRefillMs) = now - bucket.lastRefillMs :=
    max_eq_right (by have := h.lastRefillMs; omega)
  show min (bucket.capacity : ℚ) (bucket.tokens + (max 0 (now - bucket.lastRefillMs) : ℤ) *
    bucket.refillPerMs) = _
  rw [helapsed, h.capacity, h.refillPerMs, level]
  push_cast
  rfl

theorem refill (h : bucket.Sound perMinute now) : (bucket.refill now).Sound perMinute now := by
  refine ⟨h.capacity, h.refillPerMs, le_refl _, ?_⟩
  rw [h.refill_tokens]
  exact level_le_capacity

/-- A bucket that has just been refilled is left as it is. -/
theorem refill_self (h : bucket.Sound perMinute now) (hlast : bucket.lastRefillMs = now) :
    bucket.refill now = bucket := by
  have htokens : (bucket.refill now).tokens = bucket.tokens := by
    rw [h.refill_tokens, hlast, sub_self, level_zero h.tokens]
  show { bucket with tokens := (bucket.refill now).tokens, lastRefillMs := now } = bucket
  rw [htokens, ← hlast]

/-- A refill takes nothing. -/
theorem tokens_le_refill (h : bucket.Sound perMinute now) :
    bucket.tokens ≤ (bucket.refill now).tokens := by
  rw [h.refill_tokens]
  refine le_level h.tokens (perMs_nonneg perMinute) (sub_nonneg.mpr ?_)
  exact_mod_cast h.lastRefillMs

/-- Later it holds no more than what has flowed in since. -/
theorem refill_tokens_le (h : bucket.Sound perMinute now) (hle : now ≤ now') :
    (bucket.refill now').tokens ≤
      (bucket.refill now).tokens + (now' - now) * perMs perMinute := by
  have hmore : (0 : ℚ) ≤ now' - now := sub_nonneg.mpr (by exact_mod_cast hle)
  have hsplit : (now' : ℚ) - bucket.lastRefillMs = now - bucket.lastRefillMs + (now' - now) := by
    ring
  rw [(h.mono hle).refill_tokens, h.refill_tokens, hsplit]
  exact level_add_le (perMs_nonneg perMinute) hmore

/-- `waitMsForToken` is 0 exactly when there is a token. -/
theorem wait_eq_zero_iff (hp : 0 < perMinute) (h : bucket.Sound perMinute now) :
    (bucket.waitMsForToken now).2 = 0 ↔ 1 ≤ (bucket.refill now).tokens := by
  show (if 1 ≤ (bucket.refill now).tokens then (0 : ℤ) else _) = 0 ↔ _
  split
  · next htoken => exact iff_of_true rfl htoken
  · next htoken =>
    refine iff_of_false (fun hzero => ?_) htoken
    have hrate : 0 < (bucket.refill now).refillPerMs := by
      rw [h.refill.refillPerMs, perMs]
      have : (0 : ℚ) < perMinute := by exact_mod_cast hp
      positivity
    have hwait : 0 < (1 - (bucket.refill now).tokens) / (bucket.refill now).refillPerMs :=
      div_pos (by linarith) hrate
    have := Int.ceil_pos.mpr hwait
    omega

/-- A caller's turn: with a token it takes one, and without it nothing. -/
theorem turn_eq (hp : 0 < perMinute) (h : bucket.Sound perMinute now) :
    bucket.turn now = if 1 ≤ (bucket.refill now).tokens then
      ({ bucket.refill now with
          tokens := (bucket.refill now).tokens - 1, waiters := bucket.waiters - 1 }, true)
      else (bucket.refill now, false) := by
  show (if (bucket.waitMsForToken now).2 = 0 then _ else _) = _
  rw [if_congr (h.wait_eq_zero_iff hp) rfl rfl]
  rfl

theorem penalized {retryAfterSeconds : ℚ} (h : bucket.Sound perMinute now) :
    (bucket.penalized now retryAfterSeconds).Sound perMinute now :=
  ⟨h.capacity, h.refillPerMs, le_refl _, (min_le_left _ _).trans h.tokens⟩

end Bucket.Sound

/-! ### The buckets -/

/-- Every bucket is as it can be. -/
def Buckets.Sound (perMinute : ℕ) (now : ℤ) (buckets : Buckets) : Prop :=
  ∀ key bucket, buckets key = some bucket → bucket.Sound perMinute now

section

variable {perMinute : ℕ} {buckets : Buckets} {key key' : String} {bucket : Bucket} {now : ℤ}

theorem bucketFor_of_some (h : buckets.Sound perMinute now) (hkey : buckets key = some bucket) :
    bucketFor buckets key perMinute now = bucket := by
  rw [bucketFor, hkey]
  exact if_neg (not_not.mpr (h key bucket hkey).capacity)

theorem bucketFor_sound (h : buckets.Sound perMinute now) :
    (bucketFor buckets key perMinute now).Sound perMinute now := by
  cases hkey : buckets key with
  | none =>
    rw [bucketFor, hkey]
    exact .fresh perMinute now
  | some bucket =>
    rw [bucketFor_of_some h hkey]
    exact h key bucket hkey

theorem Buckets.Sound.update (h : buckets.Sound perMinute now)
    (hbucket : bucket.Sound perMinute now) :
    Buckets.Sound perMinute now (Function.update buckets key (some bucket)) := by
  intro key' bucket' hkey'
  by_cases heq : key' = key
  · rw [heq, Function.update_self] at hkey'
    exact Option.some_inj.mp hkey' ▸ hbucket
  · rw [Function.update_of_ne heq] at hkey'
    exact h key' bucket' hkey'

/-- A bucket is left alone, or refilled. -/
def Buckets.Refilled (perMinute : ℕ) (now : ℤ) (buckets buckets' : Buckets) : Prop :=
  ∀ key, buckets' key = buckets key ∨
    buckets' key = some ((bucketFor buckets key perMinute now).refill now)

/-- `pickKey` refills the buckets of its keys. -/
theorem pickKey_refilled (h : buckets.Sound perMinute now) (keys : List String) :
    Buckets.Refilled perMinute now buckets (pickKey buckets keys perMinute now).buckets := by
  have hfold : ∀ pick : Pick, Buckets.Refilled perMinute now buckets pick.buckets →
      Buckets.Refilled perMinute now buckets
        (keys.foldl (Pick.consider perMinute now) pick).buckets := by
    induction keys with
    | nil => exact fun pick hpick => hpick
    | cons key keys ih =>
      intro pick hpick
      refine ih _ fun key' => ?_
      have hbuckets : (pick.consider perMinute now key).buckets =
          Function.update pick.buckets key
            (some ((bucketFor pick.buckets key perMinute now).refill now)) := by
        rw [Pick.consider]
        split
        · rfl
        · rfl
      rw [hbuckets]
      by_cases heq : key' = key
      · subst heq
        rw [Function.update_self]
        refine Or.inr (congrArg some ?_)
        have hsound := @bucketFor_sound perMinute buckets key' now h
        rcases hpick key' with hsame | hrefilled
        · rw [bucketFor, hsame]
          rfl
        · -- a key named twice is refilled twice in one instant
          rw [bucketFor, hrefilled]
          show (if _ ≠ perMinute then _ else _ : Bucket).refill now = _
          rw [if_neg (not_not.mpr hsound.refill.capacity)]
          exact hsound.refill.refill_self rfl
      · rw [Function.update_of_ne heq]
        exact hpick key'
  exact hfold ⟨buckets, _, none⟩ fun key => Or.inl rfl

end

/-! ### One step -/

namespace Limiter

variable {perMinute : ℕ} {s s' : Limiter} {key key' : String} {now t : ℤ}

/-- What is available later is no more than what has flowed in since. -/
theorem available_le (h : s.buckets.Sound perMinute now) (hle : now ≤ t) :
    s.available perMinute key t ≤ s.available perMinute key now + (t - now) * perMs perMinute := by
  cases hkey : s.buckets key with
  | some bucket =>
    have h' : s.buckets.Sound perMinute t := fun k b hb => (h k b hb).mono hle
    rw [available, available, bucketFor_of_some h hkey, bucketFor_of_some h' hkey]
    exact (h key bucket hkey).refill_tokens_le hle
  | none =>
    have hfull : ∀ t, s.available perMinute key t = perMinute := by
      intro t
      rw [available, bucketFor, hkey, (Bucket.Sound.fresh perMinute t).refill_self rfl]
      rfl
    rw [hfull, hfull]
    have hmore : (0 : ℚ) ≤ t - now := sub_nonneg.mpr (by exact_mod_cast hle)
    have := mul_nonneg hmore (perMs_nonneg perMinute)
    linarith

theorem taken_of_cons (h : s'.grants = ⟨key', now⟩ :: s.grants) :
    s'.taken key = s.taken key + if key' = key then 1 else 0 := by
  rw [taken, taken, h, List.countP_cons]
  simp

theorem takenIn_of_cons {start : ℤ} (h : s'.grants = ⟨key', now⟩ :: s.grants) :
    s'.takenIn key start = s.takenIn key start +
      if key' = key ∧ start ≤ now ∧ now < start + 60000 then 1 else 0 := by
  rw [takenIn, takenIn, h, List.countP_cons]
  simp

/-- What a step at an instant does to a key. -/
structure Moves (perMinute : ℕ) (s s' : Limiter) (now : ℤ) (key : String) : Prop where
  /-- What it takes and what it leaves was available. -/
  available : ∀ t, now ≤ t → s'.available perMinute key t + s'.taken key ≤
    s.available perMinute key now + s.taken key + (t - now) * perMs perMinute
  grants : s'.grants = s.grants ∨ ∃ key', s'.grants = ⟨key', now⟩ :: s.grants ∧
    (key' = key → 1 ≤ s.available perMinute key now)

/-- A key whose bucket is left alone. -/
theorem available_of_same (h : s.buckets.Sound perMinute now)
    (hsame : s'.buckets key = s.buckets key) (hle : now ≤ t) :
    s'.available perMinute key t ≤
      s.available perMinute key now + (t - now) * perMs perMinute := by
  have heq : s'.available perMinute key t = s.available perMinute key t := by
    rw [available, available, bucketFor, bucketFor, hsame]
  rw [heq]
  exact available_le h hle

/-- A key whose bucket has just been refilled, and something taken from it. -/
theorem available_of_bucket {bucket : Bucket} {taken : ℚ} (h : bucket.Sound perMinute now)
    (hlast : bucket.lastRefillMs = now) (hkey : s'.buckets key = some bucket)
    (htokens : bucket.tokens + taken ≤ s.available perMinute key now) (hle : now ≤ t) :
    s'.available perMinute key t + taken ≤
      s.available perMinute key now + (t - now) * perMs perMinute := by
  have hlater := h.refill_tokens_le hle
  rw [h.refill_self hlast] at hlater
  have hfor : bucketFor s'.buckets key perMinute t = bucket := by
    rw [bucketFor, hkey]
    exact if_neg (not_not.mpr h.capacity)
  rw [available, hfor]
  linarith

/-- A step that grants nothing. -/
theorem Moves.of_available (hgrants : s'.grants = s.grants)
    (h : ∀ t, now ≤ t → s'.available perMinute key t ≤
      s.available perMinute key now + (t - now) * perMs perMinute) :
    Moves perMinute s s' now key := by
  refine ⟨fun t hle => ?_, Or.inl hgrants⟩
  have := h t hle
  rw [taken, taken, hgrants]
  linarith

section

variable {bucket : Bucket} {sleepers : List String}

/-- A bucket is replaced by one that holds no more. -/
theorem Moves.of_left (hs : s.buckets.Sound perMinute now) (h : bucket.Sound perMinute now)
    (hlast : bucket.lastRefillMs = now)
    (hbuckets : s'.buckets = Function.update s.buckets key (some bucket))
    (hgrants : s'.grants = s.grants) (htokens : bucket.tokens ≤ s.available perMinute key now) :
    Moves perMinute s s' now key' := by
  refine Moves.of_available hgrants fun t hle => ?_
  by_cases heq : key' = key
  · subst heq
    have hkey : s'.buckets key' = some bucket := by rw [hbuckets, Function.update_self]
    exact (add_zero _).ge.trans
      (available_of_bucket h hlast hkey ((add_zero _).trans_le htokens) hle)
  · refine available_of_same hs ?_ hle
    rw [hbuckets, Function.update_of_ne heq]

/-- A token of it is granted. -/
theorem Moves.of_grant (hs : s.buckets.Sound perMinute now) (h : bucket.Sound perMinute now)
    (hlast : bucket.lastRefillMs = now)
    (hbuckets : s'.buckets = Function.update s.buckets key (some bucket))
    (hgrants : s'.grants = ⟨key, now⟩ :: s.grants) (htoken : 1 ≤ s.available perMinute key now)
    (htokens : bucket.tokens + 1 ≤ s.available perMinute key now) :
    Moves perMinute s s' now key' := by
  refine ⟨fun t hle => ?_, Or.inr ⟨key, hgrants, fun heq => heq ▸ htoken⟩⟩
  by_cases heq : key' = key
  · subst heq
    have hkey : s'.buckets key' = some bucket := by rw [hbuckets, Function.update_self]
    have hlater := available_of_bucket h hlast hkey htokens hle
    have htaken : s'.taken key' = s.taken key' + 1 := by
      rw [taken_of_cons hgrants, if_pos rfl]
    rw [htaken]
    push_cast
    linarith
  · have hsame : s'.buckets key' = s.buckets key' := by rw [hbuckets, Function.update_of_ne heq]
    have hlater := available_of_same hs hsame hle
    have htaken : s'.taken key' = s.taken key' := by
      rw [taken_of_cons hgrants, if_neg (Ne.symm heq), Nat.add_zero]
    rw [htaken]
    linarith

/-- A caller's turn, when there is a token, -/
theorem turn_of_token (hp : 0 < perMinute) (h : bucket.Sound perMinute now)
    (htoken : 1 ≤ (bucket.refill now).tokens) :
    ∃ left : Bucket, left.Sound perMinute now ∧ left.lastRefillMs = now ∧
      left.tokens = (bucket.refill now).tokens - 1 ∧
      s.turn key bucket sleepers now =
        ⟨Function.update s.buckets key (some left), now, sleepers, ⟨key, now⟩ :: s.grants⟩ := by
  refine ⟨{ bucket.refill now with
    tokens := (bucket.refill now).tokens - 1, waiters := bucket.waiters - 1 }, ?_, rfl, rfl, ?_⟩
  · have hsound := h.refill
    refine ⟨hsound.capacity, hsound.refillPerMs, hsound.lastRefillMs, ?_⟩
    have := hsound.tokens
    show (bucket.refill now).tokens - 1 ≤ perMinute
    linarith
  · rw [turn, h.turn_eq hp, if_pos htoken]
    rfl

/-- and when there is none. -/
theorem turn_of_no_token (hp : 0 < perMinute) (h : bucket.Sound perMinute now)
    (htoken : ¬ 1 ≤ (bucket.refill now).tokens) :
    s.turn key bucket sleepers now =
      ⟨Function.update s.buckets key (some (bucket.refill now)), now, sleepers ++ [key],
        s.grants⟩ := by
  rw [turn, h.turn_eq hp, if_neg htoken]
  rfl

theorem turn_moves (hp : 0 < perMinute) (hs : s.buckets.Sound perMinute now)
    (h : bucket.Sound perMinute now)
    (htokens : (bucket.refill now).tokens = s.available perMinute key now) (key' : String) :
    (s.turn key bucket sleepers now).buckets.Sound perMinute now ∧
      Moves perMinute s (s.turn key bucket sleepers now) now key' := by
  by_cases htoken : 1 ≤ (bucket.refill now).tokens
  · obtain ⟨left, hsound, hlast, hleft, hturn⟩ := turn_of_token hp h htoken
    rw [hturn]
    refine ⟨hs.update hsound, Moves.of_grant hs hsound hlast rfl rfl (htokens ▸ htoken) ?_⟩
    rw [hleft, htokens, sub_add_cancel]
  · rw [turn_of_no_token hp h htoken]
    exact ⟨hs.update h.refill, Moves.of_left hs h.refill rfl rfl rfl htokens.le⟩

end

/-- **Step.**  What a step of the limiter does to a key. -/
theorem step_moves {l : Step} (hp : 0 < perMinute) (hs : s.buckets.Sound perMinute s.clock)
    (h : s.step perMinute l = some s') (key : String) :
    s.clock ≤ l.now ∧ s'.clock = l.now ∧ s'.buckets.Sound perMinute l.now ∧
      Moves perMinute s s' l.now key := by
  rw [step.eq_def] at h
  split at h
  · cases h
  · next hclock =>
    have hclock : s.clock ≤ l.now := not_lt.mp hclock
    have hs' : s.buckets.Sound perMinute l.now := fun k b hb => (hs k b hb).mono hclock
    refine ⟨hclock, ?_⟩
    cases l with
    | acquire key' now =>
      obtain rfl := Option.some_inj.mp h
      have hsound := @bucketFor_sound perMinute s.buckets key' now hs'
      refine ⟨rfl, ?_⟩
      -- one more waiter changes nothing that is counted
      have hwaiting : ({ bucketFor s.buckets key' perMinute now with
          waiters := (bucketFor s.buckets key' perMinute now).waiters + 1 } : Bucket).Sound
            perMinute now :=
        ⟨hsound.capacity, hsound.refillPerMs, hsound.lastRefillMs, hsound.tokens⟩
      exact turn_moves hp hs' hwaiting rfl key
    | wake i now =>
      obtain ⟨key', _, h⟩ := Option.bind_eq_some_iff.mp h
      obtain ⟨bucket, hkey', rfl⟩ := Option.map_eq_some_iff.mp h
      refine ⟨rfl, turn_moves hp hs' (hs' key' bucket hkey') ?_ key⟩
      rw [available, bucketFor_of_some hs' hkey']
    | penalize key' retryAfterSeconds now =>
      obtain rfl := Option.some_inj.mp h
      have hsound := @bucketFor_sound perMinute s.buckets key' now hs'
      refine ⟨rfl, hs'.update hsound.penalized, Moves.of_left hs' hsound.penalized rfl rfl rfl ?_⟩
      exact (min_le_left _ _).trans hsound.tokens_le_refill
    | pickKey keys now =>
      obtain rfl := Option.some_inj.mp h
      have hrefilled := pickKey_refilled hs' keys
      refine ⟨rfl, fun key' bucket hkey' => ?_, Moves.of_available rfl fun t hle => ?_⟩
      · rcases hrefilled key' with hsame | hkey
        · exact hs' key' bucket (hsame ▸ hkey')
        · obtain rfl := Option.some_inj.mp (hkey.symm.trans hkey')
          exact (bucketFor_sound hs').refill
      · rcases hrefilled key with hsame | hkey
        · exact available_of_same hs' hsame hle
        · have hsound := (@bucketFor_sound perMinute s.buckets key now hs').refill
          exact (add_zero _).ge.trans (available_of_bucket hsound rfl hkey (add_zero _).le hle)

/-! ### A minute -/

/-- The buckets are as they can be in every run. -/
theorem sound_of_reach (hp : 0 < perMinute) {clock : ℤ}
    (h : Reachable (step perMinute) (init clock) s) : s.buckets.Sound perMinute s.clock := by
  refine h.invariant (I := fun s => s.buckets.Sound perMinute s.clock) ?_ ?_
  · intro key bucket hkey
    cases hkey
  · intro s l s' _ hs _ hstep
    obtain ⟨_, hclock, hsound, _⟩ := step_moves hp hs hstep ""
    rw [hclock]
    exact hsound

/-- What has been granted since `start` was available then, or has flowed in since. -/
structure Metered (perMinute : ℕ) (s₀ s : Limiter) (key : String) (start : ℤ) : Prop where
  sound : s.buckets.Sound perMinute s.clock
  available : ∀ t, s.clock ≤ t → start ≤ t → s.available perMinute key t + s.taken key ≤
    s₀.available perMinute key start + s₀.taken key + (t - start) * perMs perMinute
  counted : s.takenIn key start + s₀.taken key ≤ s.taken key
  within : s.takenIn key start = 0 ∨
    (s.takenIn key start : ℚ) ≤ s₀.available perMinute key start + 59999 * perMs perMinute

theorem Metered.step {s₀ : Limiter} {start : ℤ} {l : Step} (hp : 0 < perMinute)
    (hs : Metered perMinute s₀ s key start) (hstart : start ≤ l.now)
    (h : s.step perMinute l = some s') : Metered perMinute s₀ s' key start := by
  obtain ⟨hclock, hclock', hsound, hmoves⟩ := step_moves hp hs.sound h key
  have hnow := hs.available l.now hclock hstart
  refine ⟨hclock' ▸ hsound, fun t ht _ => ?_, ?_, ?_⟩
  · have hlater := hmoves.available t (hclock' ▸ ht)
    linarith
  · have hcounted := hs.counted
    rcases hmoves.grants with hgrants | ⟨key', hgrants, _⟩
    · have hin : s'.takenIn key start = s.takenIn key start := by rw [takenIn, takenIn, hgrants]
      have htaken : s'.taken key = s.taken key := by rw [taken, taken, hgrants]
      omega
    · rw [takenIn_of_cons hgrants, taken_of_cons hgrants]
      by_cases heq : key' = key
      · rw [if_pos heq]
        split <;> omega
      · rw [if_neg heq, if_neg fun h => heq h.1]
        omega
  · rcases hmoves.grants with hgrants | ⟨key', hgrants, htoken⟩
    · have hin : s'.takenIn key start = s.takenIn key start := by rw [takenIn, takenIn, hgrants]
      rw [hin]
      exact hs.within
    · by_cases hcounted : key' = key ∧ start ≤ l.now ∧ l.now < start + 60000
      · -- there was a token, which had been there at the start or has flowed in since
        have hone : s'.takenIn key start = s.takenIn key start + 1 := by
          rw [takenIn_of_cons hgrants, if_pos hcounted]
        have htoken := htoken hcounted.1
        have htaken : (s.takenIn key start : ℚ) + s₀.taken key ≤ s.taken key := by
          exact_mod_cast hs.counted
        have hms : (l.now : ℚ) - start ≤ 59999 := by
          have : l.now - start ≤ 59999 := by omega
          exact_mod_cast this
        have hflow := mul_le_mul_of_nonneg_right hms (perMs_nonneg perMinute)
        refine Or.inr ?_
        rw [hone]
        push_cast
        linarith
      · rw [takenIn_of_cons hgrants, if_neg hcounted, Nat.add_zero]
        exact hs.within

/-- With hardly more than one token at its start, a minute grants no more than the budget. -/
theorem takenIn_le {s₀ : Limiter} {start : ℤ} (hp : 0 < perMinute)
    (hsound : s₀.buckets.Sound perMinute s₀.clock) (hclock : s₀.clock ≤ start)
    (hbefore : ∀ g ∈ s₀.grants, g.time < start)
    (hfew : s₀.available perMinute key start < 1 + perMs perMinute)
    (h : Reach (Limiter.step perMinute) (fun _ l => start ≤ l.now) s₀ s) :
    s.takenIn key start ≤ perMinute := by
  have hzero : s₀.takenIn key start = 0 := by
    refine List.countP_eq_zero.mpr fun g hg => ?_
    have := hbefore g hg
    simp only [decide_eq_true_eq]
    omega
  have hmetered : Metered perMinute s₀ s key start := by
    refine h.invariant (I := fun s => Metered perMinute s₀ s key start)
      ⟨hsound, fun t _ ht => ?_, ?_, Or.inl hzero⟩
      fun _ _ _ _ hs hstart hstep => hs.step hp hstart hstep
    · have hs₀ : s₀.buckets.Sound perMinute start := fun k b hb => (hsound k b hb).mono hclock
      have := @available_le perMinute s₀ key start t hs₀ ht
      linarith
    · rw [hzero, Nat.zero_add]
  rcases hmetered.within with hnone | hsome
  · rw [hnone]
    exact Nat.zero_le _
  · have hminute : 60000 * perMs perMinute = perMinute := by
      rw [perMs]
      ring
    have hlt : (s.takenIn key start : ℚ) < perMinute + 1 := by linarith
    have : s.takenIn key start < perMinute + 1 := by exact_mod_cast hlt
    omega

/-! ### More than a budget -/

/-- A caller that finds a token takes it. -/
theorem step_acquire (hp : 0 < perMinute) (hs : s.buckets.Sound perMinute s.clock)
    (hclock : s.clock ≤ now) (htoken : 1 ≤ s.available perMinute key now) :
    ∃ s', s.step perMinute (.acquire key now) = some s' ∧
      s'.buckets.Sound perMinute s'.clock ∧ s'.clock = now ∧
      s'.grants = ⟨key, now⟩ :: s.grants ∧
      ∀ t, now ≤ t → s'.available perMinute key t =
        level (perMinute : ℚ) (perMs perMinute) (s.available perMinute key now - 1) (t - now) := by
  have hs' : s.buckets.Sound perMinute now := fun k b hb => (hs k b hb).mono hclock
  have hsound := @bucketFor_sound perMinute s.buckets key now hs'
  have hwaiting : ({ bucketFor s.buckets key perMinute now with
      waiters := (bucketFor s.buckets key perMinute now).waiters + 1 } : Bucket).Sound
        perMinute now :=
    ⟨hsound.capacity, hsound.refillPerMs, hsound.lastRefillMs, hsound.tokens⟩
  obtain ⟨left, hleft, hlast, htokens, hturn⟩ :=
    @turn_of_token perMinute s key now _ s.sleepers hp hwaiting htoken
  refine ⟨_, (if_neg (not_lt.mpr hclock)).trans (congrArg some hturn), hs'.update hleft, rfl, rfl,
    fun t hle => ?_⟩
  have hfor : bucketFor (Function.update s.buckets key (some left)) key perMinute t = left := by
    rw [bucketFor, Function.update_self]
    exact if_neg (not_not.mpr hleft.capacity)
  rw [available, hfor, (hleft.mono hle).refill_tokens, hlast, htokens]
  rfl

/-- So do as many at once as there are tokens. -/
theorem run_acquire (hp : 0 < perMinute) {n : ℕ} (hs : s.buckets.Sound perMinute s.clock)
    (hclock : s.clock ≤ now) (htokens : n ≤ s.available perMinute key now) :
    ∃ s', Reach (step perMinute) (fun _ l => l.now = now) s s' ∧
      s'.grants = List.replicate n ⟨key, now⟩ ++ s.grants := by
  induction n generalizing s with
  | zero => exact ⟨s, .refl, rfl⟩
  | succ n ih =>
    push_cast at htokens
    have hn : (0 : ℚ) ≤ n := Nat.cast_nonneg n
    obtain ⟨s₁, hstep, hs₁, hclock₁, hgrants, havailable⟩ :=
      step_acquire hp hs hclock (by linarith : 1 ≤ s.available perMinute key now)
    have hcap : s.available perMinute key now ≤ perMinute := by
      have hs' : s.buckets.Sound perMinute now := fun k b hb => (hs k b hb).mono hclock
      exact (bucketFor_sound hs').refill.tokens
    have hleft := havailable now (le_refl now)
    rw [sub_self, level_zero (by linarith)] at hleft
    obtain ⟨s', hreach, hgrants'⟩ := ih hs₁ hclock₁.le (by linarith)
    have hfirst : Reach (step perMinute) (fun _ l => l.now = now) s s₁ := Reach.refl.tail rfl hstep
    refine ⟨s', hfirst.trans hreach, ?_⟩
    rw [hgrants', hgrants, List.replicate_succ', List.append_assoc]
    rfl

/-- With more at its start, a minute can grant one token more than the budget. -/
theorem exists_takenIn_lt {s₀ : Limiter} {start : ℤ} (hp : 0 < perMinute)
    (hsound : s₀.buckets.Sound perMinute s₀.clock) (hclock : s₀.clock ≤ start)
    (hmany : 1 + perMs perMinute ≤ s₀.available perMinute key start) :
    ∃ s, Reach (step perMinute) (fun _ l => start ≤ l.now) s₀ s ∧
      perMinute < s.takenIn key start := by
  have hrate := perMs_nonneg perMinute
  obtain ⟨s₁, hstep, hs₁, hclock₁, hgrants, havailable⟩ :=
    step_acquire hp hsound hclock (by linarith : 1 ≤ s₀.available perMinute key start)
  -- the bucket is full again in the last millisecond
  have hfull : s₁.available perMinute key (start + 59999) = perMinute := by
    rw [havailable _ (by omega)]
    refine level_eq_capacity ?_
    have hminute : perMs perMinute + 59999 * perMs perMinute = perMinute := by
      rw [perMs]
      ring
    push_cast
    linarith
  obtain ⟨s₂, hreach, hgrants₂⟩ :=
    run_acquire hp hs₁ (by omega : s₁.clock ≤ start + 59999) hfull.ge
  have hfirst : Reach (step perMinute) (fun _ l => start ≤ l.now) s₀ s₁ :=
    Reach.refl.tail (l := .acquire key start) (le_refl start) hstep
  have hrest : Reach (step perMinute) (fun _ l => start ≤ l.now) s₁ s₂ := by
    refine hreach.mono fun _ l hl => ?_
    omega
  refine ⟨s₂, hfirst.trans hrest, ?_⟩
  · have hall : ∀ g ∈ List.replicate perMinute (⟨key, start + 59999⟩ : Grant),
        decide (g.key = key ∧ start ≤ g.time ∧ g.time < start + 60000) = true := by
      intro g hg
      obtain rfl := List.eq_of_mem_replicate hg
      simp
    rw [takenIn, hgrants₂, hgrants, List.countP_append, List.countP_eq_length.mpr hall,
      List.length_replicate, List.countP_cons_of_pos (by simp)]
    omega

end Limiter

/-- **When a minute keeps to the budget.**  Whatever callers, timers and penalties come in it, a
minute grants a key at most its budget if the bucket of the key holds less than one token at the
start; with a token, and twice what flows in within a millisecond besides, some go beyond.  What
lies between is the margin for the rounding of the source. -/
theorem budget_of_lt_one {perMinute : ℕ} (hp : 0 < perMinute) {clock : ℤ} {s₀ : Limiter}
    (hreach : Reachable (Limiter.step perMinute) (Limiter.init clock) s₀) (key : String)
    {start : ℤ} (hclock : s₀.clock ≤ start) (hbefore : ∀ g ∈ s₀.grants, g.time < start) :
    (s₀.available perMinute key start < 1 →
      ∀ s, Reach (Limiter.step perMinute) (fun _ l => start ≤ l.now) s₀ s →
        s.takenIn key start ≤ perMinute) ∧
      (1 + 2 * perMs perMinute ≤ s₀.available perMinute key start →
        ∃ s, Reach (Limiter.step perMinute) (fun _ l => start ≤ l.now) s₀ s ∧
          perMinute < s.takenIn key start) := by
  have hsound := Limiter.sound_of_reach hp hreach
  have hrate := perMs_nonneg perMinute
  constructor
  · intro hfew s hs
    exact Limiter.takenIn_le hp hsound hclock hbefore (by linarith) hs
  · intro hmany
    exact Limiter.exists_takenIn_lt hp hsound hclock (by linarith)

/-- The limiter after a penalty of five seconds on a new key. -/
def Sample.penalized : Limiter :=
  { Limiter.init 0 with
    buckets := Function.update (Limiter.init 0).buckets "key"
      (some ((Bucket.fresh 100 0).penalized 0 5)) }

/-- A penalty of five seconds leaves the minute that starts with it within the budget; a key that
has rested does not. -/
theorem budget_of_lt_one_penalized :
    (∃ s₀, Reachable (Limiter.step 100) (Limiter.init 0) s₀ ∧
      s₀.available 100 "key" 0 < 1 ∧
      ∀ s, Reach (Limiter.step 100) (fun _ l => 0 ≤ l.now) s₀ s → s.takenIn "key" 0 ≤ 100) ∧
    ∃ s, Reach (Limiter.step 100) (fun _ l => 0 ≤ l.now) (Limiter.init 0) s ∧
      100 < s.takenIn "key" 0 := by
  have hstep : (Limiter.init 0).step 100 (.penalize "key" 5 0) = some Sample.penalized := rfl
  have hreach : Reachable (Limiter.step 100) (Limiter.init 0) Sample.penalized :=
    Reach.refl.tail trivial hstep
  have hfew : Sample.penalized.available 100 "key" 0 < 1 := by decide +kernel
  have hmany : 1 + 2 * perMs 100 ≤ (Limiter.init 0).available 100 "key" 0 := by decide +kernel
  have hbefore : ∀ g ∈ Sample.penalized.grants, g.time < 0 :=
    fun g hg => absurd hg List.not_mem_nil
  exact ⟨⟨Sample.penalized, hreach, hfew,
      (budget_of_lt_one (by omega) hreach "key" (le_refl 0) hbefore).1 hfew⟩,
    (budget_of_lt_one (by omega) Reach.refl "key" (le_refl 0)
      fun g hg => absurd hg List.not_mem_nil).2 hmany⟩

/-- A key that has rested is granted 101 tokens in a minute, of a budget of 100. -/
theorem rested_key_exceeds :
    (∃ s, Reachable (Limiter.step 100) (Limiter.init 0) s ∧ 100 < s.takenIn "key" 0) ∧
    ¬ ∀ perMinute clock s key start, 0 < perMinute →
      Reachable (Limiter.step perMinute) (Limiter.init clock) s →
        s.takenIn key start ≤ perMinute := by
  have hexceeds : ∃ s, Reachable (Limiter.step 100) (Limiter.init 0) s ∧
      100 < s.takenIn "key" 0 := by
    have hsound := @Limiter.sound_of_reach 100 _ (by omega) 0 Reach.refl
    have hfull : 1 + perMs 100 ≤ (Limiter.init 0).available 100 "key" 0 := by decide +kernel
    obtain ⟨s, hs, hlt⟩ := Limiter.exists_takenIn_lt (by omega) hsound (le_refl 0) hfull
    exact ⟨s, hs.reachable, hlt⟩
  refine ⟨hexceeds, fun h => ?_⟩
  obtain ⟨s, hs, hlt⟩ := hexceeds
  have := h 100 0 s "key" 0 (by omega) hs
  omega

end RateLimiter
