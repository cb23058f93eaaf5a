/-
Sign-ins under the lock-out (`packages/auth/src/auth.ts`).

The hooks of requests to `/sign-in/email` interleave: before a request's password is verified a
hook looks for a lock, and after it another one records the failure.

* `lockoutKey`, `beforeHook`, `afterHook` — the hooks and the store they share;
* `SignIns`, `step` — any number of requests under way, each at its own stage, while time passes;
  with it go the number of verifications started for one key since its last lock, and of those
  started by a request that had met a lock;
* `fresh_lt` — since the last lock ended, or the streak lapsed, fewer than `LOCKOUT_THRESHOLD`
  verifications were started besides those of them still under way, and none by a request that
  had met a lock;
* `guesses_not_bounded` — a lapse, or requests that overlap, let more through.
-/
import HoodMint.Lib.Text
import HoodMint.Lib.Transition
import HoodMint.Lockout
import Mathlib

namespace Lockout

open Transition

/-! ### The hooks -/

/-- What the hooks read of a request. -/
structure SignInRequest where
  email : Option String
  forwardedFor : Option String
  realIp : Option String

/-- `a || b`, where `a` may be missing. -/
def nonEmptyOr (a : Option String) (b : String) : String :=
  match a with
  | some text => if text = "" then b else text
  | none => b

def clientIp (request : SignInRequest) : String :=
  let first := request.forwardedFor.map fun forwarded =>
    Text.trim (String.ofList (forwarded.toList.takeWhile (· ≠ ',')))
  nonEmptyOr first (nonEmptyOr (request.realIp.map Text.trim) "unknown")

def lockoutKey (request : SignInRequest) : Option String :=
  let email := (request.email.map fun email => Text.lower (Text.trim email)).getD ""
  if email = "" then none else some (email ++ "|" ++ clientIp request)

/-- `lockoutStore`. -/
abbrev Store := AList fun _ : String => LockoutState

namespace Store

/-- `lockoutStore.get(key) ?? initialLockoutState`. -/
def state (store : Store) (key : String) : LockoutState :=
  (store.lookup key).getD initialLockoutState

/-- An entry that may be dropped. -/
def stale (state : LockoutState) (now : ℕ) : Bool :=
  !isLocked state now && decide (60 * 60000 < now - state.lastFailureAt)

/-- One turn of the loop of `pruneLockouts`. -/
def dropStale (now : ℕ) (store : Store) (entry : Sigma fun _ : String => LockoutState) : Store :=
  if stale entry.2 now then store.erase entry.1 else store

def pruneLockouts (store : Store) (now : ℕ) : Store :=
  if store.entries.length < 1000 then store else store.entries.foldl (dropStale now) store

end Store

/-- The hook before a sign-in: whether it lets the request pass. -/
def beforeHook (store : Store) (key : Option String) (now : ℕ) : Bool :=
  key.all fun key => !isLocked (store.state key) now

/-- The hook after it. -/
def afterHook (store : Store) (key : Option String) (newSession : Bool) (now : ℕ) : Store :=
  match key with
  | some key =>
    let store := if newSession then store.erase key
      else store.insert key (recordFailure (store.state key) now)
    Store.pruneLockouts store now
  | none => store

/-! ### The system -/

/-- How far a request is. -/
inductive Phase
  | arrived
  | admitted
  | rejected
  | verifying
  | done
deriving DecidableEq

/-- A request; with it, whether its key was locked when the hook before it ran, and the window in
which its verification was started. -/
structure SignIn where
  key : Option String
  phase : Phase
  metLock : Bool
  window : Option ℕ
deriving DecidableEq

/-- The store, the clock and the requests; and for one key, how many verifications were started
since its last lock ended, and since its streak last lapsed, which is the current window, and how
many by requests that had met a lock. -/
structure SignIns where
  lockoutStore : Store
  now : ℕ
  requests : List SignIn
  started : ℕ
  fresh : ℕ
  window : ℕ
  intruded : ℕ

/-- What can happen. -/
inductive SignInStep
  | enter (request : SignInRequest)
  | before (i : ℕ)
  | verify (i : ℕ)
  | after (i : ℕ) (newSession : Bool)
  | wait (now : ℕ)

namespace SignIns

variable (key : String) (d : SignIns)

/-- The key is locked. -/
def locked : Bool := isLocked (d.lockoutStore.state key) d.now

/-- The key's streak has lapsed: nothing was recorded for longer than the decay gap. -/
def lapsed : Bool := (d.lockoutStore.lookup key).any fun state => Store.stale state d.now

/-- A verification for the key, started in the current window, is under way. -/
def Verifies (r : SignIn) : Prop :=
  r.key = some key ∧ r.phase = .verifying ∧ r.window = some d.window

instance : DecidablePred (Verifies key d) := fun _ => inferInstanceAs (Decidable (_ ∧ _ ∧ _))

/-- How many are. -/
def underWay : ℕ := d.requests.countP (d.Verifies key)

/-- The handler starts to verify. -/
def startVerify (i : ℕ) (r : SignIn) : SignIns :=
  let counts := r.key = some key ∧ d.locked key = false
  { d with
    requests := d.requests.set i
      { r with phase := .verifying, window := if counts then some d.window else none }
    started := d.started + if counts then 1 else 0
    fresh := d.fresh + if counts then 1 else 0
    intruded := d.intruded + if r.metLock then 1 else 0 }

/-- The hook after a request. -/
def finish (i : ℕ) (r : SignIn) (newSession : Bool) : SignIns :=
  let d' := { d with
    lockoutStore := afterHook d.lockoutStore r.key newSession d.now
    requests := d.requests.set i { r with phase := .done } }
  -- a lock that begins closes the window
  if d.locked key = false ∧ d'.locked key = true then
    { d' with started := 0, fresh := 0, window := d.window + 1 }
  else d'

/-- Time passes. -/
def pass (now : ℕ) : SignIns :=
  let d' := { d with now }
  if d.lapsed key = false ∧ d'.lapsed key = true then
    { d' with fresh := 0, window := d.window + 1 }
  else d'

/-- One step.  A request that was rejected, or whose handler failed before it verified anything,
may reach the hook after it too. -/
def step : SignInStep → Option SignIns
  | .enter request =>
    some { d with requests := d.requests ++ [⟨lockoutKey request, .arrived, false, none⟩] }
  | .before i =>
    match d.requests[i]? with
    | some ⟨k, .arrived, _, window⟩ =>
      let phase := if beforeHook d.lockoutStore k d.now then .admitted else .rejected
      let metLock := decide (k = some key ∧ d.locked key = true)
      some { d with requests := d.requests.set i ⟨k, phase, metLock, window⟩ }
    | _ => none
  | .verify i =>
    match d.requests[i]? with
    | some ⟨k, .admitted, metLock, window⟩ =>
      some (d.startVerify key i ⟨k, .admitted, metLock, window⟩)
    | _ => none
  | .after i newSession =>
    match d.requests[i]? with
    | some ⟨k, .verifying, metLock, window⟩ =>
      some (d.finish key i ⟨k, .verifying, metLock, window⟩ newSession)
    | some ⟨k, .admitted, metLock, window⟩ =>
      some (d.finish key i ⟨k, .admitted, metLock, window⟩ false)
    | some ⟨k, .rejected, metLock, window⟩ =>
      some (d.finish key i ⟨k, .rejected, metLock, window⟩ false)
    | _ => none
  | .wait now => if d.now ≤ now then some (d.pass key now) else none

/-- Nothing recorded, and no request under way. -/
def init (now : ℕ) : SignIns := ⟨∅, now, [], 0, 0, 0, 0⟩

end SignIns

/-- No request for the key succeeds. -/
def Fails (key : String) (d : SignIns) : SignInStep → Prop
  | .after i true => ∀ r ∈ d.requests[i]?, r.key ≠ some key
  | _ => True

instance (key : String) (d : SignIns) : DecidablePred (Fails key d) := fun l =>
  match l with
  | .after i true => (inferInstance : Decidable (∀ r ∈ d.requests[i]?, r.key ≠ some key))
  | .after _ false | .enter _ | .before _ | .verify _ | .wait _ => isTrue trivial

/-- Requests come one by one. -/
def OneByOne (d : SignIns) : SignInStep → Prop
  | .enter _ => ∀ r ∈ d.requests, r.phase = .done
  | _ => True

instance (d : SignIns) : DecidablePred (OneByOne d) := fun l =>
  match l with
  | .enter _ => (inferInstance : Decidable (∀ r ∈ d.requests, r.phase = .done))
  | .before _ | .verify _ | .after .. | .wait _ => isTrue trivial

/-! ### The store -/

section

variable {store : Store} {key key' : String} {now : ℕ}

theorem state_of_lookup_none (h : store.lookup key = none) :
    store.state key = initialLockoutState := by
  rw [Store.state, h]
  rfl

@[simp] theorem state_insert (s : LockoutState) : Store.state (store.insert key s) key = s := by
  rw [Store.state, AList.lookup_insert]
  rfl

/-- What was just recorded is kept. -/
theorem not_stale_recordFailure (s : LockoutState) :
    Store.stale (recordFailure s now) now = false := by
  cases hopen : isLocked s now with
  | true =>
    rw [recordFailure_of_isLocked hopen, Store.stale, hopen]
    rfl
  | false => simp [Store.stale, lastFailureAt_recordFailure hopen]

/-- Nothing is lost but stale entries. -/
theorem lookup_pruneLockouts (store : Store) (key : String) (now : ℕ) :
    (store.pruneLockouts now).lookup key = store.lookup key ∨
      ((store.pruneLockouts now).lookup key = none ∧
        ∃ s, store.lookup key = some s ∧ Store.stale s now = true) := by
  have hfold : ∀ (entries : List (Sigma fun _ : String => LockoutState)) (st : Store),
      (∀ e ∈ entries, e ∈ store.entries) → st.lookup key = store.lookup key ∨
        (st.lookup key = none ∧ ∃ s, store.lookup key = some s ∧ Store.stale s now = true) →
      (entries.foldl (Store.dropStale now) st).lookup key = store.lookup key ∨
        ((entries.foldl (Store.dropStale now) st).lookup key = none ∧
          ∃ s, store.lookup key = some s ∧ Store.stale s now = true) := by
    intro entries
    induction entries with
    | nil => exact fun _ _ h => h
    | cons e entries ih =>
      intro st hmem h
      refine ih _ (fun e' he' => hmem e' (List.mem_cons_of_mem _ he')) ?_
      rw [Store.dropStale]
      split
      · next hstale =>
        by_cases hkey : key = e.1
        · -- the entry dropped is the key's
          have hlookup : store.lookup e.1 = some e.2 :=
            AList.mem_lookup_iff.mpr (hmem e List.mem_cons_self)
          rw [hkey, AList.lookup_erase]
          exact Or.inr ⟨rfl, e.2, hlookup, hstale⟩
        · rwa [AList.lookup_erase_ne hkey]
      · exact h
  rw [Store.pruneLockouts]
  split
  · exact Or.inl rfl
  · exact hfold store.entries store (fun _ he => he) (Or.inl rfl)

/-- After a failure its key holds what was recorded. -/
theorem lookup_afterHook_self :
    (afterHook store (some key) false now).lookup key =
      some (recordFailure (store.state key) now) := by
  rcases lookup_pruneLockouts (store.insert key (recordFailure (store.state key) now)) key now
    with h | ⟨-, s, hs, hstale⟩
  · exact h.trans (AList.lookup_insert _)
  · rw [AList.lookup_insert, Option.some_inj] at hs
    rw [← hs, not_stale_recordFailure] at hstale
    cases hstale

/-- Any other request leaves it, or drops it when it is stale. -/
theorem lookup_afterHook_of_ne {k : Option String} (hne : k ≠ some key) (newSession : Bool) :
    (afterHook store k newSession now).lookup key = store.lookup key ∨
      ((afterHook store k newSession now).lookup key = none ∧
        ∃ s, store.lookup key = some s ∧ Store.stale s now = true) := by
  cases k with
  | none => exact Or.inl rfl
  | some k =>
    have hkey : key ≠ k := fun h => hne (h ▸ rfl)
    cases newSession with
    | true =>
      have h := lookup_pruneLockouts (store.erase k) key now
      rwa [AList.lookup_erase_ne hkey] at h
    | false =>
      have h := lookup_pruneLockouts (store.insert k (recordFailure (store.state k) now)) key now
      rwa [AList.lookup_insert_ne hkey] at h

end

/-! ### One step -/

section

variable {key : String} {now : ℕ} {d d' : SignIns}

/-- One request moves on. -/
theorem underWay_set {i : ℕ} {r : SignIn} (hi : d.requests[i]? = some r) (r' : SignIn) :
    (d.requests.set i r').countP (d.Verifies key) + (if d.Verifies key r then 1 else 0) =
      d.underWay key + (if d.Verifies key r' then 1 else 0) := by
  obtain ⟨hlt, hr⟩ := List.getElem?_eq_some_iff.mp hi
  have hold := (List.getElem_cons_eraseIdx_perm hlt).countP_eq (d.Verifies key)
  have hnew := (List.set_perm_cons_eraseIdx hlt r').countP_eq (d.Verifies key)
  rw [List.countP_cons] at hold hnew
  simp only [hr, decide_eq_true_eq] at hold hnew
  rw [SignIns.underWay]
  omega

/-- The verifications of the window are counted in the streak or still under way; once the streak
has lapsed, under way; during a lock there are none. -/
structure Sound (key : String) (d : SignIns) : Prop where
  counted : d.fresh ≤ (d.lockoutStore.state key).failures + d.underWay key
  lapsed : d.lapsed key = true → d.fresh ≤ d.underWay key
  locked : d.locked key = true → d.fresh = 0
  failures_lt : (d.lockoutStore.state key).failures < LOCKOUT_THRESHOLD

/-- A step that only moves a request on. -/
theorem Sound.of_requests (hs : Sound key d) {requests : List SignIn}
    (h : d.underWay key ≤ ({ d with requests } : SignIns).underWay key) :
    Sound key { d with requests } where
  counted := hs.counted.trans (Nat.add_le_add_left h _)
  lapsed hlapsed := (hs.lapsed hlapsed).trans h
  locked := hs.locked
  failures_lt := hs.failures_lt

theorem sound_enter (hs : Sound key d) (r : SignIn) (hr : r.phase ≠ .verifying) :
    Sound key { d with requests := d.requests ++ [r] } := by
  refine hs.of_requests (le_of_eq ?_)
  rw [SignIns.underWay, SignIns.underWay, List.countP_append, List.countP_singleton,
    if_neg (fun h => hr (of_decide_eq_true h).2.1)]
  rfl

theorem sound_before (hs : Sound key d) {i : ℕ} {r r' : SignIn}
    (hi : d.requests[i]? = some r) (hr : r.phase ≠ .verifying) :
    Sound key { d with requests := d.requests.set i r' } := by
  refine hs.of_requests ?_
  have hcount := @underWay_set key d _ _ hi r'
  rw [if_neg (fun h => hr h.2.1)] at hcount
  exact (Nat.le_add_right _ _).trans hcount.ge

/-- A verification that starts is under way. -/
theorem sound_startVerify (hs : Sound key d) {i : ℕ} {r : SignIn}
    (hi : d.requests[i]? = some r) (hr : r.phase = .admitted) :
    Sound key (d.startVerify key i r) := by
  have hcount := @underWay_set key d _ _ hi { r with
    phase := .verifying
    window := if r.key = some key ∧ d.locked key = false then some d.window else none }
  have hadmitted : ¬ d.Verifies key r := fun h => by
    have hphase := h.2.1
    rw [hr] at hphase
    cases hphase
  rw [if_neg hadmitted] at hcount
  have hmore : d.underWay key + (if r.key = some key ∧ d.locked key = false then 1 else 0) ≤
      (d.startVerify key i r).underWay key := by
    refine le_of_le_of_eq (Nat.add_le_add_left ?_ _) hcount.symm
    split
    · next h => rw [if_pos ⟨h.1, rfl, rfl⟩]
    · exact Nat.zero_le _
  refine ⟨?_, fun hlapsed => ?_, fun hlocked => ?_, hs.failures_lt⟩
  · have h := hs.counted
    show d.fresh + _ ≤ (d.lockoutStore.state key).failures + _
    omega
  · have h := hs.lapsed hlapsed
    show d.fresh + _ ≤ _
    omega
  · have hlocked : d.locked key = true := hlocked
    show d.fresh + _ = 0
    rw [hs.locked hlocked, hlocked]
    simp

/-- An empty window. -/
theorem sound_of_fresh_eq_zero (hfresh : d.fresh = 0)
    (hlt : (d.lockoutStore.state key).failures < LOCKOUT_THRESHOLD) : Sound key d where
  counted := hfresh.trans_le (Nat.zero_le _)
  lapsed _ := hfresh.trans_le (Nat.zero_le _)
  locked _ := hfresh
  failures_lt := hlt

/-- A failure that ends a lapsed streak was preceded by an entry that had lapsed. -/
theorem lapsed_of_decays (hopen : d.locked key = false)
    (hgone : decays (d.lockoutStore.state key) d.now = true) : d.lapsed key = true := by
  rw [SignIns.locked] at hopen
  have hidle := of_decide_eq_true hgone
  cases hentry : d.lockoutStore.lookup key with
  | none =>
    rw [state_of_lookup_none hentry] at hidle
    exact absurd rfl hidle.1
  | some s =>
    have hstate : d.lockoutStore.state key = s := by rw [Store.state, hentry]; rfl
    rw [hstate] at hopen hidle
    rw [SignIns.lapsed, hentry, Option.any_some, Store.stale, hopen]
    exact decide_eq_true hidle.2

/-- The key's own failure, as long as it sets no lock. -/
theorem sound_record (hs : Sound key d) {store : Store} {requests : List SignIn}
    (hentry : store.lookup key = some (recordFailure (d.lockoutStore.state key) d.now))
    (hcount : d.underWay key ≤
      ({ d with lockoutStore := store, requests } : SignIns).underWay key + 1)
    (hkeep : ¬ (d.locked key = false ∧
      ({ d with lockoutStore := store, requests } : SignIns).locked key = true)) :
    Sound key { d with lockoutStore := store, requests } := by
  have hstate : store.state key = recordFailure (d.lockoutStore.state key) d.now := by
    rw [Store.state, hentry]
    rfl
  have hlt : (store.state key).failures < LOCKOUT_THRESHOLD :=
    hstate ▸ failures_recordFailure_lt hs.failures_lt d.now
  cases hopen : d.locked key with
  | true => exact sound_of_fresh_eq_zero (hs.locked hopen) hlt
  | false =>
    have hunlocked : ({ d with lockoutStore := store, requests } : SignIns).locked key = false :=
      Bool.eq_false_iff.mpr fun h => hkeep ⟨hopen, h⟩
    refine ⟨?_, fun h => ?_, fun h => ?_, hlt⟩
    · have hfresh : d.fresh + 1 ≤ (store.state key).failures + d.underWay key := by
        rw [hstate]
        cases hgone : decays (d.lockoutStore.state key) d.now with
        | true =>
          -- a new streak, while all the window's verifications were under way
          rw [recordFailure_of_decays hopen hgone, Nat.add_comm]
          exact Nat.add_le_add_left (hs.lapsed (lapsed_of_decays hopen hgone)) 1
        | false =>
          have hnext := recordFailure_of_not_decays hopen hgone
          by_cases hshort : (d.lockoutStore.state key).failures + 1 < LOCKOUT_THRESHOLD
          · have hcounted := hs.counted
            rw [hnext, if_pos hshort]
            show _ ≤ (d.lockoutStore.state key).failures + 1 + _
            omega
          · -- this one would have set a lock
            rw [if_neg hshort] at hnext
            rw [SignIns.locked, hstate, hnext, isLocked] at hunlocked
            have hpos := lockDurationForLevel_pos ((d.lockoutStore.state key).level + 1)
            have hno : ¬ d.now < d.now + lockDurationForLevel _ := of_decide_eq_false hunlocked
            omega
      show d.fresh ≤ (store.state key).failures + _
      omega
    · have hstale : (store.lookup key).any (fun s => Store.stale s d.now) = true := h
      rw [hentry, Option.any_some, not_stale_recordFailure] at hstale
      cases hstale
    · rw [hunlocked] at h
      cases h

/-- Another request's outcome. -/
theorem sound_other (hs : Sound key d) {store : Store} {requests : List SignIn}
    (hentry : store.lookup key = d.lockoutStore.lookup key ∨ (store.lookup key = none ∧
      ∃ s, d.lockoutStore.lookup key = some s ∧ Store.stale s d.now = true))
    (hcount : d.underWay key ≤
      ({ d with lockoutStore := store, requests } : SignIns).underWay key) :
    Sound key { d with lockoutStore := store, requests } := by
  rcases hentry with hsame | ⟨hnone, s, hsome, hstale⟩
  · have hstate : store.state key = d.lockoutStore.state key := by
      rw [Store.state, hsame]
      rfl
    refine ⟨?_, fun h => ?_, fun h => ?_, hstate ▸ hs.failures_lt⟩
    · show d.fresh ≤ (store.state key).failures + _
      rw [hstate]
      exact hs.counted.trans (Nat.add_le_add_left hcount _)
    · refine (hs.lapsed ?_).trans hcount
      rw [SignIns.lapsed, ← hsame]
      exact h
    · refine hs.locked ?_
      rw [SignIns.locked, ← hstate]
      exact h
  · -- the key's entry was dropped, and its window has nothing but what is under way
    have hstate : store.state key = initialLockoutState := state_of_lookup_none hnone
    have hfresh : d.fresh ≤ d.underWay key := by
      refine hs.lapsed ?_
      rw [SignIns.lapsed, hsome]
      exact hstale
    refine ⟨?_, fun _ => hfresh.trans hcount, fun h => ?_, hstate ▸ by decide⟩
    · exact (hfresh.trans hcount).trans (Nat.le_add_left _ _)
    · have h : isLocked (store.state key) d.now = true := h
      rw [hstate] at h
      exact absurd (of_decide_eq_true h) (Nat.not_lt_zero _)

theorem sound_finish (hs : Sound key d) {i : ℕ} {r : SignIn} {newSession : Bool}
    (hi : d.requests[i]? = some r) (hfails : newSession = true → r.key ≠ some key) :
    Sound key (d.finish key i r newSession) := by
  have hcount := @underWay_set key d _ _ hi { r with phase := .done }
  have hdone : ¬ d.Verifies key { r with phase := .done } := fun h => Phase.noConfusion h.2.1
  rw [if_neg hdone] at hcount
  rw [SignIns.finish]
  by_cases hkey : r.key = some key
  · obtain rfl : newSession = false := Bool.eq_false_iff.mpr fun h => hfails h hkey
    have hentry := @lookup_afterHook_self d.lockoutStore key d.now
    rw [← hkey] at hentry
    split
    · refine sound_of_fresh_eq_zero rfl ?_
      show (Store.state (afterHook d.lockoutStore r.key false d.now) key).failures < _
      rw [Store.state, hentry]
      exact failures_recordFailure_lt hs.failures_lt d.now
    · next hkeep =>
      refine sound_record hs hentry ?_ hkeep
      have hone : (if d.Verifies key r then 1 else 0) ≤ 1 := by
        split <;> decide
      exact hcount.ge.trans (Nat.add_le_add_left hone _)
  · have hentry := @lookup_afterHook_of_ne d.lockoutStore key d.now _ hkey newSession
    have hsound := @sound_other key d hs _ (d.requests.set i { r with phase := .done }) hentry
      (by
        rw [if_neg fun h => hkey h.1] at hcount
        exact hcount.ge)
    split
    · exact sound_of_fresh_eq_zero rfl hsound.failures_lt
    · exact hsound

/-- Time only ends locks. -/
theorem sound_pass (hs : Sound key d) (hle : d.now ≤ now) : Sound key (d.pass key now) := by
  rw [SignIns.pass]
  split
  · exact sound_of_fresh_eq_zero rfl hs.failures_lt
  · next hkeep =>
    refine ⟨hs.counted, fun h => ?_, fun h => ?_, hs.failures_lt⟩
    · refine hs.lapsed ?_
      by_contra hnot
      exact hkeep ⟨Bool.eq_false_iff.mpr hnot, h⟩
    · exact hs.locked (decide_eq_true (lt_of_le_of_lt hle (of_decide_eq_true h)))

/-- **Step.** -/
theorem sound_step (hs : Sound key d) {l : SignInStep} (hfails : Fails key d l)
    (h : d.step key l = some d') : Sound key d' := by
  cases l with
  | enter request =>
    obtain rfl := Option.some_inj.mp h
    exact sound_enter hs _ fun h => by cases h
  | before i =>
    simp only [SignIns.step] at h
    split at h
    · next k _ window hi =>
      obtain rfl := Option.some_inj.mp h
      exact sound_before hs hi fun h => by cases h
    · cases h
  | verify i =>
    simp only [SignIns.step] at h
    split at h
    · next k metLock window hi =>
      obtain rfl := Option.some_inj.mp h
      exact sound_startVerify hs hi rfl
    · cases h
  | after i newSession =>
    simp only [SignIns.step] at h
    split at h
    · next k metLock window hi =>
      obtain rfl := Option.some_inj.mp h
      refine sound_finish hs hi fun hsuccess => ?_
      subst hsuccess
      exact hfails _ hi
    · next k metLock window hi =>
      obtain rfl := Option.some_inj.mp h
      exact sound_finish hs hi fun h => by cases h
    · next k metLock window hi =>
      obtain rfl := Option.some_inj.mp h
      exact sound_finish hs hi fun h => by cases h
    · cases h
  | wait now =>
    simp only [SignIns.step] at h
    split at h
    · next hle =>
      obtain rfl := Option.some_inj.mp h
      exact sound_pass hs hle
    · cases h

/-! ### The lock -/

/-- No verification was started by a request that had met a lock, and none is about to be. -/
structure Guarded (d : SignIns) : Prop where
  intruded : d.intruded = 0
  admitted : ∀ r ∈ d.requests, r.phase = .admitted → r.metLock = false

/-- A step that moves a request on without a verification. -/
theorem Guarded.of_set (hd : Guarded d) {i : ℕ} {r : SignIn}
    (hr : r.phase = .admitted → r.metLock = false) (hintruded : d'.intruded = d.intruded)
    (hrequests : d'.requests = d.requests.set i r) : Guarded d' := by
  refine ⟨hintruded.trans hd.intruded, fun r' hr' => ?_⟩
  rw [hrequests] at hr'
  rcases List.mem_or_eq_of_mem_set hr' with hr' | rfl
  · exact hd.admitted r' hr'
  · exact hr

/-- The hook lets nobody pass who meets a lock. -/
theorem metLock_of_beforeHook {k : Option String}
    (h : beforeHook d.lockoutStore k d.now = true) :
    decide (k = some key ∧ d.locked key = true) = false := by
  rw [decide_eq_false_iff_not]
  rintro ⟨rfl, hlocked⟩
  rw [beforeHook, Option.all_some] at h
  rw [SignIns.locked] at hlocked
  rw [hlocked] at h
  cases h

theorem guarded_finish (hd : Guarded d) (i : ℕ) (r : SignIn) (newSession : Bool) :
    Guarded (d.finish key i r newSession) := by
  rw [SignIns.finish]
  split
  · exact hd.of_set (r := { r with phase := .done }) (fun h => by cases h) rfl rfl
  · exact hd.of_set (r := { r with phase := .done }) (fun h => by cases h) rfl rfl

theorem guarded_step (hd : Guarded d) {l : SignInStep} (h : d.step key l = some d') :
    Guarded d' := by
  cases l with
  | enter request =>
    obtain rfl := Option.some_inj.mp h
    refine ⟨hd.intruded, fun r hr => ?_⟩
    rcases List.mem_append.mp hr with hr | hr
    · exact hd.admitted r hr
    · obtain rfl := List.mem_singleton.mp hr
      intro hphase
      cases hphase
  | before i =>
    simp only [SignIns.step] at h
    split at h
    · next k _ window hi =>
      obtain rfl := Option.some_inj.mp h
      -- a hook that runs while the key is locked rejects
      refine hd.of_set (fun hphase => ?_) rfl rfl
      have hphase : (if beforeHook d.lockoutStore k d.now then Phase.admitted
        else .rejected) = .admitted := hphase
      split at hphase
      · next hpasses => exact metLock_of_beforeHook hpasses
      · cases hphase
    · cases h
  | verify i =>
    simp only [SignIns.step] at h
    split at h
    · next k metLock window hi =>
      obtain rfl := Option.some_inj.mp h
      -- what is verified was admitted, and met no lock
      have hnone : metLock = false := hd.admitted _ (List.mem_of_getElem? hi) rfl
      subst hnone
      exact hd.of_set (r := ⟨k, .verifying, false, _⟩) (fun h => by cases h) rfl rfl
    · cases h
  | after i newSession =>
    simp only [SignIns.step] at h
    split at h
    · obtain rfl := Option.some_inj.mp h
      exact guarded_finish hd _ _ _
    · obtain rfl := Option.some_inj.mp h
      exact guarded_finish hd _ _ _
    · obtain rfl := Option.some_inj.mp h
      exact guarded_finish hd _ _ _
    · cases h
  | wait now =>
    simp only [SignIns.step] at h
    split at h
    · obtain rfl := Option.some_inj.mp h
      rw [SignIns.pass]
      split
      · exact ⟨hd.intruded, hd.admitted⟩
      · exact ⟨hd.intruded, hd.admitted⟩
    · cases h

/-- **Run.**  In every run in which no request for the key succeeds: of the verifications started
since its last lock ended, or its streak lapsed if that was later, all but those of them under way
number fewer than `LOCKOUT_THRESHOLD`; and none is started by a request that has met a lock. -/
theorem fresh_lt (h : Reach (SignIns.step key) (Fails key) (SignIns.init now) d) :
    d.fresh < LOCKOUT_THRESHOLD + d.underWay key ∧ d.intruded = 0 := by
  have hs : Sound key d := by
    refine h.invariant (sound_of_fresh_eq_zero rfl ?_) fun _ _ _ _ hs hfails hstep =>
      sound_step hs hfails hstep
    exact (by decide : 0 < LOCKOUT_THRESHOLD)
  have hd : Guarded d := by
    refine h.invariant ⟨rfl, fun r hr => ?_⟩ fun _ _ _ _ hd _ hstep => guarded_step hd hstep
    exact absurd hr List.not_mem_nil
  have hcounted := hs.counted
  have hlt := hs.failures_lt
  exact ⟨by omega, hd.intruded⟩

end

/-! ### Samples -/

namespace Sample

def guess : SignInRequest := ⟨some "a@b", none, none⟩

/-- The `i`-th request of a run, from its start to its failure. -/
def alone (i : ℕ) : List SignInStep := [.enter guess, .before i, .verify i, .after i false]

/-- Requests let in together, whose verifications have all started. -/
def together (n : ℕ) : List SignInStep :=
  List.replicate n (.enter guess) ++ (List.range n).map .before ++ (List.range n).map .verify

end Sample

open Sample

/-- Six let in together; and one that comes when five of them have failed, and is rejected. -/
theorem fresh_lt_together :
    (∃ d : SignIns, d.fresh = 6 ∧
      d.fresh < LOCKOUT_THRESHOLD + d.underWay "a@b|unknown" ∧ d.intruded = 0) ∧
    ∃ d : SignIns, (d.locked "a@b|unknown" = true ∧
        d.requests[6]?.map SignIn.phase = some .rejected) ∧
      d.fresh < LOCKOUT_THRESHOLD + d.underWay "a@b|unknown" ∧ d.intruded = 0 := by
  constructor
  · obtain ⟨d, hreach, hp⟩ := exists_reach_of_run (SignIns.step "a@b|unknown")
      (Fails "a@b|unknown") (SignIns.init 1000) (together 6) (fun d => d.fresh == 6)
      (by decide) (by decide)
    exact ⟨d, of_decide_eq_true hp, fresh_lt hreach⟩
  · obtain ⟨d, hreach, hp⟩ := exists_reach_of_run (SignIns.step "a@b|unknown")
      (Fails "a@b|unknown") (SignIns.init 1000)
      (together 6 ++ (List.range 5).map (.after · false) ++ [.enter guess, .before 6])
      (fun d : SignIns => decide (d.locked "a@b|unknown" = true ∧
        d.requests[6]?.map SignIn.phase = some .rejected)) (by decide) (by decide)
    exact ⟨d, of_decide_eq_true hp, fresh_lt hreach⟩

/-- **More get through**: one by one, when the streak lapses after four failures; in one instant,
when six requests pass the first hook before any of them fails. -/
theorem guesses_not_bounded :
    (∃ d, Reach (SignIns.step "a@b|unknown")
        (fun d l => Fails "a@b|unknown" d l ∧ OneByOne d l) (SignIns.init 1000) d ∧
      d.started = 6 ∧ LOCKOUT_THRESHOLD < d.started) ∧
    ∃ d, Reach (SignIns.step "a@b|unknown") (Fails "a@b|unknown") (SignIns.init 1000) d ∧
      d.now = 1000 ∧ LOCKOUT_THRESHOLD < d.started := by
  constructor
  · obtain ⟨d, hreach, hp⟩ := exists_reach_of_run (SignIns.step "a@b|unknown")
      (fun d l => Fails "a@b|unknown" d l ∧ OneByOne d l) (SignIns.init 1000)
      (alone 0 ++ alone 1 ++ alone 2 ++ alone 3 ++ [.wait 3601001] ++ alone 4 ++ alone 5)
      (fun d => d.started == 6) (by decide) (by decide)
    have hsix : d.started = 6 := of_decide_eq_true hp
    exact ⟨d, hreach, hsix, hsix ▸ by decide⟩
  · obtain ⟨d, hreach, hp⟩ := exists_reach_of_run (SignIns.step "a@b|unknown")
      (Fails "a@b|unknown") (SignIns.init 1000) (together 6)
      (fun d => d.now == 1000 && d.started == 6) (by decide) (by decide)
    rw [Bool.and_eq_true] at hp
    have hsix : d.started = 6 := of_decide_eq_true hp.2
    exact ⟨d, hreach, of_decide_eq_true hp.1, hsix ▸ by decide⟩

end Lockout
