/-
How long a failing sign-in is locked out (`packages/auth/src/lockout.ts`).

* `isLocked`, `recordFailure` — the state machine of one identifier;
* `Outcome`, `outcomes`, `durations` — what a run of failed attempts comes to: which of them count,
  and how long the locks last that they set;
* `NeverFallsBack` — the locks climb the ladder, one rung at a time, and stay at its end;
* `Ladder` — the machine without the decay, as a yardstick;
* `neverFallsBack_iff` — exactly when an attacker who keeps trying climbs the ladder: when the
  streak after each lock starts within the decay gap of the lock's *start*.
-/
import Mathlib.Data.List.Basic
import Mathlib.Order.Monotone.Basic

namespace Lockout

/-! ### The state machine -/

def LOCKOUT_THRESHOLD : ℕ := 5

/-- In milliseconds, like every time here. -/
def LOCKOUT_DURATIONS_MS : List ℕ := [60000, 5 * 60000, 15 * 60000, 60 * 60000]

def LOCKOUT_DECAY_MS : ℕ := 60 * 60000

structure LockoutState where
  failures : ℕ
  level : ℕ
  lockedUntil : ℕ
  lastFailureAt : ℕ
deriving DecidableEq

def initialLockoutState : LockoutState := ⟨0, 0, 0, 0⟩

def isLocked (state : LockoutState) (now : ℕ) : Bool := now < state.lockedUntil

def lockDurationForLevel (level : ℕ) : ℕ :=
  let index := min (max level 1) LOCKOUT_DURATIONS_MS.length - 1
  (LOCKOUT_DURATIONS_MS[index]?.or
    LOCKOUT_DURATIONS_MS[LOCKOUT_DURATIONS_MS.length - 1]?).getD 0

/-- Whether an idle gap has ended the streak; a time of zero stands for none. -/
def decays (state : LockoutState) (now : ℕ) : Bool :=
  state.lastFailureAt ≠ 0 ∧ LOCKOUT_DECAY_MS < now - state.lastFailureAt

/-- The first part of `recordFailure`: what is left of the counters. -/
def decayed (state : LockoutState) (now : ℕ) : ℕ × ℕ :=
  if decays state now then (0, 0) else (state.failures, state.level)

def recordFailure (state : LockoutState) (now : ℕ) : LockoutState :=
  if isLocked state now then state
  else
    let failures := (decayed state now).1 + 1
    if LOCKOUT_THRESHOLD ≤ failures then
      let level := (decayed state now).2 + 1
      ⟨0, level, now + lockDurationForLevel level, now⟩
    else ⟨failures, (decayed state now).2, 0, now⟩

def recordFailures (state : LockoutState) (times : List ℕ) : LockoutState :=
  times.foldl recordFailure state

theorem recordFailure_of_isLocked {s : LockoutState} {t : ℕ} (h : isLocked s t = true) :
    recordFailure s t = s := if_pos h

/-- The last rung is the cap. -/
theorem lockDurationForLevel_of_le {level : ℕ} (h : 4 ≤ level) :
    lockDurationForLevel level = 60 * 60000 := by
  have hindex : min (max level 1) LOCKOUT_DURATIONS_MS.length - 1 = 3 := by
    show min (max level 1) 4 - 1 = 3
    omega
  rw [lockDurationForLevel, hindex]
  rfl

/-- The rung of the `k`-th lock, counted from zero. -/
theorem rung_eq (k : ℕ) :
    LOCKOUT_DURATIONS_MS[min (k + 1) 4 - 1]? = some (lockDurationForLevel (k + 1)) := by
  match k with
  | 0 | 1 | 2 => rfl
  | k + 3 =>
    have hindex : min (k + 3 + 1) 4 - 1 = 3 := by omega
    rw [lockDurationForLevel_of_le (by omega), hindex]
    rfl

theorem lockDurationForLevel_mono : Monotone lockDurationForLevel := by
  refine monotone_nat_of_le_succ fun level => ?_
  match level with
  | 0 | 1 | 2 => decide
  | level + 3 =>
    rw [lockDurationForLevel_of_le (show 4 ≤ level + 3 + 1 by omega)]
    by_cases h : level = 0
    · subst h
      decide
    · exact (lockDurationForLevel_of_le (by omega)).le

/-- No later lock is shorter than a minute. -/
theorem lockDurationForLevel_pos (level : ℕ) : 0 < lockDurationForLevel level :=
  lt_of_lt_of_le (by decide) (lockDurationForLevel_mono (Nat.zero_le level))

/-- Only the first lock is that short. -/
theorem first_lt_lockDurationForLevel {level : ℕ} (h : 1 < level) :
    lockDurationForLevel 1 < lockDurationForLevel level :=
  lt_of_lt_of_le (by decide : lockDurationForLevel 1 < lockDurationForLevel 2)
    (lockDurationForLevel_mono h)

/-- An attempt that is not locked out, while the streak stands. -/
theorem recordFailure_of_not_decays {s : LockoutState} {t : ℕ} (hopen : isLocked s t = false)
    (hkept : decays s t = false) :
    recordFailure s t =
      if s.failures + 1 < LOCKOUT_THRESHOLD then ⟨s.failures + 1, s.level, 0, t⟩
      else ⟨0, s.level + 1, t + lockDurationForLevel (s.level + 1), t⟩ := by
  have hdecayed : decayed s t = (s.failures, s.level) := by simp [decayed, hkept]
  simp only [recordFailure, hopen, hdecayed, Bool.false_eq_true, if_false]
  by_cases h : s.failures + 1 < LOCKOUT_THRESHOLD
  · rw [if_neg (by omega), if_pos h]
  · rw [if_pos (by omega), if_neg h]

/-- One that finds the streak ended. -/
theorem recordFailure_of_decays {s : LockoutState} {t : ℕ} (hopen : isLocked s t = false)
    (hgone : decays s t = true) : recordFailure s t = ⟨1, 0, 0, t⟩ := by
  simp [recordFailure, hopen, decayed, hgone, LOCKOUT_THRESHOLD]

theorem lastFailureAt_recordFailure {s : LockoutState} {t : ℕ} (hopen : isLocked s t = false) :
    (recordFailure s t).lastFailureAt = t := by
  cases h : decays s t with
  | true => rw [recordFailure_of_decays hopen h]
  | false =>
    rw [recordFailure_of_not_decays hopen h]
    split <;> rfl

/-- A streak is always short of a lock. -/
theorem failures_recordFailure_lt {s : LockoutState} (h : s.failures < LOCKOUT_THRESHOLD)
    (t : ℕ) : (recordFailure s t).failures < LOCKOUT_THRESHOLD := by
  cases hopen : isLocked s t with
  | true => rwa [recordFailure_of_isLocked hopen]
  | false =>
    cases hgone : decays s t with
    | true =>
      rw [recordFailure_of_decays hopen hgone]
      exact (by decide : 1 < LOCKOUT_THRESHOLD)
    | false =>
      rw [recordFailure_of_not_decays hopen hgone]
      split
      · next hlt => exact hlt
      · exact (by decide : 0 < LOCKOUT_THRESHOLD)

/-! ### Runs of failed attempts -/

/-- What one attempt comes to. -/
inductive Outcome
  | ignored
  | counted
  | locks (duration : ℕ)
deriving DecidableEq

def Outcome.duration : Outcome → Option ℕ
  | .locks d => some d
  | _ => none

def outcome (s : LockoutState) (t : ℕ) : Outcome :=
  if isLocked s t then .ignored
  else if isLocked (recordFailure s t) t then .locks ((recordFailure s t).lockedUntil - t)
  else .counted

def outcomes : LockoutState → List ℕ → List Outcome
  | _, [] => []
  | s, t :: ts => outcome s t :: outcomes (recordFailure s t) ts

/-- How long the locks last that a run of attempts sets, in order. -/
def durations (s : LockoutState) (ts : List ℕ) : List ℕ :=
  (outcomes s ts).filterMap Outcome.duration

/-- Escalation over a run of attempts: lock after lock climbs the ladder and stays at its end, no
lock is shorter than the one before it, attempts during a lock change nothing, and the streak that
leads to a lock has no more than `LOCKOUT_THRESHOLD` failures. -/
structure NeverFallsBack (ts : List ℕ) : Prop where
  ladder : ∀ k d, (durations initialLockoutState ts)[k]? = some d →
    LOCKOUT_DURATIONS_MS[min (k + 1) 4 - 1]? = some d
  mono : (durations initialLockoutState ts).Pairwise (· ≤ ·)
  ignored : ∀ pre t post, ts = pre ++ t :: post →
    isLocked (recordFailures initialLockoutState pre) t = true →
    recordFailure (recordFailures initialLockoutState pre) t =
      recordFailures initialLockoutState pre
  streak : ∀ pre mid post, outcomes initialLockoutState ts = pre ++ mid ++ post →
    (∀ o ∈ mid, o.duration = none) → mid.count .counted + 1 ≤ LOCKOUT_THRESHOLD

/-- The attacker never rests longer than the decay gap: each failure that is not locked out comes
within it of the one before, or of the end of the lock that one set.  `due` is that instant. -/
def Persistent : Option ℕ → LockoutState → List ℕ → Prop
  | _, _, [] => True
  | due, s, t :: ts =>
    if isLocked s t then Persistent due s ts
    else (∀ d ∈ due, t ≤ d + LOCKOUT_DECAY_MS) ∧
      Persistent (some (max t (recordFailure s t).lockedUntil)) (recordFailure s t) ts

instance decidablePersistent : ∀ due s ts, Decidable (Persistent due s ts)
  | _, _, [] => inferInstanceAs (Decidable True)
  | due, s, t :: ts =>
    have := decidablePersistent due s ts
    have := decidablePersistent (some (max t (recordFailure s t).lockedUntil))
      (recordFailure s t) ts
    inferInstanceAs (Decidable (if isLocked s t then Persistent due s ts
      else (∀ d ∈ due, t ≤ d + LOCKOUT_DECAY_MS) ∧
        Persistent (some (max t (recordFailure s t).lockedUntil)) (recordFailure s t) ts))

/-! ### The ladder -/

/-- The same machine without the decay: the failures of the streak, the locks so far, and when the
last of them began and ends (zero when none stands). -/
structure Ladder where
  failures : ℕ
  locks : ℕ
  since : ℕ
  expiry : ℕ

def Ladder.fail (L : Ladder) (t : ℕ) : Ladder :=
  if L.failures + 1 < LOCKOUT_THRESHOLD then { L with failures := L.failures + 1, expiry := 0 }
  else ⟨0, L.locks + 1, t, t + lockDurationForLevel (L.locks + 1)⟩

/-- Of the attempts that follow the end of a lock, if they are enough for the next one, the first
comes within the decay gap of the lock's start. -/
def Prompt : Ladder → List ℕ → Prop
  | _, [] => True
  | L, t :: ts =>
    if t < L.expiry then Prompt L ts
    else (L.failures = 0 → L.locks ≠ 0 → LOCKOUT_THRESHOLD ≤ (t :: ts).length →
        L.since = 0 ∨ t ≤ L.since + LOCKOUT_DECAY_MS) ∧ Prompt (L.fail t) ts

instance decidablePrompt : ∀ L ts, Decidable (Prompt L ts)
  | _, [] => inferInstanceAs (Decidable True)
  | L, t :: ts =>
    have := decidablePrompt L ts
    have := decidablePrompt (L.fail t) ts
    inferInstanceAs (Decidable (if t < L.expiry then Prompt L ts
      else (L.failures = 0 → L.locks ≠ 0 → LOCKOUT_THRESHOLD ≤ (t :: ts).length →
        L.since = 0 ∨ t ≤ L.since + LOCKOUT_DECAY_MS) ∧ Prompt (L.fail t) ts))

variable {due : Option ℕ} {s : LockoutState} {t : ℕ} {ts : List ℕ}

/-! ### One attempt -/

theorem outcome_of_isLocked (h : isLocked s t = true) : outcome s t = .ignored := if_pos h

theorem durations_cons : durations s (t :: ts) =
    (outcome s t).duration.toList ++ durations (recordFailure s t) ts := by
  rw [durations, outcomes, List.filterMap_cons, durations]
  cases (outcome s t).duration <;> rfl

/-- An attempt that sets no lock. -/
theorem outcome_of_counted {failures level : ℕ} (hopen : isLocked s t = false)
    (h : recordFailure s t = ⟨failures, level, 0, t⟩) : outcome s t = .counted := by
  rw [outcome, if_neg (by simp [hopen]), h, if_neg (by simp [isLocked])]

/-- One that does. -/
theorem outcome_of_locks {level : ℕ} (hopen : isLocked s t = false)
    (h : recordFailure s t = ⟨0, level, t + lockDurationForLevel level, t⟩) :
    outcome s t = .locks (lockDurationForLevel level) := by
  have hlocked : isLocked (recordFailure s t) t = true := by
    simp [h, isLocked, lockDurationForLevel_pos]
  rw [outcome, if_neg (by simp [hopen]), if_pos hlocked, h, Nat.add_sub_cancel_left]

/-- A streak that stands is short of a lock, and the next failure is due from its last one. -/
structure Live (due : Option ℕ) (s : LockoutState) : Prop where
  failures_lt : s.failures < LOCKOUT_THRESHOLD
  due_eq : 0 < s.failures → due = some s.lastFailureAt

theorem live_initial : Live none initialLockoutState where
  failures_lt := by decide
  due_eq h := absurd h (by decide)

/-- A persistent attacker's streak does not end by itself. -/
theorem Live.not_decays (hlive : Live due s) (hdue : ∀ d ∈ due, t ≤ d + LOCKOUT_DECAY_MS)
    (hstreak : 0 < s.failures) : decays s t = false := by
  have h := hdue _ (hlive.due_eq hstreak)
  simp only [decays, decide_eq_false_iff_not]
  omega

/-- **What an attempt does to the streak**: nothing, one failure more, or a lock and a new
start. -/
theorem Live.outcome_cases (hlive : Live due s) (hopen : isLocked s t = false)
    (hdue : ∀ d ∈ due, t ≤ d + LOCKOUT_DECAY_MS) :
    (outcome s t = .counted ∧ (recordFailure s t).lockedUntil = 0 ∧
      (recordFailure s t).failures = s.failures + 1 ∧ (recordFailure s t).lastFailureAt = t ∧
      s.failures + 1 < LOCKOUT_THRESHOLD) ∨
    ((outcome s t).duration ≠ none ∧ (recordFailure s t).failures = 0) := by
  by_cases hgone : decays s t = true
  · -- only the first failure after a lock can come that late
    have hzero : s.failures = 0 := by
      by_contra hne
      rw [hlive.not_decays hdue (by omega)] at hgone
      cases hgone
    have h := recordFailure_of_decays hopen hgone
    refine Or.inl ⟨outcome_of_counted hopen h, ?_⟩
    simp [h, hzero, LOCKOUT_THRESHOLD]
  · have h := recordFailure_of_not_decays hopen (by simpa using hgone)
    by_cases hlt : s.failures + 1 < LOCKOUT_THRESHOLD
    · rw [if_pos hlt] at h
      refine Or.inl ⟨outcome_of_counted hopen h, ?_⟩
      simp [h, hlt]
    · rw [if_neg hlt] at h
      refine Or.inr ⟨?_, by rw [h]⟩
      rw [outcome_of_locks hopen h]
      simp [Outcome.duration]

/-- The instant the next failure is due from, after an attempt. -/
def dueAfter (due : Option ℕ) (s : LockoutState) (t : ℕ) : Option ℕ :=
  if isLocked s t then due else some (max t (recordFailure s t).lockedUntil)

theorem Persistent.tail (h : Persistent due s (t :: ts)) :
    Persistent (dueAfter due s t) (recordFailure s t) ts := by
  rw [Persistent] at h
  by_cases hlocked : isLocked s t = true
  · rw [if_pos hlocked] at h
    rw [dueAfter, if_pos hlocked, recordFailure_of_isLocked hlocked]
    exact h
  · rw [if_neg hlocked] at h
    rw [dueAfter, if_neg hlocked]
    exact h.2

theorem Persistent.head (h : Persistent due s (t :: ts)) (hopen : isLocked s t = false) :
    ∀ d ∈ due, t ≤ d + LOCKOUT_DECAY_MS := by
  rw [Persistent, if_neg (by simp [hopen])] at h
  exact h.1

theorem Live.step (hlive : Live due s) (h : Persistent due s (t :: ts)) :
    Live (dueAfter due s t) (recordFailure s t) := by
  cases hopen : isLocked s t with
  | true => rwa [dueAfter, if_pos hopen, recordFailure_of_isLocked hopen]
  | false =>
    rw [dueAfter, if_neg (by simp [hopen])]
    obtain ⟨-, hnone, hmore, hlast, hlt⟩ | ⟨-, hzero⟩ := hlive.outcome_cases hopen (h.head hopen)
    · refine ⟨by omega, fun _ => ?_⟩
      rw [hnone, hlast, Nat.max_eq_left (Nat.zero_le t)]
    · exact ⟨by rw [hzero]; decide, fun hpos => by omega⟩

/-! ### Streaks -/

/-- A streak without a lock, from its start. -/
theorem Live.count_lt (hlive : Live due s) (h : Persistent due s ts) {mid post : List Outcome}
    (heq : outcomes s ts = mid ++ post) (hmid : ∀ o ∈ mid, o.duration = none) :
    mid.count .counted + s.failures < LOCKOUT_THRESHOLD := by
  induction ts generalizing due s mid with
  | nil =>
    obtain ⟨rfl, -⟩ := List.append_eq_nil_iff.mp heq.symm
    simpa using hlive.failures_lt
  | cons t ts ih =>
    cases mid with
    | nil => simpa using hlive.failures_lt
    | cons o mid =>
      rw [outcomes, List.cons_append, List.cons.injEq] at heq
      obtain ⟨rfl, heq⟩ := heq
      have hrest := ih (hlive.step h) h.tail heq fun o ho => hmid o (List.mem_cons_of_mem _ ho)
      cases hopen : isLocked s t with
      | true =>
        rw [recordFailure_of_isLocked hopen] at hrest
        rwa [outcome_of_isLocked hopen, List.count_cons_of_ne (by decide)]
      | false =>
        obtain ⟨hcounted, -, hmore, -⟩ | ⟨hlocks, -⟩ :=
          hlive.outcome_cases hopen (h.head hopen)
        · rw [hcounted, List.count_cons_self]
          omega
        · exact absurd (hmid _ List.mem_cons_self) hlocks

/-- From anywhere. -/
theorem Live.count_lt_of_infix (hlive : Live due s) (h : Persistent due s ts)
    {pre mid post : List Outcome} (heq : outcomes s ts = pre ++ mid ++ post)
    (hmid : ∀ o ∈ mid, o.duration = none) : mid.count .counted < LOCKOUT_THRESHOLD := by
  induction pre generalizing due s ts with
  | nil => exact lt_of_le_of_lt (Nat.le_add_right _ _) (hlive.count_lt h heq hmid)
  | cons o pre ih =>
    cases ts with
    | nil => cases heq
    | cons t ts =>
      rw [outcomes, List.cons_append, List.cons_append, List.cons.injEq] at heq
      exact ih (hlive.step h) h.tail heq.2

/-- An open streak sets its lock when it has its failures, whatever the times. -/
theorem Live.head_durations (hlive : Live due s) (h : Persistent due s ts)
    (hopen : s.lockedUntil = 0) (hstreak : 0 < s.failures) :
    (durations s ts).head? =
      if s.failures + ts.length < LOCKOUT_THRESHOLD then none
      else some (lockDurationForLevel (s.level + 1)) := by
  induction ts generalizing due s with
  | nil =>
    rw [if_pos (by simpa using hlive.failures_lt)]
    rfl
  | cons t ts ih =>
    have hnot : isLocked s t = false := by simp [isLocked, hopen]
    have hkept := hlive.not_decays (h.head hnot) hstreak
    have hnext := recordFailure_of_not_decays hnot hkept
    rw [durations_cons, List.length_cons]
    by_cases hlt : s.failures + 1 < LOCKOUT_THRESHOLD
    · rw [if_pos hlt] at hnext
      have hrest := ih (hlive.step h) h.tail (by rw [hnext])
        (by rw [hnext]; exact Nat.succ_pos _)
      rw [outcome_of_counted hnot hnext]
      show (durations (recordFailure s t) ts).head? = _
      rw [hrest, hnext]
      simp only [Nat.add_assoc, Nat.add_comm 1]
    · rw [if_neg hlt] at hnext
      rw [outcome_of_locks hnot hnext, if_neg (by omega)]
      rfl

/-! ### The code and the ladder -/

/-- The locks from the `k`-th on last as long as their rungs say. -/
def Follows (k : ℕ) (ds : List ℕ) : Prop :=
  ∀ i d, ds[i]? = some d → d = lockDurationForLevel (k + i + 1)

theorem follows_nil (k : ℕ) : Follows k [] := by
  intro i d h
  simp at h

theorem follows_cons {k d : ℕ} {ds : List ℕ} :
    Follows k (d :: ds) ↔ d = lockDurationForLevel (k + 1) ∧ Follows (k + 1) ds := by
  constructor
  · intro h
    refine ⟨h 0 d rfl, fun i d' hi => ?_⟩
    rw [h (i + 1) d' hi]
    congr 1
    omega
  · rintro ⟨rfl, h⟩ i d' hi
    cases i with
    | zero => exact (Option.some.inj hi).symm
    | succ i =>
      rw [h i d' hi]
      congr 1
      omega

/-- The code's state where it has kept to the ladder so far. -/
inductive Synced : Option ℕ → LockoutState → Ladder → Prop
  | fresh : Synced none initialLockoutState ⟨0, 0, 0, 0⟩
  | streak {failures locks since t : ℕ} (hpos : 0 < failures)
      (hlt : failures < LOCKOUT_THRESHOLD) :
      Synced (some t) ⟨failures, locks, 0, t⟩ ⟨failures, locks, since, 0⟩
  | lock {locks t : ℕ} :
      Synced (some (t + lockDurationForLevel (locks + 1)))
        ⟨0, locks + 1, t + lockDurationForLevel (locks + 1), t⟩
        ⟨0, locks + 1, t, t + lockDurationForLevel (locks + 1)⟩

variable {L : Ladder}

theorem Synced.live (h : Synced due s L) : Live due s := by
  cases h with
  | fresh => exact live_initial
  | streak hpos hlt => exact ⟨hlt, fun _ => rfl⟩
  | lock => exact ⟨show 0 < LOCKOUT_THRESHOLD by decide, fun hpos => absurd hpos (Nat.lt_irrefl 0)⟩

theorem Synced.failures_eq (h : Synced due s L) : s.failures = L.failures := by cases h <;> rfl

theorem Synced.level_eq (h : Synced due s L) : s.level = L.locks := by cases h <;> rfl

theorem Synced.lockedUntil_eq (h : Synced due s L) : s.lockedUntil = L.expiry := by
  cases h <;> rfl

/-- After a lock the decay is measured from its start. -/
theorem Synced.decays_iff (h : Synced due s L) (hdue : ∀ d ∈ due, t ≤ d + LOCKOUT_DECAY_MS) :
    decays s t = false ↔
      (L.failures = 0 → L.locks ≠ 0 → L.since = 0 ∨ t ≤ L.since + LOCKOUT_DECAY_MS) := by
  cases h with
  | fresh => simp [decays, initialLockoutState]
  | @streak _ _ _ last hpos hlt =>
    have hin := hdue last rfl
    refine iff_of_true ?_ fun hzero => absurd hzero (Nat.ne_of_gt hpos)
    simp only [decays, decide_eq_false_iff_not]
    omega
  | @lock locks since =>
    have hiff : decays ⟨0, locks + 1, since + lockDurationForLevel (locks + 1), since⟩ t = false ↔
        since = 0 ∨ t ≤ since + LOCKOUT_DECAY_MS := by
      simp only [decays, decide_eq_false_iff_not]
      omega
    rw [hiff]
    exact ⟨fun hin _ _ => hin, fun hin => hin rfl (Nat.succ_ne_zero _)⟩

/-- An attempt that meets no decay keeps to the ladder. -/
theorem Synced.fail (h : Synced due s L) (hopen : isLocked s t = false)
    (hkept : decays s t = false) : Synced (dueAfter due s t) (recordFailure s t) (L.fail t) := by
  have hnext := recordFailure_of_not_decays hopen hkept
  rw [dueAfter, if_neg (by simp [hopen]), hnext, Ladder.fail, h.failures_eq, h.level_eq]
  by_cases hlt : L.failures + 1 < LOCKOUT_THRESHOLD
  · rw [if_pos hlt, if_pos hlt, Nat.max_eq_left (Nat.zero_le t)]
    exact .streak (Nat.succ_pos _) hlt
  · rw [if_neg hlt, if_neg hlt, Nat.max_eq_right (Nat.le_add_right _ _)]
    exact .lock

/-- And sets the lock of its rung, if any. -/
theorem Synced.follows_iff (h : Synced due s L) (hopen : isLocked s t = false)
    (hkept : decays s t = false) :
    Follows L.locks (durations s (t :: ts)) ↔
      Follows (L.fail t).locks (durations (recordFailure s t) ts) := by
  have hnext := recordFailure_of_not_decays hopen hkept
  rw [h.failures_eq, h.level_eq] at hnext
  rw [durations_cons, Ladder.fail]
  by_cases hlt : L.failures + 1 < LOCKOUT_THRESHOLD
  · rw [if_pos hlt] at hnext
    rw [if_pos hlt, outcome_of_counted hopen hnext]
    rfl
  · rw [if_neg hlt] at hnext
    rw [if_neg hlt, outcome_of_locks hopen hnext]
    exact follows_cons.trans (and_iff_right rfl)

/-- Where nothing follows that could set a lock, nothing is asked. -/
theorem prompt_of_short {L : Ladder} (hpos : 0 < L.failures) (hopen : L.expiry = 0)
    (hshort : L.failures + ts.length < LOCKOUT_THRESHOLD) : Prompt L ts := by
  induction ts generalizing L with
  | nil => trivial
  | cons t ts ih =>
    rw [List.length_cons] at hshort
    have hfail : L.fail t = { L with failures := L.failures + 1, expiry := 0 } :=
      if_pos (by omega)
    rw [Prompt, if_neg (by omega), hfail]
    exact ⟨fun hzero => by omega, ih (Nat.succ_pos _) rfl (by simp only; omega)⟩

/-- **An attempt that meets the decay falls off the ladder**: the next lock, if there is one, is a
first one again. -/
theorem Synced.off_iff (h : Synced due s L) (hpersist : Persistent due s (t :: ts))
    (hopen : isLocked s t = false) (hgone : decays s t = true) :
    Follows L.locks (durations s (t :: ts)) ↔ (t :: ts).length < LOCKOUT_THRESHOLD := by
  have hnext := recordFailure_of_decays hopen hgone
  have hdue := hpersist.head hopen
  have hlocks : L.locks ≠ 0 := by
    intro hzero
    have hfalse := (h.decays_iff hdue).mpr fun _ hne => absurd hzero hne
    rw [hfalse] at hgone
    cases hgone
  have hhead := (h.live.step hpersist).head_durations hpersist.tail (by rw [hnext])
    (by rw [hnext]; exact Nat.one_pos)
  have hds : durations s (t :: ts) = durations (recordFailure s t) ts := by
    rw [durations_cons, outcome_of_counted hopen hnext]
    rfl
  rw [hds, List.length_cons, Nat.add_comm ts.length]
  simp only [hnext] at hhead ⊢
  by_cases hlt : 1 + ts.length < LOCKOUT_THRESHOLD
  · rw [if_pos hlt, List.head?_eq_none_iff] at hhead
    rw [hhead]
    exact iff_of_true (follows_nil _) hlt
  · rw [if_neg hlt] at hhead
    refine iff_of_false (fun hfollows => ?_) hlt
    have hfirst : lockDurationForLevel 1 = lockDurationForLevel (L.locks + 0 + 1) :=
      hfollows 0 _ (List.head?_eq_getElem? ▸ hhead)
    have hless := first_lt_lockDurationForLevel (show 1 < L.locks + 0 + 1 by omega)
    omega

/-- **The ladder is climbed exactly when the attempts are prompt.** -/
theorem Synced.follows_durations_iff (h : Synced due s L) (hpersist : Persistent due s ts) :
    Follows L.locks (durations s ts) ↔ Prompt L ts := by
  induction ts generalizing due s L with
  | nil => exact iff_of_true (follows_nil _) trivial
  | cons t ts ih =>
    rw [Prompt]
    cases hopen : isLocked s t with
    | true =>
      have htail := hpersist.tail
      rw [dueAfter, if_pos hopen, recordFailure_of_isLocked hopen] at htail
      have hlt : t < L.expiry := h.lockedUntil_eq ▸ of_decide_eq_true hopen
      rw [if_pos hlt, durations_cons, outcome_of_isLocked hopen, recordFailure_of_isLocked hopen]
      exact ih h htail
    | false =>
      have hdue := hpersist.head hopen
      have hge : ¬ t < L.expiry := h.lockedUntil_eq ▸ of_decide_eq_false hopen
      rw [if_neg hge]
      cases hkept : decays s t with
      | false =>
        have hin := (h.decays_iff hdue).mp hkept
        rw [h.follows_iff hopen hkept, ih (h.fail hopen hkept) hpersist.tail]
        exact (and_iff_right fun hzero hne _ => hin hzero hne).symm
      | true =>
        have hout : ¬ (L.failures = 0 → L.locks ≠ 0 →
            L.since = 0 ∨ t ≤ L.since + LOCKOUT_DECAY_MS) := by
          intro hin
          rw [(h.decays_iff hdue).mpr hin] at hkept
          cases hkept
        have hzero : L.failures = 0 := by
          by_contra hne
          exact hout fun hzero => absurd hzero hne
        rw [h.off_iff hpersist hopen hkept]
        constructor
        · intro hshort
          have hfail : L.fail t = { L with failures := L.failures + 1, expiry := 0 } :=
            if_pos (by rw [hzero]; decide)
          refine ⟨fun _ _ hlong => absurd hshort (Nat.not_lt.mpr hlong), ?_⟩
          rw [hfail]
          refine prompt_of_short (Nat.succ_pos _) rfl ?_
          rw [List.length_cons] at hshort
          simp only [hzero]
          omega
        · rintro ⟨hprompt, -⟩
          by_contra hlong
          exact hout fun hf hl => hprompt hf hl (Nat.not_lt.mp hlong)

theorem follows_zero_iff {ds : List ℕ} : Follows 0 ds ↔
    ∀ k d, ds[k]? = some d → LOCKOUT_DURATIONS_MS[min (k + 1) 4 - 1]? = some d := by
  have hrung : ∀ k d, d = lockDurationForLevel (0 + k + 1) ↔
      LOCKOUT_DURATIONS_MS[min (k + 1) 4 - 1]? = some d := by
    intro k d
    rw [rung_eq, Option.some.injEq, Nat.zero_add, eq_comm]
  exact forall_congr' fun k => forall_congr' fun d => imp_congr_right fun _ => hrung k d

theorem Follows.pairwise {k : ℕ} {ds : List ℕ} (h : Follows k ds) : ds.Pairwise (· ≤ ·) := by
  rw [List.pairwise_iff_getElem]
  intro i j hi hj hlt
  rw [h i _ (List.getElem?_eq_getElem hi), h j _ (List.getElem?_eq_getElem hj)]
  exact lockDurationForLevel_mono (by omega)

/-- **When escalation never falls back.**  Against an attacker who keeps trying, the locks climb
the ladder exactly when each streak after a lock that is long enough for another lock starts within
`LOCKOUT_DECAY_MS` of the lock's start: at the last rung, in the instant the lock ends. -/
theorem neverFallsBack_iff {ts : List ℕ} (hpersist : Persistent none initialLockoutState ts) :
    NeverFallsBack ts ↔ Prompt ⟨0, 0, 0, 0⟩ ts := by
  rw [← Synced.fresh.follows_durations_iff hpersist]
  constructor
  · intro h
    exact follows_zero_iff.mpr h.ladder
  · intro h
    exact {
      ladder := follows_zero_iff.mp h
      mono := h.pairwise
      ignored := fun _ _ _ _ hlocked => recordFailure_of_isLocked hlocked
      streak := fun _ _ _ heq hmid => live_initial.count_lt_of_infix hpersist heq hmid }

/-- Four streaks, each in the instant the last lock ends, and an attempt during the last lock; the
fifth streak comes one millisecond after it. -/
def lateByOne : List ℕ :=
  List.replicate 5 1000 ++ List.replicate 5 61000 ++ List.replicate 5 361000 ++
    List.replicate 5 1261000 ++ [3000000] ++ List.replicate 5 4861001

/-- The same with a fifth streak that is on time. -/
def onTime : List ℕ :=
  List.replicate 5 1000 ++ List.replicate 5 61000 ++ List.replicate 5 361000 ++
    List.replicate 5 1261000 ++ [3000000] ++ List.replicate 5 4861000

theorem neverFallsBack_onTime : NeverFallsBack onTime :=
  (neverFallsBack_iff (by decide)).mpr (by decide)

/-- **One millisecond after an hour's lock the ladder starts again**: the fifth lock lasts a
minute. -/
theorem fallsBack_lateByOne : lateByOne.Pairwise (· ≤ ·) ∧
    Persistent none initialLockoutState lateByOne ∧
    durations initialLockoutState lateByOne = [60000, 300000, 900000, 3600000, 60000] ∧
    ¬ NeverFallsBack lateByOne := by
  have hds : durations initialLockoutState lateByOne =
      [60000, 300000, 900000, 3600000, 60000] := by decide
  refine ⟨by decide, by decide, hds, fun h => ?_⟩
  have hmono := h.mono
  rw [hds] at hmono
  revert hmono
  decide

end Lockout
