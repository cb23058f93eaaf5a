/-
Penalties and waiting on a key (`penalize` and `acquire` of
`packages/providers/src/opensea/rate-limiter.ts`).

* `grants_of_penalty` — after a penalty no grant comes before its end, whatever else happens: so a
  later penalty does not shorten it;
* `place`, `Served`, `Timers` — a caller asleep in `acquire` is followed through a run that never
  ends; its timer fires again and again;
* `served_of_quiet` — once penalties and new callers stop, every caller asleep is served;
* `penalised_left_alone` — both; `crowded_out` — while new callers come, one may sleep for ever.
-/
import HoodMint.RateLimiter

namespace RateLimiter

open TokenBucket Transition

namespace Limiter

variable {perMinute : ℕ} {s s' s'' : Limiter} {key key' : String} {now t : ℤ} {i j : ℕ}

theorem available_of_some {bucket : Bucket} (hkey : s.buckets key = some bucket)
    (hcapacity : bucket.capacity = perMinute) :
    s.available perMinute key t = (bucket.refill t).tokens := by
  rw [available, bucketFor, hkey]
  show ((if bucket.capacity ≠ perMinute then _ else _ : Bucket).refill t).tokens = _
  rw [if_neg (not_not.mpr hcapacity)]

/-! ### After a penalty -/

/-- Nothing is available of a key before its penalty ends, and then only what flows in. -/
structure Penalised (perMinute : ℕ) (s₀ s : Limiter) (key : String) (deadline : ℚ) : Prop where
  sound : s.buckets.Sound perMinute s.clock
  available : ∀ t, s.clock ≤ t → s.available perMinute key t ≤ (t - deadline) * perMs perMinute
  grants : ∃ new, s.grants = new ++ s₀.grants ∧ ∀ g ∈ new, g.key = key → deadline < g.time

theorem perMs_pos (hp : 0 < perMinute) : 0 < perMs perMinute :=
  div_pos (by exact_mod_cast hp) (by norm_num)

theorem Penalised.step {s₀ : Limiter} {deadline : ℚ} {l : Step} (hp : 0 < perMinute)
    (hs : Penalised perMinute s₀ s key deadline) (h : s.step perMinute l = some s') :
    Penalised perMinute s₀ s' key deadline := by
  obtain ⟨hclock, hclock', hsound, hmoves⟩ := step_moves hp hs.sound h key
  have hrate := perMs_pos hp
  have hnow := hs.available l.now hclock
  obtain ⟨new, hgrants₀, hnew⟩ := hs.grants
  refine ⟨hclock' ▸ hsound, fun t ht => ?_, ?_⟩
  · have hlater := hmoves.available t (hclock' ▸ ht)
    have hmore : (s.taken key : ℚ) ≤ s'.taken key := by
      rcases hmoves.grants with hgrants | ⟨key', hgrants, -⟩
      · rw [taken, taken, hgrants]
      · rw [taken_of_cons hgrants]
        push_cast
        split <;> simp
    linarith
  · rcases hmoves.grants with hgrants | ⟨key', hgrants, htoken⟩
    · exact ⟨new, hgrants.trans hgrants₀, hnew⟩
    · refine ⟨⟨key', l.now⟩ :: new, ?_, List.forall_mem_cons.mpr ⟨fun heq => ?_, hnew⟩⟩
      · rw [hgrants, hgrants₀]
        rfl
      · -- there was a token, so the penalty had ended
        have hone := htoken heq
        by_contra hbefore
        have hneg : ((l.now : ℚ) - deadline) * perMs perMinute ≤ 0 :=
          mul_nonpos_of_nonpos_of_nonneg (by simpa using hbefore) hrate.le
        linarith

/-- **A penalised key is left alone** until the penalty ends, whatever happens meanwhile. -/
theorem grants_of_penalty (hp : 0 < perMinute) {clock : ℤ} {retryAfterSeconds : ℚ}
    (hreach : Reachable (Limiter.step perMinute) (init clock) s)
    (hpenalty : s.step perMinute (.penalize key retryAfterSeconds now) = some s')
    (hlater : Reachable (Limiter.step perMinute) s' s'') :
    ∃ new, s''.grants = new ++ s'.grants ∧
      ∀ g ∈ new, g.key = key → now + 1000 * retryAfterSeconds < g.time := by
  have hsound := sound_of_reach hp hreach
  obtain ⟨hclock, hclock', hsound', -⟩ := step_moves hp hsound hpenalty key
  have hstart : Penalised perMinute s' s' key (now + 1000 * retryAfterSeconds) := by
    refine ⟨hclock' ▸ hsound', fun t ht => ?_, [], rfl, fun g hg => absurd hg List.not_mem_nil⟩
    rw [step.eq_def, if_neg (not_lt.mpr hclock)] at hpenalty
    obtain rfl := Option.some_inj.mp hpenalty
    have hs : s.buckets.Sound perMinute now := fun k b hb => (hsound k b hb).mono hclock
    have hbucket := @Bucket.Sound.penalized _ _ _ retryAfterSeconds
      (@bucketFor_sound perMinute s.buckets key now hs)
    have hle : now ≤ t := ht
    rw [available_of_some (Function.update_self key _ _) hbucket.capacity,
      (hbucket.mono hle).refill_tokens]
    refine level_le_add.trans ?_
    show min _ (-retryAfterSeconds * 1000 * (bucketFor s.buckets key perMinute now).refillPerMs) +
      (t - now) * perMs perMinute ≤ _
    rw [(@bucketFor_sound perMinute s.buckets key now hs).refillPerMs]
    have hmin := min_le_right (bucketFor s.buckets key perMinute now).tokens
      (-retryAfterSeconds * 1000 * perMs perMinute)
    have hexpand : ((t : ℚ) - (now + 1000 * retryAfterSeconds)) * perMs perMinute =
        -retryAfterSeconds * 1000 * perMs perMinute + (t - now) * perMs perMinute := by ring
    rw [hexpand]
    linarith
  exact (hlater.invariant (I := fun s => Penalised perMinute s' s key _) hstart
    fun _ _ _ _ hs _ hstep => hs.step hp hstep).grants

/-! ### A caller asleep -/

/-- The callers asleep on a key. -/
def waiting (s : Limiter) (key : String) : ℕ := s.sleepers.count key

/-- A step has granted a token. -/
def granted (s s' : Limiter) : Bool := s.grants.length < s'.grants.length

/-- Where a caller asleep is after a step, unless it has been served: one that wakes up in vain
sleeps behind the others. -/
def place (s s' : Limiter) (l : Step) (i : ℕ) : Option ℕ :=
  match l with
  | .wake j _ =>
    if j = i then if granted s s' then none else some (s.sleepers.length - 1)
    else some (if j < i then i - 1 else i)
  | _ => some i

/-- Neither a penalty nor a new caller on the key. -/
def Quiet (key : String) : Step → Prop
  | .acquire key' _ => key' ≠ key
  | .penalize key' _ _ => key' ≠ key
  | _ => True

/-- A bucket that is refilled holds the same later. -/
theorem available_refill (hs : s.buckets.Sound perMinute now)
    (hkey : s'.buckets key = some ((bucketFor s.buckets key perMinute now).refill now))
    (hle : now ≤ t) : s'.available perMinute key t = s.available perMinute key t := by
  have hrate := perMs_nonneg perMinute
  have hmore : (0 : ℚ) ≤ t - now := sub_nonneg.mpr (by exact_mod_cast hle)
  have hsound := @bucketFor_sound perMinute s.buckets key now hs
  rw [available_of_some hkey hsound.refill.capacity, (hsound.refill.mono hle).refill_tokens,
    hsound.refill_tokens]
  show level _ _ _ ((t : ℚ) - now) = _
  rw [level_level hrate hmore]
  cases hbucket : s.buckets key with
  | some bucket =>
    have hbucket' := hs key bucket hbucket
    rw [bucketFor_of_some hs hbucket, available_of_some hbucket hbucket'.capacity,
      (hbucket'.mono hle).refill_tokens]
    congr 1
    ring
  | none =>
    -- a bucket that has not been made is full, and stays so
    have hfull : s.available perMinute key t = perMinute := by
      rw [available, bucketFor, hbucket, (Bucket.Sound.fresh perMinute t).refill_self rfl]
      rfl
    rw [hfull, bucketFor, hbucket]
    refine level_eq_capacity ?_
    show (perMinute : ℚ) ≤ perMinute + ((now : ℚ) - now + (t - now)) * perMs perMinute
    have := mul_nonneg hmore hrate
    rw [sub_self, zero_add]
    linarith

theorem available_of_same_bucket (hkey : s'.buckets key = s.buckets key) :
    s'.available perMinute key t = s.available perMinute key t := by
  rw [available, available, bucketFor, bucketFor, hkey]

/-- **What a step does**, by its label. -/
theorem step_spec {l : Step} (h : s.step perMinute l = some s') : s.clock ≤ l.now ∧
    match l with
    | .acquire key now => s' = s.turn key { bucketFor s.buckets key perMinute now with
        waiters := (bucketFor s.buckets key perMinute now).waiters + 1 } s.sleepers now
    | .wake i now => ∃ key bucket, s.sleepers[i]? = some key ∧ s.buckets key = some bucket ∧
        s' = s.turn key bucket (s.sleepers.eraseIdx i) now
    | .penalize key retryAfterSeconds now => s' = { s with
        buckets := Function.update s.buckets key
          (some ((bucketFor s.buckets key perMinute now).penalized now retryAfterSeconds))
        clock := now }
    | .pickKey keys now => s' = { s with
        buckets := (RateLimiter.pickKey s.buckets keys perMinute now).buckets
        clock := now } := by
  rw [step.eq_def] at h
  split at h
  · cases h
  · next hclock =>
    refine ⟨not_lt.mp hclock, ?_⟩
    cases l with
    | acquire key now => exact (Option.some_inj.mp h).symm
    | wake i now =>
      obtain ⟨key, hkey, h⟩ := Option.bind_eq_some_iff.mp h
      obtain ⟨bucket, hbucket, h⟩ := Option.map_eq_some_iff.mp h
      exact ⟨key, bucket, hkey, hbucket, h.symm⟩
    | penalize key retryAfterSeconds now => exact (Option.some_inj.mp h).symm
    | pickKey keys now => exact (Option.some_inj.mp h).symm

/-- **It is served** when there is a token, and else sleeps behind the others. -/
theorem wake_cases (hp : 0 < perMinute) (hs : s.buckets.Sound perMinute s.clock)
    (hkey : s.sleepers[i]? = some key) (h : s.step perMinute (.wake i now) = some s') :
    (1 ≤ s.available perMinute key now ∧ s'.grants = ⟨key, now⟩ :: s.grants ∧
      s'.sleepers = s.sleepers.eraseIdx i) ∨
    (¬1 ≤ s.available perMinute key now ∧ s'.grants = s.grants ∧
      s'.sleepers = s.sleepers.eraseIdx i ++ [key] ∧
      ∀ t, now ≤ t → s'.available perMinute key t = s.available perMinute key t) := by
  obtain ⟨hclock, key', bucket, hkey', hbucket, rfl⟩ := step_spec h
  obtain rfl := Option.some_inj.mp (hkey'.symm.trans hkey)
  have hs' : s.buckets.Sound perMinute now := fun k b hb => (hs k b hb).mono hclock
  have hsound := hs' key' bucket hbucket
  have htokens : s.available perMinute key' now = (bucket.refill now).tokens :=
    available_of_some hbucket hsound.capacity
  rw [htokens]
  by_cases htoken : 1 ≤ (bucket.refill now).tokens
  · obtain ⟨left, -, -, -, hturn⟩ :=
      @turn_of_token perMinute s key' now bucket (s.sleepers.eraseIdx i) hp hsound htoken
    rw [hturn]
    exact Or.inl ⟨htoken, rfl, rfl⟩
  · rw [@turn_of_no_token perMinute s key' now bucket (s.sleepers.eraseIdx i) hp hsound htoken]
    refine Or.inr ⟨htoken, rfl, rfl, fun t hle => available_refill hs' ?_ hle⟩
    rw [bucketFor_of_some hs' hbucket]
    exact Function.update_self _ _ _

theorem count_eraseIdx {l : List String} (hkey : l[i]? = some key) (key' : String) :
    l.count key' = (l.eraseIdx i).count key' + if key = key' then 1 else 0 := by
  obtain ⟨hi, rfl⟩ := List.getElem?_eq_some_iff.mp hkey
  rw [← (List.getElem_cons_eraseIdx_perm hi).count_eq, List.count_cons]
  simp

/-- A turn of a caller of another key. -/
theorem turn_of_ne {bucket : Bucket} {sleepers : List String} (hne : key' ≠ key) :
    (s.turn key' bucket sleepers now).buckets key = s.buckets key ∧
      (s.turn key' bucket sleepers now).sleepers.count key = sleepers.count key := by
  have hcount : (sleepers ++ [key']).count key = sleepers.count key := by
    rw [List.count_append, List.count_singleton]
    simp [hne]
  refine ⟨Function.update_of_ne hne.symm _ _, ?_⟩
  show (if (bucket.turn now).2 then sleepers else sleepers ++ [key']).count key = _
  split
  · rfl
  · exact hcount

/-- **A quiet step** serves a caller of the key, or leaves their number and the tokens alone. -/
theorem quiet_step {l : Step} (hp : 0 < perMinute) (hs : s.buckets.Sound perMinute s.clock)
    (hquiet : Quiet key l) (h : s.step perMinute l = some s') :
    s'.waiting key + 1 = s.waiting key ∨
      s'.waiting key = s.waiting key ∧
        ∀ t, l.now ≤ t → s'.available perMinute key t = s.available perMinute key t := by
  cases l with
  | wake i now =>
    obtain ⟨hclock, key', bucket, hkey', -, hturn⟩ := step_spec h
    have hcount := count_eraseIdx hkey' key
    -- a caller of the key is served or goes back to sleep; another does not touch its bucket
    by_cases hkey : key' = key
    · subst hkey
      rw [if_pos rfl] at hcount
      rcases wake_cases hp hs hkey' h with ⟨-, -, hsleepers⟩ | ⟨-, -, hsleepers, havailable⟩
      · left
        rw [waiting, waiting, hsleepers, hcount]
      · right
        refine ⟨?_, havailable⟩
        rw [waiting, waiting, hsleepers, List.count_append, List.count_singleton_self, hcount]
    · rw [if_neg hkey, Nat.add_zero] at hcount
      obtain ⟨hbuckets, hsleepers⟩ := @turn_of_ne s key key' now bucket _ hkey
      rw [hturn]
      exact Or.inr ⟨hsleepers.trans hcount.symm, fun t _ => available_of_same_bucket hbuckets⟩
  | acquire key' now =>
    obtain ⟨-, (rfl : s' = _)⟩ := step_spec h
    obtain ⟨hbuckets, hsleepers⟩ := @turn_of_ne s key key' now
      { bucketFor s.buckets key' perMinute now with
        waiters := (bucketFor s.buckets key' perMinute now).waiters + 1 } s.sleepers hquiet
    exact Or.inr ⟨hsleepers, fun t _ => available_of_same_bucket hbuckets⟩
  | penalize key' retryAfterSeconds now =>
    obtain ⟨-, (rfl : s' = _)⟩ := step_spec h
    have hne : key' ≠ key := hquiet
    exact Or.inr ⟨rfl, fun t _ =>
      available_of_same_bucket (Function.update_of_ne hne.symm _ _)⟩
  | pickKey keys now =>
    obtain ⟨hclock, (rfl : s' = _)⟩ := step_spec h
    have hs' : s.buckets.Sound perMinute now := fun k b hb => (hs k b hb).mono hclock
    refine Or.inr ⟨rfl, fun t hle => ?_⟩
    rcases pickKey_refilled hs' keys key with hsame | hrefilled
    · exact available_of_same_bucket hsame
    · exact available_refill hs' hrefilled hle

/-- A caller that is followed is asleep on the same key. -/
theorem place_key {l : Step} (hp : 0 < perMinute) (hs : s.buckets.Sound perMinute s.clock)
    (hkey : s.sleepers[i]? = some key) (h : s.step perMinute l = some s')
    (hplace : place s s' l i = some j) : s'.sleepers[j]? = some key := by
  obtain ⟨hi, -⟩ := List.getElem?_eq_some_iff.mp hkey
  have hturn : ∀ {key' bucket sleepers} {now : ℤ} {k : ℕ}, sleepers[k]? = some key →
      (s.turn key' bucket sleepers now).sleepers[k]? = some key := by
    intro key' bucket sleepers now k hk
    show (if (bucket.turn now).2 then sleepers else sleepers ++ [key'])[k]? = _
    split
    · exact hk
    · rw [List.getElem?_append_left (List.getElem?_eq_some_iff.mp hk).1]
      exact hk
  cases l with
  | wake m now =>
    obtain ⟨hclock, key', bucket, hkey', -, rfl⟩ := step_spec h
    rw [place] at hplace
    by_cases hm : m = i
    · subst hm
      rw [if_pos rfl] at hplace
      rcases wake_cases hp hs hkey h with ⟨-, hgrants, -⟩ | ⟨-, hgrants, hsleepers, -⟩
      · rw [if_pos (by simp [granted, hgrants])] at hplace
        cases hplace
      · rw [if_neg (by simp [granted, hgrants])] at hplace
        obtain rfl := Option.some_inj.mp hplace
        rw [hsleepers, List.getElem?_append_right (by rw [List.length_eraseIdx_of_lt hi]),
          List.length_eraseIdx_of_lt hi, Nat.sub_self]
        rfl
    · rw [if_neg hm] at hplace
      obtain rfl := Option.some_inj.mp hplace
      refine hturn ?_
      -- the list closes up behind the one that woke up
      by_cases hlt : m < i
      · rw [if_pos hlt, List.getElem?_eraseIdx_of_ge (by omega), Nat.sub_add_cancel (by omega)]
        exact hkey
      · rw [if_neg hlt, List.getElem?_eraseIdx_of_lt (by omega)]
        exact hkey
  | acquire key' now =>
    obtain rfl := Option.some_inj.mp hplace
    obtain ⟨-, (rfl : s' = _)⟩ := step_spec h
    exact hturn hkey
  | penalize key' retryAfterSeconds now =>
    obtain rfl := Option.some_inj.mp hplace
    obtain ⟨-, (rfl : s' = _)⟩ := step_spec h
    exact hkey
  | pickKey keys now =>
    obtain rfl := Option.some_inj.mp hplace
    obtain ⟨-, (rfl : s' = _)⟩ := step_spec h
    exact hkey

/-- Given time, there is a token. -/
theorem exists_available (hp : 0 < perMinute) (hs : s.buckets.Sound perMinute s.clock) :
    ∃ t, ∀ t', t ≤ t' → s.clock ≤ t' → 1 ≤ s.available perMinute key t' := by
  have hrate := perMs_pos hp
  have hone : (1 : ℚ) ≤ perMinute := by exact_mod_cast hp
  cases hbucket : s.buckets key with
  | none =>
    refine ⟨s.clock, fun t' _ _ => ?_⟩
    rw [available, bucketFor, hbucket, (Bucket.Sound.fresh perMinute t').refill_self rfl]
    exact hone
  | some bucket =>
    have hsound := hs key bucket hbucket
    refine ⟨bucket.lastRefillMs + ⌈(1 - bucket.tokens) / perMs perMinute⌉, fun t' hle hafter => ?_⟩
    rw [available_of_some hbucket hsound.capacity, (hsound.mono hafter).refill_tokens]
    refine le_min hone ?_
    have hceil := Int.le_ceil ((1 - bucket.tokens) / perMs perMinute)
    have htime : (⌈(1 - bucket.tokens) / perMs perMinute⌉ : ℚ) ≤ t' - bucket.lastRefillMs := by
      have hle' : ⌈(1 - bucket.tokens) / perMs perMinute⌉ ≤ t' - bucket.lastRefillMs := by omega
      exact_mod_cast hle'
    have hflow := (div_le_iff₀ hrate).mp (hceil.trans htime)
    linarith

/-! ### Runs that never end -/

/-- A run of the limiter. -/
abbrev Run (perMinute : ℕ) (clock : ℤ) := InfiniteRun (Limiter.step perMinute) (init clock)

section

variable {clock : ℤ}

/-- Where the caller at a place is after the step at an instant. -/
def Run.place (run : Run perMinute clock) (n i : ℕ) : Option ℕ :=
  Limiter.place (run.state n) (run.state (n + 1)) (run.label n) i

/-- The caller at a place is served eventually. -/
inductive Served (run : Run perMinute clock) : ℕ → ℕ → Prop
  | grant {n i : ℕ} : run.place n i = none → Served run n i
  | later {n i j : ℕ} : run.place n i = some j → Served run (n + 1) j → Served run n i

/-- The caller at a place is served, or wakes up at or after an instant. -/
inductive WakesAfter (run : Run perMinute clock) (t : ℤ) : ℕ → ℕ → Prop
  | grant {n i : ℕ} : run.place n i = none → WakesAfter run t n i
  | wake {n i : ℕ} {now : ℤ} : run.label n = .wake i now → t ≤ now → WakesAfter run t n i
  | later {n i j : ℕ} : run.place n i = some j → WakesAfter run t (n + 1) j → WakesAfter run t n i

/-- **Timers fire** as time passes: whoever is asleep wakes up, at whatever instant or later. -/
def Timers (run : Run perMinute clock) : Prop :=
  ∀ t n i, i < (run.state n).sleepers.length → WakesAfter run t n i

/-- Everybody who is ever asleep on the key is served. -/
def AllServed (run : Run perMinute clock) (key : String) : Prop :=
  ∀ n i, (run.state n).sleepers[i]? = some key → Served run n i

variable {run : Run perMinute clock} {n : ℕ}

/-- With a token from an instant on, the next to wake up after it is served. -/
theorem served_of_wakesAfter (hp : 0 < perMinute) (hquiet : ∀ m ≥ n, Quiet key (run.label m))
    {w : ℕ} (hwaiting : (run.state n).waiting key ≤ w)
    (ih : ∀ m ≥ n, (run.state m).waiting key < w →
      ∀ i, (run.state m).sleepers[i]? = some key → Served run m i)
    (htoken : ∀ t', t ≤ t' → (run.state n).clock ≤ t' →
      1 ≤ (run.state n).available perMinute key t')
    (hkey : (run.state n).sleepers[i]? = some key) (h : WakesAfter run t n i) :
    Served run n i := by
  have hsound : ∀ n, (run.state n).buckets.Sound perMinute (run.state n).clock := fun n =>
    sound_of_reach hp (run.reachable n)
  induction h with
  | grant hplace => exact .grant hplace
  | @wake n i now hlabel hlate =>
    have hstep := run.next n
    rw [hlabel] at hstep
    rcases wake_cases hp (hsound n) hkey hstep with ⟨-, hgrants, -⟩ | ⟨hnone, -⟩
    · refine .grant ?_
      simp [Run.place, Limiter.place, hlabel, granted, hgrants]
    · exact absurd (htoken now hlate (step_spec hstep).1) hnone
  | @later n i j hplace _ ih' =>
    -- the step is somebody else's
    have hnext := place_key hp (hsound n) hkey (run.next n) hplace
    obtain ⟨hclock, hclock', -⟩ := step_moves hp (hsound n) (run.next n) key
    refine .later hplace ?_
    rcases quiet_step hp (hsound n) (hquiet n le_rfl) (run.next n) with hfewer | ⟨hsame, htokens⟩
    · -- somebody else on the key has been served
      exact ih (n + 1) (by omega) (by omega) j hnext
    · refine ih' (fun m hm => hquiet m (by omega)) (by omega) (fun m hm => ih m (by omega))
        (fun t' hle hafter => ?_) hnext
      rw [hclock'] at hafter
      rw [htokens t' hafter]
      exact htoken t' hle (hclock.trans hafter)

/-- **Once penalties and new callers stop**, everybody asleep on the key is served. -/
theorem served_of_quiet (hp : 0 < perMinute) (htimers : Timers run)
    (hquiet : ∀ m ≥ n, Quiet key (run.label m)) :
    ∀ m ≥ n, ∀ i, (run.state m).sleepers[i]? = some key → Served run m i := by
  have hrate := perMs_pos hp
  -- by the number of those who are asleep
  suffices h : ∀ w m, m ≥ n → (run.state m).waiting key ≤ w →
      ∀ i, (run.state m).sleepers[i]? = some key → Served run m i from
    fun m hm i => h _ m hm le_rfl i
  intro w
  induction w with
  | zero =>
    intro m _ hnone i hkey
    have hmem : key ∈ (run.state m).sleepers := List.mem_of_getElem? hkey
    have hpos := List.count_pos_iff.mpr hmem
    rw [waiting] at hnone
    omega
  | succ w ih =>
    intro m hm hwaiting i hkey
    obtain ⟨t, htoken⟩ := @exists_available perMinute _ key hp (sound_of_reach hp (run.reachable m))
    exact served_of_wakesAfter hp (fun m' hm' => hquiet m' (by omega)) hwaiting
      (fun m' hm' hfewer => ih m' (by omega) (by omega)) htoken hkey
      (htimers t m i (List.getElem?_eq_some_iff.mp hkey).1)

/-- So is everybody who is asleep before. -/
theorem allServed_of_later (hp : 0 < perMinute)
    (h : ∀ m ≥ n, ∀ i, (run.state m).sleepers[i]? = some key → Served run m i) :
    AllServed run key := by
  suffices hback : ∀ d m i, n ≤ m + d → (run.state m).sleepers[i]? = some key → Served run m i from
    fun m i hkey => hback n m i (by omega) hkey
  intro d
  induction d with
  | zero => exact fun m i hm hkey => h m hm i hkey
  | succ d ih =>
    intro m i hm hkey
    cases hplace : run.place m i with
    | none => exact .grant hplace
    | some j =>
      exact .later hplace (ih (m + 1) j (by omega)
        (place_key hp (sound_of_reach hp (run.reachable m)) hkey (run.next m) hplace))

end

end Limiter

open Limiter

/-- **A penalised key is left alone**, whatever happens after the penalty; and once there are no
more penalties and no more new callers, everybody who waits for the key is served. -/
theorem penalised_left_alone {perMinute : ℕ} (hp : 0 < perMinute) (clock : ℤ) (key : String) :
    (∀ s s' s'' retryAfterSeconds now, Reachable (Limiter.step perMinute) (init clock) s →
      s.step perMinute (.penalize key retryAfterSeconds now) = some s' →
        Reachable (Limiter.step perMinute) s' s'' →
          ∃ new, s''.grants = new ++ s'.grants ∧
            ∀ g ∈ new, g.key = key → now + 1000 * retryAfterSeconds < g.time) ∧
    ∀ run : Run perMinute clock, Timers run → (∃ n, ∀ m ≥ n, Quiet key (run.label m)) →
      AllServed run key := by
  refine ⟨fun s s' s'' r now hreach hpenalty hlater =>
    grants_of_penalty hp hreach hpenalty hlater, ?_⟩
  rintro run htimers ⟨n, hquiet⟩
  exact allServed_of_later hp (served_of_quiet hp htimers hquiet)

/-! ### Two runs -/

namespace Sample

/-- The bucket of a key of one token a minute, just emptied, with a caller asleep on it. -/
def emptied (now : ℤ) (waiters : ℕ) : Buckets :=
  Function.update (fun _ => none) "key" (some ⟨0, 1, 1 / 60000, now, waiters⟩)

def asleep (now : ℤ) (grants : List Grant) : Limiter := ⟨emptied now 1, now, ["key"], grants⟩

theorem turn_emptied (now : ℤ) (waiters : ℕ) :
    (⟨0, 1, 1 / 60000, now, waiters⟩ : Bucket).turn (now + 60000) =
      (⟨0, 1, 1 / 60000, now + 60000, waiters - 1⟩, true) := by
  have hrefill : (⟨0, 1, 1 / 60000, now, waiters⟩ : Bucket).refill (now + 60000) =
      ⟨1, 1, 1 / 60000, now + 60000, waiters⟩ := by
    have helapsed : max 0 (now + 60000 - now) = 60000 := by omega
    rw [Bucket.refill]
    simp only [helapsed]
    norm_num
  rw [Bucket.turn, Bucket.waitMsForToken, hrefill]
  simp

theorem refill_emptied (now : ℤ) (waiters : ℕ) :
    (⟨0, 1, 1 / 60000, now, waiters⟩ : Bucket).refill now = ⟨0, 1, 1 / 60000, now, waiters⟩ := by
  simp [Bucket.refill]

theorem turn_in_vain (now : ℤ) (waiters : ℕ) :
    (⟨0, 1, 1 / 60000, now, waiters⟩ : Bucket).turn now =
      (⟨0, 1, 1 / 60000, now, waiters⟩, false) := by
  have hceil : ⌈(1 - 0 : ℚ) / (1 / 60000)⌉ ≠ 0 := by norm_num
  rw [Bucket.turn, Bucket.waitMsForToken, refill_emptied]
  simp only [if_neg (by norm_num : ¬(1 : ℚ) ≤ 0), if_neg hceil]

theorem emptied_key (now : ℤ) (waiters : ℕ) :
    emptied now waiters "key" = some ⟨0, 1, 1 / 60000, now, waiters⟩ :=
  Function.update_self _ _ _

theorem bucketFor_emptied (now t : ℤ) (waiters : ℕ) :
    bucketFor (emptied now waiters) "key" 1 t = ⟨0, 1, 1 / 60000, now, waiters⟩ := by
  rw [bucketFor, emptied_key]
  simp

theorem update_emptied (now now' : ℤ) (waiters waiters' : ℕ) :
    Function.update (emptied now waiters) "key" (some ⟨0, 1, 1 / 60000, now', waiters'⟩) =
      emptied now' waiters' :=
  Function.update_idem _ _ _

/-- Whoever comes after a minute gets the token that has flowed in, -/
theorem step_newcomer (now : ℤ) (grants : List Grant) :
    (asleep now grants).step 1 (.acquire "key" (now + 60000)) =
      some (asleep (now + 60000) (⟨"key", now + 60000⟩ :: grants)) := by
  have hclock : ¬(Step.acquire "key" (now + 60000)).now < (asleep now grants).clock :=
    not_lt.mpr (by simp [Step.now, asleep])
  rw [step.eq_def, if_neg hclock]
  simp only [asleep, bucketFor_emptied, Limiter.turn, turn_emptied, update_emptied]
  simp

/-- and the one asleep wakes up in vain, -/
theorem step_in_vain (now : ℤ) (grants : List Grant) :
    (asleep now grants).step 1 (.wake 0 now) = some (asleep now grants) := by
  have hclock : ¬(Step.wake 0 now).now < (asleep now grants).clock := lt_irrefl now
  rw [step.eq_def, if_neg hclock]
  simp only [asleep, List.getElem?_cons_zero, Option.bind_some, emptied_key, Option.map_some,
    Limiter.turn, turn_in_vain, update_emptied]
  simp

/-- The one asleep served, and nobody waiting. -/
def served (now : ℤ) (grants : List Grant) : Limiter :=
  ⟨emptied now 0, now, [], ⟨"key", now⟩ :: grants⟩

/-- which would have had the token. -/
theorem step_alone (now : ℤ) (grants : List Grant) :
    (asleep now grants).step 1 (.wake 0 (now + 60000)) = some (served (now + 60000) grants) := by
  have hclock : ¬(Step.wake 0 (now + 60000)).now < (asleep now grants).clock :=
    not_lt.mpr (by simp [Step.now, asleep])
  rw [step.eq_def, if_neg hclock]
  simp only [asleep, List.getElem?_cons_zero, Option.bind_some, emptied_key, Option.map_some,
    Limiter.turn, turn_emptied, update_emptied]
  simp [served]

theorem step_pick (now : ℤ) (grants : List Grant) :
    (served now grants).step 1 (.pickKey ["key"] now) = some (served now grants) := by
  have hclock : ¬(Step.pickKey ["key"] now).now < (served now grants).clock := lt_irrefl now
  have hpick : (pickKey (emptied now 0) ["key"] 1 now).buckets = emptied now 0 := by
    show Function.update (emptied now 0) "key"
      (some ((bucketFor (emptied now 0) "key" 1 now).refill now)) = _
    rw [bucketFor_emptied, refill_emptied, update_emptied]
  rw [step.eq_def, if_neg hclock]
  simp only [served, hpick]

/-- The budget of the key spent, and a caller asleep. -/
def spent : Limiter := asleep 0 [⟨"key", 0⟩]

theorem reachable_spent : Reachable (Limiter.step 1) (init 0) spent := by
  have hfirst : (init 0).step 1 (.acquire "key" 0) = some (served 0 []) := by
    have hturn : (⟨1, 1, 1 / 60000, 0, 1⟩ : Bucket).turn 0 = (⟨0, 1, 1 / 60000, 0, 0⟩, true) := by
      simp [Bucket.turn, Bucket.waitMsForToken, Bucket.refill]
    have hbucket : bucketFor (init 0).buckets "key" 1 0 = ⟨1, 1, 1 / 60000, 0, 0⟩ := by
      simp [bucketFor, init, Bucket.fresh]
    rw [step.eq_def, if_neg (by decide)]
    simp only [hbucket, Limiter.turn, hturn]
    simp [served, emptied, init]
  have hsecond : (served 0 []).step 1 (.acquire "key" 0) = some spent := by
    rw [step.eq_def, if_neg (by decide)]
    simp only [served, bucketFor_emptied, Limiter.turn, turn_in_vain, update_emptied]
    simp [spent, asleep]
  exact (Reach.refl.tail trivial hfirst).tail trivial hsecond

/-- The caller asleep has its turn after a minute, and the limiter is idle from then on. -/
def patient : Run 1 0 where
  state
    | 0 => spent
    | _ + 1 => served 60000 [⟨"key", 0⟩]
  label
    | 0 => .wake 0 60000
    | _ + 1 => .pickKey ["key"] 60000
  start := reachable_spent
  next
    | 0 => step_alone 0 _
    | _ + 1 => step_pick 60000 _

theorem patient_timers : Timers patient
  | _, 0, 0, _ => .grant rfl
  | _, _ + 1, i, hi => absurd hi (Nat.not_lt_zero i)

/-- The grants to the newcomers, one every minute. -/
def crowd : ℕ → List Grant
  | 0 => [⟨"key", 0⟩]
  | k + 1 => ⟨"key", 60000 * k + 60000⟩ :: crowd k

/-- Every minute a newcomer takes the token, just before the caller asleep wakes up. -/
def crowded : Run 1 0 where
  state n := asleep (60000 * ((n + 1) / 2 : ℕ)) (crowd ((n + 1) / 2))
  label n :=
    if n % 2 = 0 then .acquire "key" (60000 * ((n + 1) / 2 : ℕ) + 60000)
    else .wake 0 (60000 * ((n + 1) / 2 : ℕ))
  start := reachable_spent
  next n := by
    by_cases heven : n % 2 = 0
    · have hnext : (n + 1 + 1) / 2 = (n + 1) / 2 + 1 := by omega
      rw [if_pos heven, hnext, step_newcomer, crowd]
      push_cast
      rw [mul_add, mul_one]
    · have hnext : (n + 1 + 1) / 2 = (n + 1) / 2 := by omega
      rw [if_neg heven, hnext, step_in_vain]

theorem crowded_place (n : ℕ) : crowded.place n 0 = some 0 := by
  have hstate : ∀ n, (crowded.state n).grants = crowd ((n + 1) / 2) := fun n => rfl
  by_cases heven : n % 2 = 0
  · have hlabel : crowded.label n = .acquire "key" (60000 * ((n + 1) / 2 : ℕ) + 60000) :=
      if_pos heven
    rw [Run.place, hlabel]
    rfl
  · have hlabel : crowded.label n = .wake 0 (60000 * ((n + 1) / 2 : ℕ)) := if_neg heven
    have hnext : (n + 1 + 1) / 2 = (n + 1) / 2 := by omega
    have hvain : granted (crowded.state n) (crowded.state (n + 1)) = false := by
      rw [granted, hstate, hstate, hnext]
      simp
    rw [Run.place, hlabel, place, hvain]
    rfl

theorem crowded_timers : Timers crowded := by
  intro t n i hi
  obtain rfl : i = 0 := Nat.lt_one_iff.mp hi
  -- an instant late enough, at which the timer fires
  suffices h : ∀ d n, t ≤ 60000 * ((n + d + 1) / 2 : ℕ) → (n + d) % 2 = 1 →
      WakesAfter crowded t n 0 from
    h (2 * t.toNat + 1 + n) n (by omega) (by omega)
  intro d
  induction d with
  | zero =>
    intro n hlate hodd
    exact .wake (if_neg (by omega)) hlate
  | succ d ih =>
    intro n hlate hodd
    refine .later (crowded_place n) (ih (n + 1) ?_ (by omega))
    rw [Nat.add_right_comm n 1 d]
    exact hlate

theorem crowded_not_served {n i : ℕ} (h : Served crowded n i) : i ≠ 0 := by
  induction h with
  | @grant n i hplace =>
    rintro rfl
    rw [crowded_place] at hplace
    cases hplace
  | @later n i j hplace _ ih =>
    rintro rfl
    rw [crowded_place] at hplace
    exact ih (Option.some_inj.mp hplace).symm

end Sample

open Sample

/-- Both after a penalty of five seconds, and in a run in which somebody waits. -/
theorem penalised_left_alone_paced :
    (∃ s' s'', (init 0).step 1 (.penalize "key" 5 0) = some s' ∧
      s'.step 1 (.acquire "key" 65000) = some s'' ∧ s''.grants = [⟨"key", 65000⟩] ∧
        ∃ new, s''.grants = new ++ s'.grants ∧ ∀ g ∈ new, g.key = "key" → 5000 < g.time) ∧
    (patient.state 0).sleepers = ["key"] ∧ AllServed patient "key" := by
  have hp : 0 < 1 := Nat.one_pos
  obtain ⟨hpenalty, hserved⟩ := penalised_left_alone hp 0 "key"
  refine ⟨?_, rfl, hserved patient patient_timers ⟨0, fun m _ => ?_⟩⟩
  · have hsound := @sound_of_reach 1 _ hp 0 Reach.refl
    have hstep : (init 0).step 1 (.penalize "key" 5 0) = some
        { init 0 with
          buckets := Function.update (init 0).buckets "key"
            (some ((bucketFor (init 0).buckets "key" 1 0).penalized 0 5)) } := rfl
    obtain ⟨-, -, hsound', -⟩ := step_moves hp hsound hstep "key"
    obtain ⟨s'', hacquire, -, -, hgrants, -⟩ :=
      @step_acquire 1 _ "key" 65000 hp hsound' (by decide) (by decide +kernel)
    obtain ⟨new, hnew, hlate⟩ :=
      hpenalty _ _ s'' 5 0 Reach.refl hstep (Reach.refl.tail trivial hacquire)
    refine ⟨_, s'', hstep, hacquire, hgrants, new, hnew, fun g hg hkey => ?_⟩
    have := hlate g hg hkey
    norm_num at this
    exact_mod_cast this
  · cases m <;> trivial

/-- While new callers come, one that waits may never be served, with no penalty at all. -/
theorem crowded_out :
    ¬ ∀ (perMinute : ℕ) (clock : ℤ) (run : Run perMinute clock) (key : String), 0 < perMinute →
      Timers run → (∃ n, ∀ m ≥ n, ∀ r now, run.label m ≠ .penalize key r now) →
        AllServed run key := by
  intro h
  refine crowded_not_served (h 1 0 crowded "key" Nat.one_pos crowded_timers
    ⟨0, fun m _ r now hlabel => ?_⟩ 0 0 rfl) rfl
  have hne : ∀ {p : Prop} [Decidable p] {a b : ℤ},
      (if p then Step.acquire "key" a else .wake 0 b) ≠ .penalize "key" r now := by
    intro p _ a b
    split <;> exact Step.noConfusion
  exact hne hlabel

end RateLimiter
