/-
The life of an alert.

* `Lifecycle`, `Evolves` — what holds of the rows in every state, and of every step;
  `row_lifecycle` — both, in every run without failures;
* `Stranded` — an alert in flight that no dispatcher under way holds; `stranded_of_reach`: it
  stays so;
* `none_stranded` — none is as long as no dispatcher fails while it holds an alert, and the
  first such failure strands one.
-/
import HoodMint.OutboxInvariant

namespace Notifications

open Effect Relational Transition

namespace OutboxRun

variable {iso : ℤ → String} {s s' : OutboxRun} {l : OutboxStep} {id : String} {i j : ℕ}

/-! ### Who holds what -/

theorem Holds.mem_held (h : s.Holds i id) : ∃ o ∈ s.held, o.id = id := by
  obtain ⟨t, hi, o, ho, hid⟩ := h
  exact ⟨o, List.mem_flatMap.mpr ⟨t, List.mem_of_getElem? hi, ho⟩, hid⟩

theorem exists_holds {o : Hold} (ho : o ∈ s.held) : ∃ i, s.Holds i o.id := by
  obtain ⟨t, ht, ho⟩ := List.mem_flatMap.mp ho
  obtain ⟨i, hi⟩ := List.mem_iff_getElem?.mp ht
  exact ⟨i, t, hi, o, ho, rfl⟩

theorem Holds.inflight (hok : s.Ok) (h : s.Holds i id) {r : OutboxRow} (hr : r ∈ s.world.outbox)
    (hid : r.id = id) : r.status = .inflight := by
  obtain ⟨o, ho, rfl⟩ := h.mem_held
  exact (hok.consistent.of_held ho hr hid).1

/-- No two dispatchers hold one alert. -/
theorem Holds.unique (hok : s.Ok) (hi : s.Holds i id) (hj : s.Holds j id) : i = j := by
  obtain ⟨t, hi, o, ho, rfl⟩ := hi
  obtain ⟨u, hj, o', ho', hid⟩ := hj
  by_contra hne
  have hperm := (held_perm hi).map Hold.id
  rw [List.map_append] at hperm
  have hnodup := hperm.nodup_iff.mp hok.consistent.alone
  have hmem : u ∈ s.dispatchers.eraseIdx i :=
    List.mem_eraseIdx_iff_getElem?.mpr ⟨j, fun h => hne h.symm, hj⟩
  have hother : o'.id ∈ ((s.dispatchers.eraseIdx i).flatMap Task.here).map Hold.id :=
    List.mem_map_of_mem (List.mem_flatMap.mpr ⟨u, hmem, ho'⟩)
  exact List.disjoint_of_nodup_append hnodup (List.mem_map_of_mem ho) (hid ▸ hother)

/-! ### The state machine -/

/-- The rows of every state. -/
structure Lifecycle (s : OutboxRun) : Prop where
  one_row : ∀ r ∈ s.world.outbox, ∀ r' ∈ s.world.outbox, r.dedupeKey = r'.dedupeKey → r = r'
  sent : ∀ r ∈ s.world.outbox, r.status = .sent →
    ∃ a ∈ s.world.attempts, a.outboxId = r.id ∧ a.status = .success
  claims_le : ∀ id, s.world.claims id ≤ 6
  dead : ∀ r ∈ s.world.outbox, r.status = .dead ↔
    s.world.claims r.id = 6 ∧ (r.id, 6) ∉ s.world.wins ∧ ∀ i, ¬ s.Holds i r.id
  alone : ∀ i j id, s.Holds i id → s.Holds j id → i = j
  underWay : ∀ i t, s.dispatchers[i]? = some t → t.Done → ∀ id, ¬ s.Holds i id

/-- The rows from one state to the next. -/
structure Evolves (s s' : OutboxRun) : Prop where
  rows : ∀ r' ∈ s'.world.outbox, (∃ r ∈ s.world.outbox, Follows r r') ∨
    r'.status = .pending ∧ r'.attempts = 0 ∧ ∀ r ∈ s.world.outbox, r.dedupeKey ≠ r'.dedupeKey
  kept : ∀ r ∈ s.world.outbox, ∃ r' ∈ s'.world.outbox, Follows r r'
  claimed : ∀ id, s.world.claims id < s'.world.claims id →
    ∃ r ∈ s.world.outbox, r.id = id ∧ r.status = .pending

theorem Evolves.of_step (hok : s.Ok) (h : s.step iso l = some s') : Evolves s s' := by
  cases l with
  | dispatch deps =>
    obtain rfl := Option.some_inj.mp h
    exact ⟨fun r hr => Or.inl ⟨r, hr, .refl r⟩, fun r hr => ⟨r, hr, .refl r⟩,
      fun _ hlt => absurd hlt (lt_irrefl _)⟩
  | enqueueAlert id now input =>
    rw [OutboxRun.step] at h
    split at h
    · exact absurd h.symm (Option.some_ne_none _)
    obtain rfl := Option.some_inj.mp h
    by_cases hkey : ∃ r ∈ s.world.outbox, r.dedupeKey = input.dedupeKey
    · rw [Outbox.enqueueAlert, if_pos hkey]
      exact ⟨fun r hr => Or.inl ⟨r, hr, .refl r⟩, fun r hr => ⟨r, hr, .refl r⟩,
        fun _ hlt => absurd hlt (lt_irrefl _)⟩
    · rw [Outbox.enqueueAlert, if_neg hkey]
      refine ⟨fun r' hr' => ?_, fun r hr => ⟨r, Table.mem_insert_of_mem hr, .refl r⟩,
        fun _ hlt => absurd hlt (lt_irrefl _)⟩
      rcases Table.mem_insert.mp hr' with hr' | ⟨rfl, -⟩
      · exact Or.inl ⟨r', hr', .refl r'⟩
      · exact Or.inr ⟨rfl, rfl, fun r hr he => hkey ⟨r, hr, he⟩⟩
  | advance i answer =>
    obtain ⟨c, k, here, hi, hx, rfl⟩ := step_advance_cases h
    have hc := hok.consistent.perm (held_perm hi)
    have ht := turn_next (safe_advance hi hok.safe (hc.turns_allowed hx)).1 hx
    obtain ⟨hkept, hrows⟩ := ht.follows hc
    exact ⟨fun r' hr' => Or.inl (hrows r' hr'), hkept, fun _ hlt => ht.pending_of_claimed hlt⟩

theorem Lifecycle.of_ok (hok : s.Ok) (hsteady : ∀ t ∈ s.dispatchers, Steady t) : Lifecycle s where
  one_row r hr r' hr' hkey := List.inj_on_of_nodup_map hok.consistent.keys hr hr' hkey
  sent r hr hs := by
    have hsound := (hok.consistent.rows r hr).2
    rw [OutboxRow.Sound, hs] at hsound
    exact (hok.consistent.wins _ hsound.2).2
  claims_le id := by
    by_cases hmem : id ∈ s.world.claimed
    · obtain ⟨r, hr, rfl⟩ := hok.consistent.known id hmem
      obtain ⟨hattempts, hsound⟩ := hok.consistent.rows r hr
      exact hattempts ▸ hsound.attempts_le
    · exact (List.count_eq_zero_of_not_mem hmem).le.trans (Nat.zero_le 6)
  dead r hr := by
    obtain ⟨hattempts, hsound⟩ := hok.consistent.rows r hr
    constructor
    · intro hs
      rw [OutboxRow.Sound, hs] at hsound
      refine ⟨hattempts ▸ hsound.1, hsound.2, fun i hi => ?_⟩
      have hinflight := hi.inflight hok hr rfl
      rw [hs] at hinflight
      exact OutboxStatus.noConfusion hinflight
    · rintro ⟨hsix, hlost, hfree⟩
      rw [← hattempts] at hsix
      cases hs : r.status with
      | dead => rfl
      | pending =>
        rw [OutboxRow.Sound, hs, hsix] at hsound
        exact absurd hsound (lt_irrefl 6)
      | inflight =>
        obtain ⟨o, ho, hid⟩ := hok.consistent.owned r hr hs
        obtain ⟨i, hi⟩ := exists_holds ho
        exact absurd (hid ▸ hi) (hfree i)
      | sent =>
        rw [OutboxRow.Sound, hs, hsix] at hsound
        exact absurd hsound.2 hlost
      | failed =>
        rw [OutboxRow.Sound, hs] at hsound
        exact hsound.elim
  alone i j id hi hj := hi.unique hok hj
  underWay i t hi hd id hholds := by
    obtain ⟨u, hu, o, ho, -⟩ := hholds
    obtain rfl := Option.some_inj.mp (hi.symm.trans hu)
    have ht := List.mem_of_getElem? hi
    rw [(hsteady t ht).here_eq_nil hd (hok.safe t ht)] at ho
    exact absurd ho List.not_mem_nil

/-- **The outbox's state machine.** -/
theorem row_lifecycle (h : Reach (step iso) NothingFails start s) :
    Lifecycle s ∧ ∀ l s', s.step iso l = some s' → Evolves s s' :=
  ⟨.of_ok (ok_of_reach h) (steady_of_reach (h.mono fun _ _ => NothingFails.emptyHanded)),
    fun _ _ hstep => .of_step (ok_of_reach h) hstep⟩

/-! ### Stranded alerts -/

/-- The alert is in flight, and no dispatcher under way holds it. -/
def Stranded (s : OutboxRun) (id : String) : Prop :=
  (∃ r ∈ s.world.outbox, r.id = id ∧ r.status = .inflight) ∧
    ∀ i t, s.dispatchers[i]? = some t → s.Holds i id → t.Done

/-- No later step frees a stranded alert. -/
theorem Stranded.step (hok : s.Ok) (hs : s.Stranded id) (h : s.step iso l = some s') :
    s'.Stranded id := by
  obtain ⟨⟨r, hr, hid, hinflight⟩, hdone⟩ := hs
  cases l with
  | enqueueAlert rid now input =>
    rw [OutboxRun.step] at h
    split at h
    · exact absurd h.symm (Option.some_ne_none _)
    obtain rfl := Option.some_inj.mp h
    refine ⟨⟨r, ?_, hid, hinflight⟩, hdone⟩
    show r ∈ s.world.outbox.enqueueAlert rid now input
    rw [Outbox.enqueueAlert]
    split
    · exact hr
    · exact Table.mem_insert_of_mem hr
  | dispatch deps =>
    obtain rfl := Option.some_inj.mp h
    refine ⟨⟨r, hr, hid, hinflight⟩, ?_⟩
    rintro i t hi ⟨u, hu, o, ho, hoid⟩
    obtain rfl := Option.some_inj.mp (hi.symm.trans hu)
    -- a dispatcher that has just started holds nothing
    rcases getElem?_append_cases hi with hi | rfl
    · exact hdone i t hi ⟨t, hi, o, ho, hoid⟩
    · exact absurd ho List.not_mem_nil
  | advance i answer =>
    obtain ⟨c, k, here, hi, hx, rfl⟩ := step_advance_cases h
    have hc := hok.consistent.perm (held_perm hi)
    have ht := turn_next (safe_advance hi hok.safe (hc.turns_allowed hx)).1 hx
    -- the dispatcher whose turn it is has not ended, so it does not hold the alert
    have hnot : r.id ∉ here.map Hold.id := by
      intro hmem
      obtain ⟨o, ho, hoid⟩ := List.mem_map.mp hmem
      exact hdone i _ hi ⟨_, hi, o, ho, hoid.trans hid⟩
    obtain ⟨hr', hnot'⟩ := ht.of_not_held hr hinflight hnot
    refine ⟨⟨r, hr', hid, hinflight⟩, ?_⟩
    rintro j t hj ⟨u, hu, o, ho, hoid⟩
    obtain rfl := Option.some_inj.mp (hj.symm.trans hu)
    by_cases hij : i = j
    · subst hij
      rw [List.getElem?_set_self (List.getElem?_eq_some_iff.mp hi).1] at hj
      obtain rfl := Option.some_inj.mp hj
      exact absurd (List.mem_map.mpr ⟨o, ho, hoid.trans hid.symm⟩) hnot'
    · rw [List.getElem?_set_ne hij] at hj
      exact hdone j t hj ⟨t, hj, o, ho, hoid⟩

/-- **Stranded for good.** -/
theorem stranded_of_reach (h : Reachable (step iso) start s) (hs : s.Stranded id)
    (hr : Reachable (step iso) s s') : s'.Stranded id :=
  Reach.invariant (I := fun s => s.Stranded id) hr hs fun _ _ _ hr hs _ hstep =>
    hs.step (ok_of_reach (h.trans hr)) hstep

theorem next_error (w : OutboxWorld) (c : Cmd) (e : Thrown) :
    outboxWorld.next w c (.error e) = w := by
  cases c <;> rfl

theorem turns_next_error (here : List Hold) (c : Cmd) (e : Thrown) :
    turns.next here c (.error e) = here := by
  cases c <;> rfl

/-- A dispatcher that fails while it holds an alert strands it. -/
theorem stranded_of_fail (hok : s.Ok) (hsteady : ∀ t ∈ s.dispatchers, Steady t)
    (hl : ¬ s.FailsEmptyHanded l) (h : s.step iso l = some s') : ∃ id, s'.Stranded id := by
  have hok' := hok.step h
  cases l with
  | enqueueAlert => exact absurd trivial hl
  | dispatch => exact absurd trivial hl
  | advance i answer =>
    obtain ⟨c, k, here, hi, -, rfl⟩ := step_advance_cases h
    rw [FailsEmptyHanded, atCommand_iff hi, not_or] at hl
    obtain ⟨hne, hfail⟩ := hl
    obtain ⟨o, ho⟩ := List.exists_mem_of_ne_nil here hne
    generalize answer c = x at hfail hok' ⊢
    cases x with
    | ok => exact absurd rfl hfail
    | error e =>
      rw [next_error, turns_next_error] at hok' ⊢
      obtain ⟨r, hr, hid, hinflight, -⟩ :=
        hok.consistent.held o (List.mem_flatMap.mpr ⟨_, List.mem_of_getElem? hi, ho⟩)
      have hthrown : k (.error e) = .fail e := by
        rcases hsteady _ (List.mem_of_getElem? hi) with hplain | ⟨⟨_, he⟩, -⟩
        · exact hplain.2 e
        · cases he
      have hself : (s.dispatchers.set i ⟨k (.error e), here⟩)[i]? = some ⟨k (.error e), here⟩ :=
        List.getElem?_set_self (List.getElem?_eq_some_iff.mp hi).1
      refine ⟨o.id, ⟨r, hr, hid, hinflight⟩, fun j t hj hholds => ?_⟩
      obtain rfl := hholds.unique hok' ⟨_, hself, o, ho, rfl⟩
      obtain rfl := Option.some_inj.mp (hself.symm.trans hj)
      rw [Task.Done, hthrown]
      trivial

/-- **Stranded alerts.**  While every dispatcher that fails does so with nothing in hand, each
alert in flight is held by a dispatcher under way; the first one to fail with an alert in hand
strands it. -/
theorem none_stranded (h : Reach (step iso) FailsEmptyHanded start s) :
    (∀ id, ¬ s.Stranded id) ∧
      ∀ l s', s.step iso l = some s' → ((∀ id, ¬ s'.Stranded id) ↔ s.FailsEmptyHanded l) := by
  have hnone : ∀ {s}, Reach (step iso) FailsEmptyHanded start s → ∀ id, ¬ s.Stranded id := by
    rintro s h id ⟨⟨r, hr, rfl, hinflight⟩, hdone⟩
    have hok := ok_of_reach h
    obtain ⟨o, ho, hid⟩ := hok.consistent.owned r hr hinflight
    obtain ⟨i, t, hi, o', ho', hid'⟩ := exists_holds ho
    have ht := List.mem_of_getElem? hi
    have hd := hdone i t hi ⟨t, hi, o', ho', hid'.trans hid⟩
    rw [(steady_of_reach h t ht).here_eq_nil hd (hok.safe t ht)] at ho'
    exact List.not_mem_nil ho'
  refine ⟨hnone h, fun l s' hstep => ⟨fun hs' => ?_, fun hl => hnone (h.tail hl hstep)⟩⟩
  by_contra hl
  obtain ⟨id, hid⟩ := stranded_of_fail (ok_of_reach h) (steady_of_reach h) hl hstep
  exact hs' id hid

end OutboxRun

/-! ### A sample -/

namespace Sample

def input : EnqueueAlertInput where
  dedupeKey := "live:1"
  alertType := "watched_live"
  thresholdMinutes := 0
  payload := ⟨some "live", none, ""⟩

def channel : ClaimedChannel := ⟨"c", .webhook, some "s", {}⟩

/-- The alert as it is claimed. -/
def alert : ClaimedAlert :=
  ⟨⟨"a", "live:1", "watched_live", none, none, none, 0, ⟨some "live", none, ""⟩, .inflight, 1, 0,
    none, none, none⟩,
    [channel]⟩

/-- Everything succeeds. -/
def answer : (c : Cmd) → Except Thrown c.Resp
  | .now => .ok 0
  | .claimDueAlerts .. => .ok [alert]
  | .getCredentialSecret _ => .ok (some "https://hooks.example/1")
  | .sendTelegram .. => .ok ⟨true, 0, "", none⟩
  | .sendWebhook .. => .ok ⟨true, 0, "", none⟩
  | .sendDiscord .. => .ok ⟨true, 0, "", none⟩
  | .sendWebPush .. => .ok ⟨true, 0, "", none⟩
  | .recordAttempt _ => .ok ()
  | .updateSent .. => .ok ()
  | .selectAttempts _ => .ok (some 1)
  | .jitter _ => .ok 0
  | .updateFailed .. => .ok ()

/-- Everything but the read of the credential. -/
def failing : (c : Cmd) → Except Thrown c.Resp
  | .getCredentialSecret _ => .error ⟨"connection terminated"⟩
  | c => answer c

def iso (_ : ℤ) : String := "1970-01-01T00:00:00.000Z"

/-- An alert is enqueued, and a dispatcher answered so many times. -/
def dispatching (answer : (c : Cmd) → Except Thrown c.Resp) (n : ℕ) : List OutboxStep :=
  [.enqueueAlert "a" 0 input, .dispatch ⟨none, false⟩] ++ List.replicate n (.advance 0 answer)

/-- The alert has the status, and every dispatcher has ended. -/
def ended (status : OutboxStatus) (s : OutboxRun) : Bool :=
  decide (∃ r ∈ s.world.outbox, r.id = "a" ∧ r.status = status) &&
    decide (∀ t ∈ s.dispatchers, t.Done)

end Sample

namespace OutboxRun

theorem lifecycle_sent :
    ∃ s, Sample.ended .sent s = true ∧ Lifecycle s ∧
      ∀ l s', s.step Sample.iso l = some s' → Evolves s s' := by
  obtain ⟨s, hr, hs⟩ := exists_reach_of_run (step Sample.iso) NothingFails start
    (Sample.dispatching Sample.answer 7) (Sample.ended .sent) (by decide) (by decide)
  exact ⟨s, hs, row_lifecycle hr⟩

theorem none_stranded_sent :
    ∃ s, Sample.ended .sent s = true ∧ (∀ id, ¬ s.Stranded id) ∧
      ∀ l s', s.step Sample.iso l = some s' →
        ((∀ id, ¬ s'.Stranded id) ↔ s.FailsEmptyHanded l) := by
  obtain ⟨s, hr, hs⟩ := exists_reach_of_run (step Sample.iso) NothingFails start
    (Sample.dispatching Sample.answer 7) (Sample.ended .sent) (by decide) (by decide)
  exact ⟨s, hs, none_stranded (hr.mono fun _ _ => NothingFails.emptyHanded)⟩

/-- The read of a credential throws: the alert is in flight, its dispatcher has ended, and
nothing that happens later changes that. -/
theorem credential_strands :
    ∃ s, Reachable (step Sample.iso) start s ∧ Sample.ended .inflight s = true ∧
      ∀ s', Reachable (step Sample.iso) s s' → s'.Stranded "a" := by
  obtain ⟨s, hr, hs⟩ := exists_reachable_of_run (step Sample.iso) start
    (Sample.dispatching Sample.failing 3) (Sample.ended .inflight) (by decide)
  obtain ⟨hrow, hended⟩ := (Bool.and_eq_true _ _).mp hs
  have hstranded : s.Stranded "a" :=
    ⟨of_decide_eq_true hrow, fun i t hi _ => of_decide_eq_true hended t (List.mem_of_getElem? hi)⟩
  exact ⟨s, hr, hs, fun s' hr' => stranded_of_reach hr hstranded hr'⟩

end OutboxRun

end Notifications
