/-
What holds of the outbox in every run, failures included.

* `OutboxRow.Sound`, `Hold.Backed` — what the status of a row says of its claims, and what a
  dispatcher knows of the alerts it holds;
* `Consistent` — the invariant of the tables and of all that is held; `Consistent.next` keeps it
  through any command of a dispatcher whose turn it is;
* `Turn` — all that a command can do to the rows;
* `ok_of_reach` — the invariant, in every run;
* `NothingFails`, `FailsEmptyHanded` — guards of runs; in either a dispatcher that has ended
  holds nothing (`Steady.here_eq_nil`).
-/
import HoodMint.OutboxRuns

namespace Notifications

open Effect Relational Transition

/-! ### The invariant -/

/-- What the status of a row says of its claims. -/
def OutboxRow.Sound (wins : List (String × ℕ)) (r : OutboxRow) : Prop :=
  match r.status with
  | .pending => r.attempts < maxAttempts
  | .inflight => r.attempts ≤ maxAttempts
  | .sent => r.attempts ≤ maxAttempts ∧ (r.id, r.attempts) ∈ wins
  | .dead => r.attempts = maxAttempts ∧ (r.id, maxAttempts) ∉ wins
  | .failed => False

theorem OutboxRow.Sound.attempts_le {wins : List (String × ℕ)} {r : OutboxRow}
    (h : r.Sound wins) : r.attempts ≤ maxAttempts := by
  cases hs : r.status with
  | pending =>
    rw [OutboxRow.Sound, hs] at h
    exact h.le
  | inflight =>
    rw [OutboxRow.Sound, hs] at h
    exact h
  | sent =>
    rw [OutboxRow.Sound, hs] at h
    exact h.1
  | dead =>
    rw [OutboxRow.Sound, hs] at h
    exact h.1.le
  | failed =>
    rw [OutboxRow.Sound, hs] at h
    exact h.elim

/-- What is held is in flight, at the attempts it was claimed at. -/
def Hold.Backed (w : OutboxWorld) (h : Hold) : Prop :=
  ∃ r ∈ w.outbox, r.id = h.id ∧ r.status = .inflight ∧ r.attempts = h.attempts ∧
    (h.won = true ↔ (h.id, h.attempts) ∈ w.wins)

/-- The tables, and all that is held. -/
structure Consistent (w : OutboxWorld) (holds : List Hold) : Prop where
  keys : (w.outbox.rows.map OutboxRow.dedupeKey).Nodup
  rows : ∀ r ∈ w.outbox, r.attempts = w.claims r.id ∧ r.Sound w.wins
  known : ∀ id ∈ w.claimed, ∃ r ∈ w.outbox, r.id = id
  wins : ∀ e ∈ w.wins, e.2 ≤ w.claims e.1 ∧ ∃ a ∈ w.attempts, a.outboxId = e.1 ∧
    a.status = .success
  held : ∀ h ∈ holds, h.Backed w
  alone : (holds.map Hold.id).Nodup
  owned : ∀ r ∈ w.outbox, r.status = .inflight → ∃ h ∈ holds, h.id = r.id

namespace Consistent

variable {w : OutboxWorld} {holds holds' rest others : List Hold} {h : Hold}

theorem perm (hc : Consistent w holds) (hp : holds.Perm holds') : Consistent w holds' where
  keys := hc.keys
  rows := hc.rows
  known := hc.known
  wins := hc.wins
  held h hh := hc.held h (hp.mem_iff.mpr hh)
  alone := (hp.map Hold.id).nodup_iff.mp hc.alone
  owned r hr hs := by
    obtain ⟨h, hh, hid⟩ := hc.owned r hr hs
    exact ⟨h, hp.mem_iff.mp hh, hid⟩

/-- The row of an alert that is held. -/
theorem of_held (hc : Consistent w holds) (hh : h ∈ holds) {r : OutboxRow} (hr : r ∈ w.outbox)
    (hid : r.id = h.id) :
    r.status = .inflight ∧ r.attempts = h.attempts ∧
      (h.won = true ↔ (h.id, h.attempts) ∈ w.wins) := by
  obtain ⟨r₀, hr₀, hid₀, hbacked⟩ := hc.held h hh
  obtain rfl : r₀ = r := Table.eq_of_key hr₀ hr (hid₀.trans hid.symm)
  exact hbacked

/-- The other alerts held are other rows. -/
theorem ne_of_tail (hc : Consistent w (h :: rest)) {o : Hold} (ho : o ∈ rest) : o.id ≠ h.id :=
  fun heq => (List.nodup_cons.mp hc.alone).1 (heq ▸ List.mem_map_of_mem ho)

/-- What is asked about the first alert held is answered from its row. -/
theorem attemptsOf (hc : Consistent w holds) (hh : h ∈ holds) :
    w.outbox.attemptsOf h.id = some h.attempts := by
  obtain ⟨r, hr, hid, -, hattempts, -⟩ := hc.held h hh
  rw [Outbox.attemptsOf, Table.get?_eq_some.mpr ⟨hr, hid⟩, Option.map_some, hattempts]

/-- **Marking.**  The first alert held is given a status that says what has become of it. -/
theorem mark (hc : Consistent w (h :: rest)) (f : OutboxRow → OutboxRow)
    (hid : ∀ r, (f r).id = r.id) (hkey : ∀ r, (f r).dedupeKey = r.dedupeKey)
    (hattempts : ∀ r, (f r).attempts = r.attempts)
    (hsound : ∀ r ∈ w.outbox, r.id = h.id → (f r).status ≠ .inflight ∧ (f r).Sound w.wins) :
    Consistent { w with outbox := w.outbox.update (fun r => r.id = h.id) f hid } rest where
  keys := by
    rw [Table.map_update hkey]
    exact hc.keys
  rows r hr := by
    have hr : r ∈ w.outbox.update (fun r => r.id = h.id) f hid := hr
    rcases Table.update_cases hr with ⟨r₀, hr₀, hid₀, rfl⟩ | ⟨hr, -⟩
    · refine ⟨?_, (hsound r₀ hr₀ hid₀).2⟩
      rw [hattempts, hid]
      exact (hc.rows r₀ hr₀).1
    · exact hc.rows r hr
  known id hmem := by
    obtain ⟨r, hr, hid'⟩ := hc.known id hmem
    by_cases hp : r.id = h.id
    · have hmem : f r ∈ w.outbox.update (fun r => r.id = h.id) f hid :=
        Table.mem_update_of_pos hr hp
      exact ⟨f r, hmem, (hid r).trans hid'⟩
    · have hmem : r ∈ w.outbox.update (fun r => r.id = h.id) f hid :=
        Table.mem_update_of_neg hr hp
      exact ⟨r, hmem, hid'⟩
  wins := hc.wins
  held o ho := by
    obtain ⟨r, hr, hid', hbacked⟩ := hc.held o (List.mem_cons_of_mem _ ho)
    have hne : r.id ≠ h.id := fun heq => hc.ne_of_tail ho (hid'.symm.trans heq)
    have hmem : r ∈ w.outbox.update (fun r => r.id = h.id) f hid :=
      Table.mem_update_of_neg hr hne
    exact ⟨r, hmem, hid', hbacked⟩
  alone := (List.nodup_cons.mp hc.alone).2
  owned r hr hs := by
    have hr : r ∈ w.outbox.update (fun r => r.id = h.id) f hid := hr
    rcases Table.update_cases hr with ⟨r₀, hr₀, hid₀, rfl⟩ | ⟨hr, hne⟩
    · exact absurd hs (hsound r₀ hr₀ hid₀).1
    · obtain ⟨o, ho, hid'⟩ := hc.owned r hr hs
      rcases List.mem_cons.mp ho with rfl | ho
      · exact absurd hid'.symm hne
      · exact ⟨o, ho, hid'⟩

section

variable {now limit : ℤ} {alerts : List ClaimedAlert} {r : OutboxRow}

/-- A claimed row was pending, and is claimed once. -/
theorem of_claimable (h : w.outbox.Claimable now limit alerts) (hr : r ∈ w.outbox)
    (hmem : r.id ∈ alerts.map fun a => a.row.id) : r.status = .pending := by
  obtain ⟨a, ha, hid⟩ := List.mem_map.mp hmem
  obtain ⟨r₀, hr₀, hdue, hrow⟩ := h.2.2 a ha
  have hid₀ : r₀.id = r.id := by
    rw [← hid, hrow]
    rfl
  obtain rfl : r₀ = r := Table.eq_of_key hr₀ hr hid₀
  exact hdue.1

theorem claims_of_mem {ids : List String} {id : String} (hnodup : ids.Nodup) (hid : id ∈ ids) :
    { w with claimed := ids ++ w.claimed }.claims id = w.claims id + 1 := by
  show (ids ++ w.claimed).count id = w.claimed.count id + 1
  rw [List.count_append, List.count_eq_one_of_mem hnodup hid]
  omega

theorem claims_of_not_mem {ids : List String} {id : String} (hid : id ∉ ids) :
    { w with claimed := ids ++ w.claimed }.claims id = w.claims id := by
  show (ids ++ w.claimed).count id = w.claimed.count id
  rw [List.count_append, List.count_eq_zero_of_not_mem hid]
  omega

/-- A row after a claim is a claimed one, or as it was. -/
theorem claimed_cases (hr : r ∈ w.outbox.claimDueAlerts alerts) :
    (∃ r₀ ∈ w.outbox, r₀.id ∈ (alerts.map fun a => a.row.id) ∧ r = r₀.claim) ∨
      (r ∈ w.outbox ∧ r.id ∉ alerts.map fun a => a.row.id) :=
  Table.update_cases hr

theorem claim_mem (hr : r ∈ w.outbox) (hmem : r.id ∈ alerts.map fun a => a.row.id) :
    r.claim ∈ w.outbox.claimDueAlerts alerts :=
  Table.mem_update_of_pos hr hmem

theorem mem_of_not_claimed (hr : r ∈ w.outbox) (hnot : r.id ∉ alerts.map fun a => a.row.id) :
    r ∈ w.outbox.claimDueAlerts alerts :=
  Table.mem_update_of_neg hr hnot

/-- What is held is in flight, and is not claimed. -/
theorem not_claimed (hc : Consistent w others) (hclaim : w.outbox.Claimable now limit alerts)
    {o : Hold} (ho : o ∈ others) : o.id ∉ alerts.map fun a => a.row.id := by
  intro hmem
  obtain ⟨r, hr, hid, hstatus, -⟩ := hc.held o ho
  have hpending := of_claimable hclaim hr (hid ▸ hmem)
  rw [hstatus] at hpending
  exact OutboxStatus.noConfusion hpending

/-- Every row has been claimed as often as it says. -/
theorem rows_claim (hc : Consistent w others) (hclaim : w.outbox.Claimable now limit alerts)
    (hr : r ∈ w.outbox.claimDueAlerts alerts) :
    r.attempts =
        { w with claimed := alerts.map (fun a : ClaimedAlert => a.row.id) ++ w.claimed }.claims r.id ∧
      r.Sound w.wins := by
  rcases claimed_cases hr with ⟨r₀, hr₀, hmem, rfl⟩ | ⟨hr, hnot⟩
  · obtain ⟨hattempts, hsound⟩ := hc.rows r₀ hr₀
    have hpending := of_claimable hclaim hr₀ hmem
    rw [OutboxRow.Sound, hpending] at hsound
    have hclaims : r₀.claim.attempts = w.claims r₀.id + 1 := congrArg (· + 1) hattempts
    refine ⟨hclaims.trans (claims_of_mem (w := w) hclaim.1 hmem).symm, ?_⟩
    exact Nat.succ_le_of_lt hsound
  · obtain ⟨hattempts, hsound⟩ := hc.rows r hr
    exact ⟨hattempts.trans (claims_of_not_mem (w := w) hnot).symm, hsound⟩

theorem exists_of_claim (hr : r ∈ w.outbox) :
    ∃ r' ∈ w.outbox.claimDueAlerts alerts, r'.id = r.id := by
  by_cases hmem : r.id ∈ alerts.map fun a => a.row.id
  · exact ⟨r.claim, claim_mem hr hmem, rfl⟩
  · exact ⟨r, mem_of_not_claimed hr hmem, rfl⟩

/-- The row of an alert that has been claimed; no channel has taken it yet. -/
theorem held_claim (hc : Consistent w others) (hclaim : w.outbox.Claimable now limit alerts)
    {a : ClaimedAlert} (ha : a ∈ alerts) :
    ∃ r ∈ w.outbox, r.claim ∈ w.outbox.claimDueAlerts alerts ∧ r.id = a.row.id ∧
      r.claim.attempts = a.row.attempts ∧ (a.row.id, a.row.attempts) ∉ w.wins := by
  obtain ⟨r, hr, -, hrow⟩ := hclaim.2.2 a ha
  have hid : r.id = a.row.id := (congrArg OutboxRow.id hrow).symm
  have hmem : r.id ∈ alerts.map fun a => a.row.id := by
    rw [hid]
    exact List.mem_map_of_mem ha
  have hattempts : r.claim.attempts = a.row.attempts := (congrArg OutboxRow.attempts hrow).symm
  refine ⟨r, hr, claim_mem hr hmem, hid, hattempts, fun hwin => ?_⟩
  -- a success counts for a claim there has been, and this one has just begun
  have hle : a.row.attempts ≤ w.claims a.row.id := (hc.wins _ hwin).1
  have hcount := (hc.rows r hr).1
  have hnext : a.row.attempts = r.attempts + 1 := hattempts.symm
  rw [← hid] at hle
  omega

/-- **Claiming.**  A dispatcher that holds nothing comes to hold what it claims. -/
theorem claim (hc : Consistent w others) (hclaim : w.outbox.Claimable now limit alerts) :
    Consistent { w with
      outbox := w.outbox.claimDueAlerts alerts
      claimed := (alerts.map fun a => a.row.id) ++ w.claimed }
      (alerts.map ClaimedAlert.hold ++ others) where
  keys := by
    have hkeys : (w.outbox.claimDueAlerts alerts).rows.map OutboxRow.dedupeKey =
        w.outbox.rows.map OutboxRow.dedupeKey := Table.map_update fun _ => rfl
    exact hkeys ▸ hc.keys
  rows r hr := rows_claim hc hclaim hr
  known id hid := by
    have hknown : ∃ r ∈ w.outbox, r.id = id := by
      rcases List.mem_append.mp hid with hid | hid
      · obtain ⟨a, ha, rfl⟩ := List.mem_map.mp hid
        obtain ⟨r, hr, -, hid, -⟩ := held_claim hc hclaim ha
        exact ⟨r, hr, hid⟩
      · exact hc.known id hid
    obtain ⟨r, hr, rfl⟩ := hknown
    exact exists_of_claim hr
  wins e he := by
    obtain ⟨hle, hattempt⟩ := hc.wins e he
    refine ⟨hle.trans ?_, hattempt⟩
    show w.claimed.count e.1 ≤ (_ ++ w.claimed).count e.1
    rw [List.count_append]
    omega
  held h hh := by
    rcases List.mem_append.mp hh with hh | hh
    · obtain ⟨a, ha, rfl⟩ := List.mem_map.mp hh
      obtain ⟨r, -, hr, hid, hattempts, hwin⟩ := held_claim hc hclaim ha
      exact ⟨r.claim, hr, hid, rfl, hattempts, fun h => absurd h Bool.false_ne_true,
        fun h => absurd h hwin⟩
    · obtain ⟨r, hr, hid, hbacked⟩ := hc.held h hh
      exact ⟨r, mem_of_not_claimed hr (hid ▸ not_claimed hc hclaim hh), hid, hbacked⟩
  alone := by
    have hids : (alerts.map ClaimedAlert.hold).map Hold.id = alerts.map fun a => a.row.id := by
      rw [List.map_map]
      rfl
    rw [List.map_append, hids]
    refine List.Nodup.append hclaim.1 hc.alone ?_
    intro id hid hmem
    obtain ⟨o, ho, rfl⟩ := List.mem_map.mp hmem
    exact not_claimed hc hclaim ho hid
  owned r hr hs := by
    rcases claimed_cases hr with ⟨r₀, hr₀, hmem, rfl⟩ | ⟨hr, -⟩
    · obtain ⟨a, ha, hid⟩ := List.mem_map.mp hmem
      exact ⟨a.hold, List.mem_append_left _ (List.mem_map_of_mem ha), hid⟩
    · obtain ⟨o, ho, hid⟩ := hc.owned r hr hs
      exact ⟨o, List.mem_append_right _ ho, hid⟩

end

/-- **Recording.**  A result for the first alert held counts for its latest claim. -/
theorem record (hc : Consistent w (h :: rest)) {attempt : AttemptRow}
    (hid : attempt.outboxId = h.id) :
    Consistent (w.record attempt)
      ({ h with won := h.won || attempt.status = .success } :: rest) := by
  obtain ⟨row, hrow, hrowid, hinflight, hattempts, hwon⟩ := hc.held h List.mem_cons_self
  have hclaims : w.claims attempt.outboxId = h.attempts := by
    rw [hid, ← hrowid, ← (hc.rows row hrow).1, hattempts]
  have hwins : ∀ e, e ∈ (w.record attempt).wins ↔
      e ∈ w.wins ∨ (attempt.status = .success ∧ e = (h.id, h.attempts)) := by
    intro e
    show e ∈ (if attempt.status = .success then _ else _) ↔ _
    split
    · next hs =>
      rw [List.mem_cons, hclaims, hid]
      exact ⟨fun he => he.elim (fun he => Or.inr ⟨hs, he⟩) Or.inl,
        fun he => he.elim Or.inr fun he => Or.inl he.2⟩
    · next hs => exact ⟨Or.inl, fun he => he.resolve_right fun he => hs he.1⟩
  constructor
  · exact hc.keys
  · intro r hr
    obtain ⟨hcount, hsound⟩ := hc.rows r hr
    refine ⟨hcount, ?_⟩
    cases hstatus : r.status with
    | pending | inflight | failed =>
      rw [OutboxRow.Sound, hstatus] at hsound ⊢
      exact hsound
    | sent =>
      rw [OutboxRow.Sound, hstatus] at hsound ⊢
      exact ⟨hsound.1, (hwins _).mpr (Or.inl hsound.2)⟩
    | dead =>
      rw [OutboxRow.Sound, hstatus] at hsound ⊢
      refine ⟨hsound.1, fun he => ?_⟩
      rcases (hwins _).mp he with he | ⟨-, he⟩
      · exact hsound.2 he
      · -- what is held is in flight, and no dead row is
        have hinflight := (hc.of_held List.mem_cons_self hr (congrArg Prod.fst he)).1
        rw [hstatus] at hinflight
        exact OutboxStatus.noConfusion hinflight
  · exact hc.known
  · intro e he
    rcases (hwins e).mp he with he | ⟨hs, rfl⟩
    · obtain ⟨hle, a, ha, hsuccess⟩ := hc.wins e he
      exact ⟨hle, a, List.mem_cons_of_mem _ ha, hsuccess⟩
    · refine ⟨?_, attempt, List.mem_cons_self, hid, hs⟩
      show h.attempts ≤ w.claims h.id
      rw [← hclaims, hid]
  · intro o ho
    rcases List.mem_cons.mp ho with rfl | ho
    · refine ⟨row, hrow, hrowid, hinflight, hattempts, ?_⟩
      show (h.won || decide (attempt.status = .success)) = true ↔ (h.id, h.attempts) ∈ _
      rw [hwins, ← hwon, Bool.or_eq_true, decide_eq_true_iff, and_iff_left rfl]
    · obtain ⟨r, hr, hrid, hstatus, hatt, hwon'⟩ := hc.held o (List.mem_cons_of_mem _ ho)
      refine ⟨r, hr, hrid, hstatus, hatt, ?_⟩
      rw [hwon', hwins]
      refine ⟨Or.inl, fun he => he.resolve_right ?_⟩
      rintro ⟨-, he⟩
      exact hc.ne_of_tail ho (congrArg Prod.fst he)
  · exact hc.alone
  · intro r hr hs
    obtain ⟨o, ho, horid⟩ := hc.owned r hr hs
    rcases List.mem_cons.mp ho with rfl | ho
    · exact ⟨_, List.mem_cons_self, horid⟩
    · exact ⟨o, List.mem_cons_of_mem _ ho, horid⟩

/-- **Enqueueing.**  A new row has a key of its own. -/
theorem enqueueAlert (hc : Consistent w holds) {id : String} {now : ℤ}
    {input : EnqueueAlertInput} (hfresh : ¬ ∃ r ∈ w.outbox, r.id = id) :
    Consistent { w with outbox := w.outbox.enqueueAlert id now input } holds := by
  by_cases hkey : ∃ r ∈ w.outbox, r.dedupeKey = input.dedupeKey
  · rw [Outbox.enqueueAlert, if_pos hkey]
    exact hc
  rw [Outbox.enqueueAlert, if_neg hkey]
  generalize hnew : OutboxRow.mk id input.dedupeKey input.alertType input.walletId input.projectId
    input.stageId input.thresholdMinutes input.payload .pending 0 now none none none = new
  have hnone : ∀ r ∈ w.outbox, r.id ≠ new.id := fun r hr he => hfresh ⟨r, hr, by rw [he, ← hnew]⟩
  have hmem : ∀ r, r ∈ w.outbox.insert new ↔ r ∈ w.outbox ∨ r = new := by
    intro r
    rw [Table.mem_insert, and_iff_left hnone]
  constructor
  · show ((w.outbox.insert new).rows.map OutboxRow.dedupeKey).Nodup
    rw [Table.insert, dif_neg, List.map_cons, List.nodup_cons]
    · refine ⟨fun hdup => hkey ?_, hc.keys⟩
      obtain ⟨r, hr, he⟩ := List.mem_map.mp hdup
      exact ⟨r, hr, by rw [he, ← hnew]⟩
    · intro hdup
      obtain ⟨r, hr, he⟩ := List.mem_map.mp hdup
      exact hnone r hr he
  · intro r hr
    rcases (hmem r).mp hr with hr | rfl
    · exact hc.rows r hr
    · subst hnew
      have hclaims : w.claims id = 0 :=
        List.count_eq_zero_of_not_mem fun h => hfresh (hc.known id h)
      exact ⟨hclaims.symm, Nat.zero_lt_succ 5⟩
  · intro id' hid'
    obtain ⟨r, hr, he⟩ := hc.known id' hid'
    exact ⟨r, (hmem r).mpr (Or.inl hr), he⟩
  · exact hc.wins
  · intro h hh
    obtain ⟨r, hr, hbacked⟩ := hc.held h hh
    exact ⟨r, (hmem r).mpr (Or.inl hr), hbacked⟩
  · exact hc.alone
  · intro r hr hs
    rcases (hmem r).mp hr with hr | rfl
    · exact hc.owned r hr hs
    · subst hnew
      exact OutboxStatus.noConfusion hs

variable {here : List Hold} {c : Cmd} {x : Except Thrown c.Resp}

/-- The answers of the tables are those a dispatcher's turns assume. -/
theorem turns_allowed (hc : Consistent w (here ++ others)) (hx : outboxWorld.allowed w c x) :
    turns.allowed here c x := by
  cases c with
  | selectAttempts id =>
    cases x with
    | error => trivial
    | ok attempts =>
      rintro h hh rfl
      have hmem : h ∈ here ++ others := List.mem_append_left _ (List.mem_of_mem_head? hh)
      exact hx.trans (hc.attemptsOf hmem)
  | _ => trivial

/-- **A turn.**  Every command a dispatcher may issue keeps the tables consistent. -/
theorem next (hc : Consistent w (here ++ others)) (hguard : turns.guard here c)
    (hx : outboxWorld.allowed w c x) :
    Consistent (outboxWorld.next w c x) (turns.next here c x ++ others) := by
  cases c with
  | now | getCredentialSecret | sendTelegram | sendWebhook | sendDiscord | sendWebPush
  | selectAttempts | jitter => exact hc
  | claimDueAlerts now limit =>
    cases x with
    | error => exact hc
    | ok alerts =>
      obtain rfl : here = [] := hguard
      exact hc.claim hx
  | recordAttempt attempt =>
    cases x with
    | error => exact hc
    | ok =>
      obtain ⟨h, hh, hid⟩ := hguard
      obtain ⟨rest, rfl⟩ := List.head?_eq_some_iff.mp hh
      exact hc.record hid
  | updateSent id sentAt sanitizedResponse =>
    cases x with
    | error => exact hc
    | ok =>
      obtain ⟨h, hh, rfl, hwon⟩ := hguard
      obtain ⟨rest, rfl⟩ := List.head?_eq_some_iff.mp hh
      refine hc.mark (OutboxRow.markSent sentAt sanitizedResponse)
        (fun _ => rfl) (fun _ => rfl) (fun _ => rfl) fun r hr hid => ?_
      obtain ⟨hstatus, hattempts, hwins⟩ := hc.of_held List.mem_cons_self hr hid
      have hsound := (hc.rows r hr).2
      rw [OutboxRow.Sound, hstatus] at hsound
      refine ⟨OutboxStatus.noConfusion, hsound, ?_⟩
      show (r.id, r.attempts) ∈ w.wins
      rw [hid, hattempts]
      exact hwins.mp hwon
  | updateFailed id status nextAttemptAt errorCode sanitizedResponse =>
    cases x with
    | error => exact hc
    | ok =>
      obtain ⟨h, hh, rfl, hwon, rfl⟩ := hguard
      obtain ⟨rest, rfl⟩ := List.head?_eq_some_iff.mp hh
      refine hc.mark (OutboxRow.markFailed h.failed nextAttemptAt errorCode sanitizedResponse)
        (fun _ => rfl) (fun _ => rfl) (fun _ => rfl) fun r hr hid => ?_
      obtain ⟨hstatus, hattempts, hwins⟩ := hc.of_held List.mem_cons_self hr hid
      have hsound := (hc.rows r hr).2
      rw [OutboxRow.Sound, hstatus] at hsound
      have hlost : (r.id, r.attempts) ∉ w.wins := by
        rw [hid, hattempts]
        exact fun he => Bool.false_ne_true (hwon.symm.trans (hwins.mpr he))
      -- the sixth claim is the last one
      by_cases hdead : maxAttempts ≤ h.attempts
      · have hsix : r.attempts = maxAttempts := le_antisymm hsound (hattempts ▸ hdead)
        rw [Hold.failed, if_pos hdead]
        exact ⟨OutboxStatus.noConfusion, hsix, hsix ▸ hlost⟩
      · rw [Hold.failed, if_neg hdead]
        refine ⟨OutboxStatus.noConfusion, ?_⟩
        show r.attempts < maxAttempts
        rw [hattempts]
        exact Nat.lt_of_not_le hdead

end Consistent

/-! ### What a command does to the rows -/

/-- A command leaves the outbox alone, or claims for a dispatcher that holds nothing, or marks
the first alert held. -/
inductive Turn (w w' : OutboxWorld) : List Hold → List Hold → Prop
  | quiet {here here' : List Hold} (outbox : w'.outbox = w.outbox)
      (claimed : w'.claimed = w.claimed) (ids : here'.map Hold.id = here.map Hold.id) :
      Turn w w' here here'
  | claim {now limit : ℤ} {alerts : List ClaimedAlert}
      (claimable : w.outbox.Claimable now limit alerts)
      (outbox : w'.outbox = w.outbox.claimDueAlerts alerts)
      (claimed : w'.claimed = (alerts.map fun a => a.row.id) ++ w.claimed) :
      Turn w w' [] (alerts.map ClaimedAlert.hold)
  | mark {h : Hold} {rest : List Hold} (f : OutboxRow → OutboxRow)
      (hid : ∀ r, (f r).id = r.id) (key : ∀ r, (f r).dedupeKey = r.dedupeKey)
      (moves : ∀ r, Moves .inflight (f r).status)
      (outbox : w'.outbox = w.outbox.update (fun r => r.id = h.id) f hid)
      (claimed : w'.claimed = w.claimed) : Turn w w' (h :: rest) rest

theorem turn_next {w : OutboxWorld} {here : List Hold} {c : Cmd} {x : Except Thrown c.Resp}
    (hguard : turns.guard here c) (hx : outboxWorld.allowed w c x) :
    Turn w (outboxWorld.next w c x) here (turns.next here c x) := by
  cases c with
  | now | getCredentialSecret | sendTelegram | sendWebhook | sendDiscord | sendWebPush
  | selectAttempts | jitter => exact .quiet rfl rfl rfl
  | claimDueAlerts now limit =>
    cases x with
    | error => exact .quiet rfl rfl rfl
    | ok alerts =>
      obtain rfl : here = [] := hguard
      exact .claim hx rfl rfl
  | recordAttempt attempt =>
    cases x with
    | error => exact .quiet rfl rfl rfl
    | ok =>
      obtain ⟨h, hh, -⟩ := hguard
      obtain ⟨rest, rfl⟩ := List.head?_eq_some_iff.mp hh
      exact .quiet rfl rfl rfl
  | updateSent id sentAt sanitizedResponse =>
    cases x with
    | error => exact .quiet rfl rfl rfl
    | ok =>
      obtain ⟨h, hh, rfl, -⟩ := hguard
      obtain ⟨rest, rfl⟩ := List.head?_eq_some_iff.mp hh
      exact .mark (OutboxRow.markSent sentAt sanitizedResponse) (fun _ => rfl) (fun _ => rfl)
        (fun _ => .send) rfl rfl
  | updateFailed id status nextAttemptAt errorCode sanitizedResponse =>
    cases x with
    | error => exact .quiet rfl rfl rfl
    | ok =>
      obtain ⟨h, hh, rfl, -, rfl⟩ := hguard
      obtain ⟨rest, rfl⟩ := List.head?_eq_some_iff.mp hh
      have hmoves : Moves .inflight h.failed := by
        rw [Hold.failed]
        split
        · exact .die
        · exact .retry
      exact .mark (OutboxRow.markFailed h.failed nextAttemptAt errorCode sanitizedResponse)
        (fun _ => rfl) (fun _ => rfl) (fun _ => hmoves) rfl rfl

namespace Turn

variable {w w' : OutboxWorld} {here here' others : List Hold}

/-- Every row stays or moves. -/
theorem follows (ht : Turn w w' here here') (hc : Consistent w (here ++ others)) :
    w.outbox.Images Follows w'.outbox := by
  cases ht with
  | quiet outbox =>
    rw [outbox]
    exact Table.images_refl fun r _ => .refl r
  | claim claimable outbox =>
    rw [outbox]
    refine Table.images_update (fun r hr hp => ⟨rfl, rfl, Or.inr ?_⟩) fun r _ _ => .refl r
    rw [Consistent.of_claimable claimable hr hp]
    exact .claim
  | @mark h rest f hid key moves outbox =>
    rw [outbox]
    refine Table.images_update (fun r hr hp => ⟨hid r, key r, Or.inr ?_⟩) fun r _ _ => .refl r
    rw [(hc.of_held List.mem_cons_self hr hp).1]
    exact moves r

/-- What is claimed was pending. -/
theorem pending_of_claimed (ht : Turn w w' here here') {id : String}
    (hlt : w.claims id < w'.claims id) : ∃ r ∈ w.outbox, r.id = id ∧ r.status = .pending := by
  cases ht with
  | quiet _ claimed =>
    rw [OutboxWorld.claims, OutboxWorld.claims, claimed] at hlt
    exact absurd hlt (lt_irrefl _)
  | mark _ _ _ _ _ claimed =>
    rw [OutboxWorld.claims, OutboxWorld.claims, claimed] at hlt
    exact absurd hlt (lt_irrefl _)
  | @claim now limit alerts claimable outbox claimed =>
    have hmem : id ∈ alerts.map fun a => a.row.id := by
      by_contra hnot
      rw [OutboxWorld.claims, OutboxWorld.claims, claimed, List.count_append,
        List.count_eq_zero_of_not_mem hnot] at hlt
      omega
    obtain ⟨a, ha, rfl⟩ := List.mem_map.mp hmem
    obtain ⟨r, hr, hdue, hrow⟩ := claimable.2.2 a ha
    exact ⟨r, hr, (congrArg OutboxRow.id hrow).symm, hdue.1⟩

/-- A row in flight that is not held here stays as it is, and does not come to be held here. -/
theorem of_not_held (ht : Turn w w' here here') {r : OutboxRow} (hr : r ∈ w.outbox)
    (hs : r.status = .inflight) (hnot : r.id ∉ here.map Hold.id) :
    r ∈ w'.outbox ∧ r.id ∉ here'.map Hold.id := by
  cases ht with
  | quiet outbox _ ids =>
    rw [outbox, ids]
    exact ⟨hr, hnot⟩
  | @claim now limit alerts claimable outbox =>
    have hfree : r.id ∉ alerts.map fun a => a.row.id := by
      intro hmem
      have hpending := Consistent.of_claimable claimable hr hmem
      rw [hs] at hpending
      exact OutboxStatus.noConfusion hpending
    rw [outbox, List.map_map]
    exact ⟨Table.mem_update_of_neg hr hfree, hfree⟩
  | @mark h rest f hid _ _ outbox =>
    rw [List.map_cons, List.mem_cons, not_or] at hnot
    rw [outbox]
    exact ⟨Table.mem_update_of_neg hr hnot.1, hnot.2⟩

end Turn

/-! ### Runs -/

namespace OutboxRun

variable {iso : ℤ → String} {s s' : OutboxRun} {l : OutboxStep}

/-- All that the dispatchers hold. -/
def held (s : OutboxRun) : List Hold := s.dispatchers.flatMap Task.here

/-- Every dispatcher keeps to its turns, and the tables are consistent. -/
structure Ok (s : OutboxRun) : Prop where
  safe : ∀ t ∈ s.dispatchers, t.Safe turns (Prog.onReturn fun _ here => here = [])
  consistent : Consistent s.world s.held

/-- What is held, when it is the turn of the `i`-th dispatcher. -/
theorem held_perm {i : ℕ} {t : DispatchTask} (hi : s.dispatchers[i]? = some t) :
    s.held.Perm (t.here ++ (s.dispatchers.eraseIdx i).flatMap Task.here) := by
  obtain ⟨hlt, rfl⟩ := List.getElem?_eq_some_iff.mp hi
  exact ((List.getElem_cons_eraseIdx_perm hlt).flatMap_right Task.here).symm

theorem held_set_perm {i : ℕ} {t : DispatchTask} (hi : s.dispatchers[i]? = some t)
    (t' : DispatchTask) :
    ((s.dispatchers.set i t').flatMap Task.here).Perm
      (t'.here ++ (s.dispatchers.eraseIdx i).flatMap Task.here) :=
  (List.set_perm_cons_eraseIdx (List.getElem?_eq_some_iff.mp hi).1 t').flatMap_right Task.here

/-- **The step.**  Failures included. -/
theorem Ok.step (hok : s.Ok) (h : s.step iso l = some s') : s'.Ok := by
  cases l with
  | enqueueAlert id now input =>
    rw [OutboxRun.step] at h
    split at h
    · exact absurd h.symm (Option.some_ne_none _)
    · next hfresh =>
      obtain rfl := Option.some_inj.mp h
      exact ⟨hok.safe, hok.consistent.enqueueAlert hfresh⟩
  | dispatch deps =>
    obtain rfl := Option.some_inj.mp h
    constructor
    · intro t ht
      exact of_mem_enter ht hok.safe (dispatchDueAlerts_turns deps iso)
    · have hheld : s.dispatchers.flatMap Task.here ++ [] = s.held := List.append_nil _
      show Consistent s.world (List.flatMap Task.here (s.dispatchers ++ _))
      rw [List.flatMap_append]
      exact hheld ▸ hok.consistent
  | advance i answer =>
    obtain ⟨c, k, here, hi, hx, rfl⟩ := step_advance_cases h
    have hc := hok.consistent.perm (held_perm hi)
    obtain ⟨hguard, hsafe⟩ := safe_advance hi hok.safe (hc.turns_allowed hx)
    have hset := held_set_perm hi ⟨k (answer c), turns.next here c (answer c)⟩
    exact ⟨hsafe, (hc.next hguard hx).perm hset.symm⟩

theorem ok_start : start.Ok where
  safe _ ht := absurd ht List.not_mem_nil
  consistent :=
    { keys := List.nodup_nil
      rows := fun _ hr => absurd hr List.not_mem_nil
      known := fun _ hid => absurd hid List.not_mem_nil
      wins := fun _ he => absurd he List.not_mem_nil
      held := fun _ hh => absurd hh List.not_mem_nil
      alone := List.nodup_nil
      owned := fun _ hr => absurd hr List.not_mem_nil }

theorem ok_of_reach {φ : OutboxRun → OutboxStep → Prop} (h : Reach (step iso) φ start s) : s.Ok :=
  h.invariant ok_start fun _ _ _ _ hok _ hstep => hok.step hstep

/-! ### Failures -/

/-- No command fails. -/
def NothingFails (s : OutboxRun) : OutboxStep → Prop
  | .advance i answer => AtCommand s.dispatchers i answer fun _ _ x => x.isOk = true
  | _ => True

/-- No command of a dispatcher that holds an alert fails. -/
def FailsEmptyHanded (s : OutboxRun) : OutboxStep → Prop
  | .advance i answer => AtCommand s.dispatchers i answer fun here _ x => here = [] ∨ x.isOk = true
  | _ => True

instance (s : OutboxRun) : DecidablePred s.NothingFails := fun l =>
  match l with
  | .advance i answer =>
    (inferInstance : Decidable (AtCommand s.dispatchers i answer fun _ _ x => x.isOk = true))
  | .enqueueAlert .. | .dispatch _ => isTrue trivial

theorem NothingFails.emptyHanded (h : s.NothingFails l) : s.FailsEmptyHanded l := by
  cases l with
  | enqueueAlert => trivial
  | dispatch => trivial
  | advance i answer =>
    rw [NothingFails, AtCommand] at h
    rw [FailsEmptyHanded, AtCommand]
    split at h
    · exact Or.inr h
    · trivial

/-- A dispatcher goes on, or has failed with nothing in hand. -/
def Steady (t : DispatchTask) : Prop := t.prog.Plain ∨ (∃ e, t.prog = .fail e) ∧ t.here = []

/-- A dispatcher that has ended holds nothing. -/
theorem Steady.here_eq_nil {t : DispatchTask} (h : Steady t) (hd : t.Done)
    (hsafe : t.Safe turns (Prog.onReturn fun _ here => here = [])) : t.here = [] := by
  rcases h with h | ⟨-, h⟩
  · obtain ⟨p, here⟩ := t
    cases p with
    | ret a => exact hsafe
    | fail e => exact absurd h id
    | call c k => exact absurd hd id
  · exact h

theorem Steady.step (hs : ∀ t ∈ s.dispatchers, Steady t) (hl : s.FailsEmptyHanded l)
    (h : s.step iso l = some s') : ∀ t ∈ s'.dispatchers, Steady t := by
  cases l with
  | enqueueAlert id now input =>
    rw [OutboxRun.step] at h
    split at h
    · exact absurd h.symm (Option.some_ne_none _)
    · obtain rfl := Option.some_inj.mp h
      exact hs
  | dispatch deps =>
    obtain rfl := Option.some_inj.mp h
    intro t ht
    exact of_mem_enter ht hs (Or.inl (dispatchDueAlerts_plain deps iso))
  | advance i answer =>
    obtain ⟨c, k, here, hi, -, rfl⟩ := step_advance_cases h
    rw [FailsEmptyHanded, atCommand_iff hi] at hl
    intro t ht
    rcases List.mem_or_eq_of_mem_set ht with ht | rfl
    · exact hs t ht
    rcases hs _ (List.mem_of_getElem? hi) with ⟨hok, herr⟩ | ⟨⟨e, he⟩, -⟩
    · generalize answer c = x at hl ⊢
      cases x with
      | ok a => exact Or.inl (hok a)
      | error e =>
        obtain rfl := hl.resolve_right Bool.false_ne_true
        refine Or.inr ⟨⟨e, herr e⟩, ?_⟩
        cases c <;> rfl
    · cases he

theorem steady_of_reach (h : Reach (step iso) FailsEmptyHanded start s) :
    ∀ t ∈ s.dispatchers, Steady t :=
  h.invariant (fun _ ht => absurd ht List.not_mem_nil)
    fun _ _ _ _ hs hl hstep => Steady.step hs hl hstep

end OutboxRun

end Notifications
