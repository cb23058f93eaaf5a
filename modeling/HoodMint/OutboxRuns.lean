/-
Dispatchers side by side on one outbox.

* `Hold` — an alert a dispatcher has claimed and not yet marked; `turns` — what it does with
  those it holds, as a monitor of its own commands;
* `dispatchDueAlerts_turns` — a dispatcher marks what it holds in turn, each as its attempts
  demand, and holds nothing when it returns;
* `OutboxWorld`, `outboxWorld` — the tables, with what has been claimed and what has succeeded;
* `OutboxRun`, `step` — the system: enqueues, and dispatchers interleaving at every command.
-/
import HoodMint.AlertDispatch
import HoodMint.Lib.Interleave
import HoodMint.Lib.Transition

namespace Notifications

open Effect Relational Transition

/-! ### What a dispatcher holds -/

/-- A claimed alert, the attempts it was claimed at and whether a channel has taken it since. -/
structure Hold where
  id : String
  attempts : ℕ
  won : Bool
deriving DecidableEq

/-- An alert as it is claimed. -/
def ClaimedAlert.hold (alert : ClaimedAlert) : Hold := ⟨alert.row.id, alert.row.attempts, false⟩

/-- What becomes of an alert no channel has taken. -/
def Hold.failed (h : Hold) : OutboxStatus := if maxAttempts ≤ h.attempts then .dead else .pending

/-- A dispatcher claims once, and then works on the first alert it holds: it records attempts
for it and marks it as they demand.  The attempts it reads are those the alert was claimed at. -/
def turns : Monitor signature Thrown (List Hold) where
  guard holds c :=
    match c with
    | .claimDueAlerts .. => holds = []
    | .recordAttempt attempt => ∃ h ∈ holds.head?, attempt.outboxId = h.id
    | .updateSent id _ _ => ∃ h ∈ holds.head?, id = h.id ∧ h.won = true
    | .updateFailed id status _ _ _ =>
      ∃ h ∈ holds.head?, id = h.id ∧ h.won = false ∧ status = h.failed
    | _ => True
  allowed holds c x :=
    match c, x with
    | .selectAttempts id, .ok attempts => ∀ h ∈ holds.head?, id = h.id → attempts = some h.attempts
    | _, _ => True
  next holds c x :=
    match c, x with
    | .claimDueAlerts .., .ok alerts => alerts.map ClaimedAlert.hold
    | .recordAttempt attempt, .ok _ =>
      holds.modifyHead fun h => { h with won := h.won || attempt.status = .success }
    | .updateSent .., .ok _ => holds.tail
    | .updateFailed .., .ok _ => holds.tail
    | _, _ => holds

/-- The commands that change nothing in the tables. -/
def Cmd.Quiet : Cmd → Prop
  | .now | .getCredentialSecret _ | .sendTelegram .. | .sendWebhook .. | .sendDiscord ..
  | .sendWebPush .. => True
  | _ => False

theorem maintains_quiet (P : List Hold → Prop) : turns.Maintains Cmd.Quiet P := by
  intro holds c hc hP
  cases c with
  | now | getCredentialSecret | sendTelegram | sendWebhook | sendDiscord | sendWebPush =>
    exact ⟨trivial, fun x _ => hP⟩
  | claimDueAlerts | recordAttempt | updateSent | selectAttempts | jitter | updateFailed =>
    exact absurd hc id

section

variable {deps : DispatchDeps} {iso : ℤ → String} {alert : ClaimedAlert}

theorem sendTo_quiet (channel : ClaimedChannel) :
    (sendTo deps iso alert channel).Only Cmd.Quiet := by
  have hsecret : (channelSecret channel).Only Cmd.Quiet := by
    rw [channelSecret]
    split
    · exact Prog.Only.issue trivial
    · exact Prog.Only.pure _
  have hembed : (embedOf iso alert).Only Cmd.Quiet := by
    rw [embedOf]
    split
    · exact Prog.Only.pure _
    · exact Prog.Only.bind (Prog.Only.issue trivial) fun _ => Prog.Only.pure _
  rw [sendTo]
  split
  · refine Prog.Only.bind hsecret fun secret => ?_
    split
    · exact Prog.Only.bind (Prog.Only.issue trivial) fun _ => Prog.Only.pure _
    · exact Prog.Only.pure _
  · refine Prog.Only.bind hsecret fun secret => ?_
    split
    · exact Prog.Only.bind (Prog.Only.issue trivial) fun _ => Prog.Only.pure _
    · exact Prog.Only.pure _
  · refine Prog.Only.bind hsecret fun secret => Prog.Only.bind hembed fun embed => ?_
    split
    · exact Prog.Only.bind (Prog.Only.issue trivial) fun _ => Prog.Only.pure _
    · exact Prog.Only.pure _
  · split
    · exact Prog.Only.bind (Prog.Only.issue trivial) fun _ => Prog.Only.pure _
    · exact Prog.Only.pure _

/-- Each delivery is recorded for the first alert held, which has been taken by a channel when
one of the results says so. -/
theorem deliver_turns {id : String} {attempts : ℕ} {holds : List Hold}
    (hid : alert.row.id = id) (channels : List ClaimedChannel) (won : Bool) (lastError : String) :
    (deliver deps iso alert channels won lastError).wp turns
      (Prog.onReturn fun r holds' => holds' = ⟨id, attempts, r.1⟩ :: holds)
      (⟨id, attempts, won⟩ :: holds) := by
  induction channels generalizing won lastError with
  | nil => rfl
  | cons channel channels ih =>
    refine Prog.onReturn_bind (P := fun _ holds' => holds' = ⟨id, attempts, won⟩ :: holds)
      (Prog.wp_mono ((sendTo_quiet channel).wp_of
        (maintains_quiet (· = ⟨id, attempts, won⟩ :: holds)) rfl) ?_) ?_
    · rintro (e | r) holds' h
      · trivial
      · exact h
    · rintro result _ rfl
      refine Prog.onReturn_issue_bind ⟨_, rfl, hid⟩ fun _ _ => ?_
      -- the result of this channel is the one recorded
      cases hok : (result.getD misconfigured).ok with
      | true =>
        have hnext : turns.next (⟨id, attempts, won⟩ :: holds) (.recordAttempt
            ⟨alert.row.id, channel.kind, .success, (result.getD misconfigured).latencyMs,
              (result.getD misconfigured).errorCode,
              (result.getD misconfigured).sanitizedResponse⟩) (.ok ()) =
            ⟨id, attempts, true⟩ :: holds := by
          show (⟨id, attempts, won || true⟩ :: holds : List Hold) = _
          rw [Bool.or_true]
        show Prog.wp turns (if (true : Bool) = true then _ else _) _ _
        rw [if_pos rfl, if_pos rfl, hnext]
        exact ih true lastError
      | false =>
        have hnext : turns.next (⟨id, attempts, won⟩ :: holds) (.recordAttempt
            ⟨alert.row.id, channel.kind, .failure, (result.getD misconfigured).latencyMs,
              (result.getD misconfigured).errorCode,
              (result.getD misconfigured).sanitizedResponse⟩) (.ok ()) =
            ⟨id, attempts, won⟩ :: holds := by
          show (⟨id, attempts, won || false⟩ :: holds : List Hold) = _
          rw [Bool.or_false]
        show Prog.wp turns (if (false : Bool) = true then _ else _) _ _
        rw [if_neg Bool.false_ne_true, if_neg Bool.false_ne_true, hnext]
        exact ih won _

theorem markAlertSent_turns {h : Hold} {holds : List Hold} (hwon : h.won = true)
    (sanitizedResponse : Option String) :
    (markAlertSent h.id sanitizedResponse).wp turns (Prog.onReturn fun _ holds' => holds' = holds)
      (h :: holds) :=
  Prog.onReturn_issue_bind trivial fun _ _ =>
    Prog.onReturn_issue ⟨h, rfl, rfl, hwon⟩ fun _ _ => rfl

/-- Whether the alert is dead is decided by the attempts it was claimed at. -/
theorem markAlertFailed_turns {h : Hold} {holds : List Hold} (hwon : h.won = false)
    (errorCode : String) (sanitizedResponse : Option String) :
    (markAlertFailed h.id errorCode sanitizedResponse).wp turns
      (Prog.onReturn fun _ holds' => holds' = holds) (h :: holds) := by
  refine Prog.onReturn_issue_bind trivial fun attempts hread => ?_
  obtain rfl : attempts = some h.attempts := hread h rfl rfl
  show Prog.wp turns (if h.attempts ≥ maxAttempts then _ else _) _ _
  split
  · next hdead =>
    refine Prog.onReturn_issue ⟨h, rfl, rfl, hwon, ?_⟩ fun _ _ => rfl
    rw [Hold.failed, if_pos hdead]
  · next hdead =>
    refine Prog.onReturn_issue_bind trivial fun now _ => ?_
    refine Prog.onReturn_issue_bind trivial fun delay _ => ?_
    refine Prog.onReturn_issue ⟨h, rfl, rfl, hwon, ?_⟩ fun _ _ => rfl
    rw [Hold.failed, if_neg hdead]

theorem dispatchAlert_turns (alert : ClaimedAlert) (holds : List Hold) :
    (dispatchAlert deps iso alert).wp turns (Prog.onReturn fun _ holds' => holds' = holds)
      (alert.hold :: holds) := by
  refine Prog.onReturn_bind (deliver_turns rfl alert.channels false "no_channels") ?_
  rintro ⟨anySuccess, lastError⟩ _ rfl
  show Prog.wp turns (if anySuccess = true then _ else _) _ _
  split
  · next hwon =>
    exact Prog.onReturn_bind (markAlertSent_turns hwon _) fun _ _ h => h
  · next hwon =>
    exact Prog.onReturn_bind (markAlertFailed_turns (Bool.eq_false_iff.mpr hwon) _ _)
      fun _ _ h => h

theorem dispatchAlerts_turns (alerts : List ClaimedAlert) :
    (dispatchAlerts deps iso alerts).wp turns (Prog.onReturn fun _ holds => holds = [])
      (alerts.map ClaimedAlert.hold) := by
  induction alerts with
  | nil => rfl
  | cons alert alerts ih =>
    refine Prog.onReturn_bind (dispatchAlert_turns alert _) ?_
    rintro sent _ rfl
    exact Prog.onReturn_bind ih fun _ _ h => h

/-- **A dispatcher's turns.**  What it claims it marks, unless something fails. -/
theorem dispatchDueAlerts_turns (deps : DispatchDeps) (iso : ℤ → String) :
    (dispatchDueAlerts deps iso).wp turns (Prog.onReturn fun _ holds => holds = []) [] := by
  refine Prog.onReturn_issue_bind trivial fun now _ => ?_
  refine Prog.onReturn_issue_bind rfl fun alerts _ => ?_
  exact Prog.onReturn_bind (dispatchAlerts_turns alerts) fun _ _ h => h

end

/-! ### A dispatcher catches nothing -/

section

open Prog

variable {deps : DispatchDeps} {iso : ℤ → String}

theorem sendTo_plain (alert : ClaimedAlert) (channel : ClaimedChannel) :
    (sendTo deps iso alert channel).Plain := by
  have hsecret : (channelSecret channel).Plain := by
    rw [channelSecret]
    split
    · exact Plain.issue _
    · exact Plain.pure _
  have hembed : (embedOf iso alert).Plain := by
    rw [embedOf]
    split
    · exact Plain.pure _
    · exact (Plain.issue _).bind fun _ => Plain.pure _
  rw [sendTo]
  split
  · refine hsecret.bind fun secret => ?_
    split
    · exact (Plain.issue _).map
    · exact Plain.pure _
  · refine hsecret.bind fun secret => ?_
    split
    · exact (Plain.issue _).map
    · exact Plain.pure _
  · refine hsecret.bind fun secret => hembed.bind fun embed => ?_
    split
    · exact (Plain.issue _).map
    · exact Plain.pure _
  · split
    · exact (Plain.issue _).map
    · exact Plain.pure _

theorem deliver_plain (alert : ClaimedAlert) (channels : List ClaimedChannel) (won : Bool)
    (lastError : String) : (deliver deps iso alert channels won lastError).Plain := by
  induction channels generalizing won lastError with
  | nil => exact Plain.pure _
  | cons channel channels ih =>
    refine (sendTo_plain alert channel).bind fun result => (Plain.issue _).bind fun _ => ?_
    split
    · exact ih _ _
    · exact ih _ _

theorem markAlertSent_plain (id : String) (sanitizedResponse : Option String) :
    (markAlertSent id sanitizedResponse).Plain :=
  (Plain.issue _).bind fun _ => Plain.issue _

theorem markAlertFailed_plain (id errorCode : String) (sanitizedResponse : Option String) :
    (markAlertFailed id errorCode sanitizedResponse).Plain := by
  refine (Plain.issue _).bind fun attempts => ?_
  show (if attempts.getD 0 ≥ maxAttempts then _ else _ : Dispatcher Unit).Plain
  split
  · exact Plain.issue _
  · exact (Plain.issue _).bind fun now => (Plain.issue _).bind fun delay => Plain.issue _

theorem dispatchAlert_plain (alert : ClaimedAlert) : (dispatchAlert deps iso alert).Plain := by
  refine (deliver_plain alert alert.channels false "no_channels").bind ?_
  rintro ⟨anySuccess, lastError⟩
  show (if anySuccess = true then _ else _ : Dispatcher Bool).Plain
  split
  · exact (markAlertSent_plain _ _).bind fun _ => Plain.pure _
  · exact (markAlertFailed_plain _ _ _).bind fun _ => Plain.pure _

theorem dispatchAlerts_plain (alerts : List ClaimedAlert) :
    (dispatchAlerts deps iso alerts).Plain := by
  induction alerts with
  | nil => exact Plain.pure _
  | cons alert alerts ih =>
    exact (dispatchAlert_plain alert).bind fun sent => ih.bind fun others => Plain.pure _

theorem dispatchDueAlerts_plain (deps : DispatchDeps) (iso : ℤ → String) :
    (dispatchDueAlerts deps iso).Plain :=
  (Plain.issue _).bind fun _ => (Plain.issue _).bind fun alerts =>
    (dispatchAlerts_plain alerts).bind fun _ => Plain.pure _

end

/-! ### The tables -/

/-- The tables; `claimed` names an alert once for every claim of it, and `wins` the claims in
which a channel has taken the alert. -/
structure OutboxWorld where
  outbox : Outbox
  attempts : List AttemptRow
  claimed : List String
  wins : List (String × ℕ)

namespace OutboxWorld

/-- How often an alert has been claimed. -/
def claims (w : OutboxWorld) (id : String) : ℕ := w.claimed.count id

/-- `recordAttempt`. -/
def record (w : OutboxWorld) (attempt : AttemptRow) : OutboxWorld :=
  { w with
    attempts := attempt :: w.attempts
    wins := if attempt.status = .success then
      (attempt.outboxId, w.claims attempt.outboxId) :: w.wins else w.wins }

end OutboxWorld

/-- The tables answer what they hold; anything may fail, and has then changed nothing. -/
def outboxWorld : Monitor signature Thrown OutboxWorld where
  guard _ _ := True
  allowed w c x :=
    match c, x with
    | .claimDueAlerts now limit, .ok alerts => w.outbox.Claimable now limit alerts
    | .selectAttempts id, .ok attempts => attempts = w.outbox.attemptsOf id
    | .jitter base, .ok delay => 0 ≤ delay ∧ delay < base
    | _, _ => True
  next w c x :=
    match c, x with
    | .claimDueAlerts .., .ok alerts =>
      { w with
        outbox := w.outbox.claimDueAlerts alerts
        claimed := (alerts.map fun a => a.row.id) ++ w.claimed }
    | .recordAttempt attempt, .ok _ => w.record attempt
    | .updateSent id sentAt sanitizedResponse, .ok _ =>
      { w with outbox := w.outbox.updateSent id sentAt sanitizedResponse }
    | .updateFailed id status nextAttemptAt errorCode sanitizedResponse, .ok _ =>
      { w with
        outbox := w.outbox.updateFailed id status nextAttemptAt errorCode sanitizedResponse }
    | _, _ => w

instance (w : OutboxWorld) (c : Cmd) (x : Except Thrown c.Resp) :
    Decidable (outboxWorld.allowed w c x) := by
  induction c using Cmd.casesOn with
  | claimDueAlerts now limit =>
    exact match x with
      | .error _ => isTrue trivial
      | .ok alerts => (inferInstance : Decidable (w.outbox.Claimable now limit alerts))
  | selectAttempts id =>
    exact match x with
      | .error _ => isTrue trivial
      | .ok attempts => (inferInstance : Decidable (attempts = w.outbox.attemptsOf id))
  | jitter base =>
    exact match x with
      | .error _ => isTrue trivial
      | .ok delay => (inferInstance : Decidable (0 ≤ delay ∧ delay < base))
  | _ => exact isTrue trivial

/-! ### The system -/

abbrev DispatchTask := Task signature Thrown DispatchSummary (List Hold)

/-- The tables, and the dispatchers that have been started. -/
structure OutboxRun where
  world : OutboxWorld
  dispatchers : List DispatchTask

/-- An alert is enqueued, a dispatcher started, or one of a dispatcher's commands answered. -/
inductive OutboxStep
  | enqueueAlert (id : String) (now : ℤ) (input : EnqueueAlertInput)
  | dispatch (deps : DispatchDeps)
  | advance (i : ℕ) (answer : (c : Cmd) → Except Thrown c.Resp)

namespace OutboxRun

/-- One step; identifiers are not drawn twice. -/
def step (iso : ℤ → String) (s : OutboxRun) : OutboxStep → Option OutboxRun
  | .enqueueAlert id now input =>
    if ∃ r ∈ s.world.outbox, r.id = id then none
    else some ⟨{ s.world with outbox := s.world.outbox.enqueueAlert id now input }, s.dispatchers⟩
  | .dispatch deps => some ⟨s.world, s.dispatchers ++ [⟨dispatchDueAlerts deps iso, []⟩]⟩
  | .advance i answer =>
    (advance outboxWorld turns s.world s.dispatchers i answer).map fun r => ⟨r.1, r.2⟩

/-- Nothing enqueued. -/
def start : OutboxRun := ⟨⟨.empty, [], [], []⟩, []⟩

/-- A command of a dispatcher. -/
theorem step_advance_cases {iso : ℤ → String} {s s' : OutboxRun} {i : ℕ}
    {answer : (c : Cmd) → Except Thrown c.Resp} (h : s.step iso (.advance i answer) = some s') :
    ∃ c k here, s.dispatchers[i]? = some ⟨.call c k, here⟩ ∧
      outboxWorld.allowed s.world c (answer c) ∧
      s' = ⟨outboxWorld.next s.world c (answer c),
        s.dispatchers.set i ⟨k (answer c), turns.next here c (answer c)⟩⟩ := by
  obtain ⟨⟨w', ts'⟩, ha, rfl⟩ := Option.map_eq_some_iff.mp h
  obtain ⟨c, k, here, hi, hx, rfl, rfl⟩ := advance_cases ha
  exact ⟨c, k, here, hi, hx, rfl⟩

/-- The `i`-th dispatcher holds the alert. -/
def Holds (s : OutboxRun) (i : ℕ) (id : String) : Prop :=
  ∃ t, s.dispatchers[i]? = some t ∧ ∃ h ∈ t.here, h.id = id

end OutboxRun

end Notifications
