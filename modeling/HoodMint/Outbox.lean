/-
The notification outbox (`packages/db/src/repositories/outbox.ts`).

* `OutboxRow`, `AlertChannel`, `AttemptRow` — rows of `notification_outbox`, `alert_channels`
  and `notification_attempts`;
* `enqueueAlert`, `claimDueAlerts`, `updateSent`, `updateFailed` — the statements that change
  the outbox;
* `Moves`, `Follows` — how the status of a row can change.

Of an alert's payload a dispatcher reads the text, the embed if it is one, and else the whole
payload as JSON.  Instants are milliseconds.
-/
import HoodMint.Lib.Table
import Mathlib.Data.Int.Notation

namespace Notifications

open Relational

/-! ### Rows -/

inductive ChannelKind | telegram | webhook | discord | webPush
deriving DecidableEq

/-- The entries of a channel's `config` that are strings. -/
structure ChannelConfig where
  chatId : Option String := none
  endpoint : Option String := none
  p256dh : Option String := none
  auth : Option String := none
deriving DecidableEq

/-- A row of `alert_channels`. -/
structure AlertChannel where
  id : String
  kind : ChannelKind
  name : String
  enabled : Bool
  credentialId : Option String
  config : ChannelConfig
deriving DecidableEq

structure DiscordEmbedField where
  name : String
  value : String
deriving DecidableEq

structure DiscordEmbed where
  title : String
  url : Option String
  color : ℕ
  fields : List DiscordEmbedField
  footer : String
  timestamp : String
deriving DecidableEq

/-- The payload of an alert: its `text` when that is a string, its `embed` when that passes
`isDiscordEmbed`, and all of it as JSON. -/
structure Payload where
  text : Option String
  embed : Option DiscordEmbed
  json : String
deriving DecidableEq

inductive OutboxStatus | pending | inflight | sent | failed | dead
deriving DecidableEq

/-- A row of `notification_outbox`. -/
structure OutboxRow where
  id : String
  dedupeKey : String
  alertType : String
  walletId : Option String
  projectId : Option String
  stageId : Option String
  thresholdMinutes : ℤ
  payload : Payload
  status : OutboxStatus
  attempts : ℕ
  nextAttemptAt : ℤ
  lastErrorCode : Option String
  sanitizedResponse : Option String
  sentAt : Option ℤ
deriving DecidableEq

inductive AttemptStatus | success | failure
deriving DecidableEq

/-- A row of `notification_attempts`, as `recordAttempt` inserts it. -/
structure AttemptRow where
  outboxId : String
  channelKind : ChannelKind
  status : AttemptStatus
  latencyMs : ℤ
  errorCode : Option String
  sanitizedResponse : String
deriving DecidableEq

/-- The channel columns that come with a claimed alert. -/
structure ClaimedChannel where
  id : String
  kind : ChannelKind
  credentialId : Option String
  config : ChannelConfig
deriving DecidableEq

def AlertChannel.claimed (c : AlertChannel) : ClaimedChannel :=
  ⟨c.id, c.kind, c.credentialId, c.config⟩

structure ClaimedAlert where
  row : OutboxRow
  channels : List ClaimedChannel
deriving DecidableEq

/-! ### Statements -/

structure EnqueueAlertInput where
  dedupeKey : String
  alertType : String
  walletId : Option String := none
  projectId : Option String := none
  stageId : Option String := none
  thresholdMinutes : ℤ
  payload : Payload

/-- A due row as a claim leaves it. -/
def OutboxRow.claim (r : OutboxRow) : OutboxRow :=
  { r with status := .inflight, attempts := r.attempts + 1 }

/-- The `WHERE` clause of a claim. -/
def OutboxRow.Due (now : ℤ) (r : OutboxRow) : Prop :=
  r.status = .pending ∧ r.nextAttemptAt ≤ now

instance (now : ℤ) : DecidablePred (OutboxRow.Due now) := fun r =>
  (inferInstance : Decidable (r.status = .pending ∧ r.nextAttemptAt ≤ now))

/-- What `markAlertSent` sets. -/
def OutboxRow.markSent (sentAt : ℤ) (sanitizedResponse : Option String) (r : OutboxRow) :
    OutboxRow :=
  { r with
    status := .sent, sentAt := some sentAt, lastErrorCode := none,
    sanitizedResponse := sanitizedResponse.or r.sanitizedResponse }

/-- What `markAlertFailed` sets. -/
def OutboxRow.markFailed (status : OutboxStatus) (nextAttemptAt : ℤ) (errorCode : String)
    (sanitizedResponse : Option String) (r : OutboxRow) : OutboxRow :=
  { r with
    status := status, nextAttemptAt := nextAttemptAt, lastErrorCode := some errorCode,
    sanitizedResponse := sanitizedResponse.or r.sanitizedResponse }

abbrev Outbox := Table OutboxRow String OutboxRow.id

namespace Outbox

variable (outbox : Outbox)

/-- `enqueueAlert`; the identifier is the database's. -/
def enqueueAlert (id : String) (now : ℤ) (input : EnqueueAlertInput) : Outbox :=
  if ∃ r ∈ outbox, r.dedupeKey = input.dedupeKey then outbox
  else outbox.insert ⟨id, input.dedupeKey, input.alertType, input.walletId, input.projectId,
    input.stageId, input.thresholdMinutes, input.payload, .pending, 0, now, none, none, none⟩

/-- What `claimDueAlerts` can return: due rows, at most as many as asked for.  Rows that other
transactions have locked are skipped, so that these may be any of the due ones. -/
def Claimable (now limit : ℤ) (alerts : List ClaimedAlert) : Prop :=
  (alerts.map fun a => a.row.id).Nodup ∧ (alerts.length : ℤ) ≤ max 1 (min limit 100) ∧
    ∀ a ∈ alerts, ∃ r ∈ outbox, r.Due now ∧ a.row = r.claim

instance (now limit : ℤ) : DecidablePred (outbox.Claimable now limit) := fun alerts =>
  (inferInstance : Decidable ((alerts.map fun a => a.row.id).Nodup ∧
    (alerts.length : ℤ) ≤ max 1 (min limit 100) ∧
      ∀ a ∈ alerts, ∃ r ∈ outbox, r.Due now ∧ a.row = r.claim))

/-- `claimDueAlerts`, which has returned the alerts. -/
def claimDueAlerts (alerts : List ClaimedAlert) : Outbox :=
  outbox.update (fun r => r.id ∈ alerts.map fun a => a.row.id) OutboxRow.claim fun _ => rfl

/-- The update of `markAlertSent`. -/
def updateSent (id : String) (sentAt : ℤ) (sanitizedResponse : Option String) : Outbox :=
  outbox.update (fun r => r.id = id) (OutboxRow.markSent sentAt sanitizedResponse) fun _ => rfl

/-- The update of `markAlertFailed`. -/
def updateFailed (id : String) (status : OutboxStatus) (nextAttemptAt : ℤ)
    (errorCode : String) (sanitizedResponse : Option String) : Outbox :=
  outbox.update (fun r => r.id = id)
    (OutboxRow.markFailed status nextAttemptAt errorCode sanitizedResponse) fun _ => rfl

/-- The attempts `markAlertFailed` reads. -/
def attemptsOf (id : String) : Option ℕ := (outbox.get? id).map OutboxRow.attempts

end Outbox

/-! ### The state machine -/

/-- A step of the status. -/
inductive Moves : OutboxStatus → OutboxStatus → Prop
  | claim : Moves .pending .inflight
  | send : Moves .inflight .sent
  | retry : Moves .inflight .pending
  | die : Moves .inflight .dead

/-- The row stays as it is or moves; its key does not change. -/
structure Follows (r r' : OutboxRow) : Prop where
  id : r'.id = r.id
  dedupeKey : r'.dedupeKey = r.dedupeKey
  status : r' = r ∨ Moves r.status r'.status

namespace Follows

theorem refl (r : OutboxRow) : Follows r r := ⟨rfl, rfl, Or.inl rfl⟩

end Follows

end Notifications
