/-
The outbox dispatcher (`packages/notifications/src/dispatch.ts`) and what it asks for.

* `Cmd`, `signature` — the statements, the reads of credentials and the adapters' sends;
* `sendTo` — one alert to one channel, through the adapter of its kind;
* `deliver`, `dispatchAlert`, `dispatchAlerts` — one alert to every channel, and every alert of
  a claim;
* `markAlertSent`, `markAlertFailed` — how an alert's turn ends;
* `dispatchDueAlerts` — the dispatcher.

An adapter's send answers with a result; whatever an adapter does with it on the network is
the environment's.  The metrics are left out.
-/
import HoodMint.Credentials
import HoodMint.Lib.Effect
import HoodMint.Lib.Text
import HoodMint.Outbox
import Mathlib.Algebra.Group.Nat.Defs

namespace Notifications

open Credentials Effect

/-! ### Adapters -/

structure TelegramConfig where
  botToken : String
  chatId : String
deriving DecidableEq

structure WebhookConfig where
  url : String
deriving DecidableEq

structure DiscordConfig where
  url : String
deriving DecidableEq

structure WebPushConfig where
  endpoint : String
  p256dh : String
  auth : String
deriving DecidableEq

/-- The configuration of one of the adapters. -/
inductive AdapterConfig
  | telegram (config : TelegramConfig)
  | webhook (config : WebhookConfig)
  | discord (config : DiscordConfig)
  | webPush (config : WebPushConfig)
deriving DecidableEq

/-- `SendResult`. -/
structure SendResult where
  ok : Bool
  latencyMs : ℤ
  sanitizedResponse : String
  errorCode : Option String
deriving DecidableEq

structure Thrown where
  message : String
deriving DecidableEq

/-! ### Commands -/

inductive Cmd
  | now
  | claimDueAlerts (now limit : ℤ)
  | getCredentialSecret (id : String)
  | sendTelegram (config : TelegramConfig) (text : String)
  | sendWebhook (config : WebhookConfig) (text alertType : String) (thresholdMinutes : ℤ)
  | sendDiscord (config : DiscordConfig) (embed : DiscordEmbed)
  | sendWebPush (config : WebPushConfig) (title body : String) (url : Option String)
  | recordAttempt (attempt : AttemptRow)
  | updateSent (id : String) (sentAt : ℤ) (sanitizedResponse : Option String)
  | selectAttempts (id : String)
  | jitter (base : ℕ)
  | updateFailed (id : String) (status : OutboxStatus) (nextAttemptAt : ℤ) (errorCode : String)
      (sanitizedResponse : Option String)
deriving DecidableEq

abbrev Cmd.Resp : Cmd → Type
  | .now => ℤ
  | .claimDueAlerts .. => List ClaimedAlert
  | .getCredentialSecret _ => Option String
  | .sendTelegram .. => SendResult
  | .sendWebhook .. => SendResult
  | .sendDiscord .. => SendResult
  | .sendWebPush .. => SendResult
  | .recordAttempt _ => Unit
  | .updateSent .. => Unit
  | .selectAttempts _ => Option ℕ
  | .jitter _ => ℤ
  | .updateFailed .. => Unit

abbrev signature : Signature := ⟨Cmd, Cmd.Resp⟩

abbrev Dispatcher := Prog signature Thrown

abbrev ask (c : Cmd) : Dispatcher c.Resp := Prog.issue (S := signature) c

/-- The configuration a command hands to an adapter. -/
def Cmd.adapterConfig? : Cmd → Option AdapterConfig
  | .sendTelegram config _ => some (.telegram config)
  | .sendWebhook config .. => some (.webhook config)
  | .sendDiscord config _ => some (.discord config)
  | .sendWebPush config .. => some (.webPush config)
  | _ => none

/-! ### One channel -/

structure DispatchDeps where
  claimLimit : Option ℤ
  webPushVapid : Bool

/-- The text of an alert. -/
def ClaimedAlert.text (alert : ClaimedAlert) : String :=
  alert.row.payload.text.getD alert.row.payload.json

/-- The secret of a channel's credential. -/
def channelSecret (channel : ClaimedChannel) : Dispatcher (Option String) :=
  match channel.credentialId with
  | some id => ask (.getCredentialSecret id)
  | none => return none

/-- The embed of an alert, or a plain one when it carries none; `iso` is
`Date.prototype.toISOString`. -/
def embedOf (iso : ℤ → String) (alert : ClaimedAlert) : Dispatcher DiscordEmbed :=
  match alert.row.payload.embed with
  | some embed => return embed
  | none => do
    let now ← ask .now
    return ⟨"HoodMint Radar alert", none, 0x8a8f98,
      [⟨"Details", String.ofList (alert.text.toList.take 1024)⟩], "HoodMint Radar", iso now⟩

/-- `isWebPushSubscriptionConfig`. -/
def webPushSubscription? (config : ChannelConfig) : Option WebPushConfig :=
  match config.endpoint, config.p256dh, config.auth with
  | some endpoint, some p256dh, some auth => some ⟨endpoint, p256dh, auth⟩
  | _, _, _ => none

/-- The send of an alert to a channel; `none` where the channel is misconfigured. -/
def sendTo (deps : DispatchDeps) (iso : ℤ → String) (alert : ClaimedAlert)
    (channel : ClaimedChannel) : Dispatcher (Option SendResult) :=
  match channel.kind with
  | .telegram => do
    match ← channelSecret channel, channel.config.chatId with
    | some secret, some chatId => some <$> ask (.sendTelegram ⟨secret, chatId⟩ alert.text)
    | _, _ => return none
  | .webhook => do
    match (← channelSecret channel).filter (Text.startsWith · "https://") with
    | some secret =>
      some <$> ask (.sendWebhook ⟨secret⟩ alert.text alert.row.alertType alert.row.thresholdMinutes)
    | none => return none
  | .discord => do
    let secret ← channelSecret channel
    let embed ← embedOf iso alert
    match secret.filter (Text.startsWith · "https://") with
    | some secret => some <$> ask (.sendDiscord ⟨secret⟩ embed)
    | none => return none
  | .webPush =>
    match deps.webPushVapid, webPushSubscription? channel.config with
    | true, some subscription =>
      let title := (alert.row.payload.embed.map DiscordEmbed.title).getD "HoodMint Radar alert"
      some <$> ask (.sendWebPush subscription title (String.ofList (alert.text.toList.take 300))
        (alert.row.payload.embed.bind DiscordEmbed.url))
    | _, _ => return none

/-! ### The dispatcher -/

def misconfigured : SendResult := ⟨false, 0, "channel secret missing", some "PermanentConfig"⟩

/-- The alert to each channel in turn: whether one has taken it, and the last error. -/
def deliver (deps : DispatchDeps) (iso : ℤ → String) (alert : ClaimedAlert) :
    List ClaimedChannel → Bool → String → Dispatcher (Bool × String)
  | [], anySuccess, lastError => return (anySuccess, lastError)
  | channel :: channels, anySuccess, lastError => do
    let result := (← sendTo deps iso alert channel).getD misconfigured
    ask (.recordAttempt ⟨alert.row.id, channel.kind, if result.ok then .success else .failure,
      result.latencyMs, result.errorCode, result.sanitizedResponse⟩)
    if result.ok then deliver deps iso alert channels true lastError
    else deliver deps iso alert channels anySuccess (result.errorCode.getD "unknown")

/-- The range of `nextRetryDelayMs`; before the first attempt the power is a half. -/
def retryBaseMs (attempts : ℕ) : ℕ :=
  if attempts = 0 then 30000 else min (60000 * 2 ^ (attempts - 1)) (6 * 60 * 60000)

def maxAttempts : ℕ := 6

/-- `markAlertSent`. -/
def markAlertSent (id : String) (sanitizedResponse : Option String) : Dispatcher Unit := do
  let now ← ask .now
  ask (.updateSent id now sanitizedResponse)

/-- `markAlertFailed`. -/
def markAlertFailed (id errorCode : String) (sanitizedResponse : Option String) :
    Dispatcher Unit := do
  let attempts := (← ask (.selectAttempts id)).getD 0
  if attempts ≥ maxAttempts then
    ask (.updateFailed id .dead 0 errorCode sanitizedResponse)
  else do
    let now ← ask .now
    let delay ← ask (.jitter (retryBaseMs attempts))
    ask (.updateFailed id .pending (now + delay) errorCode sanitizedResponse)

/-- One claimed alert; whether it has been sent. -/
def dispatchAlert (deps : DispatchDeps) (iso : ℤ → String) (alert : ClaimedAlert) :
    Dispatcher Bool := do
  let (anySuccess, lastError) ← deliver deps iso alert alert.channels false "no_channels"
  if anySuccess then do
    markAlertSent alert.row.id (some "acknowledged")
    return true
  else do
    markAlertFailed alert.row.id lastError none
    return false

/-- `DispatchSummary`. -/
structure DispatchSummary where
  claimed : ℕ
  sent : ℕ
  failed : ℕ
deriving DecidableEq

/-- The claimed alerts in turn; how many of them have been sent. -/
def dispatchAlerts (deps : DispatchDeps) (iso : ℤ → String) : List ClaimedAlert → Dispatcher ℕ
  | [] => return 0
  | alert :: alerts => do
    let sent ← dispatchAlert deps iso alert
    let others ← dispatchAlerts deps iso alerts
    return (if sent then 1 else 0) + others

/-- `dispatchDueAlerts`. -/
def dispatchDueAlerts (deps : DispatchDeps) (iso : ℤ → String) : Dispatcher DispatchSummary := do
  let now ← ask .now
  let alerts ← ask (.claimDueAlerts now (deps.claimLimit.getD 20))
  let sent ← dispatchAlerts deps iso alerts
  return ⟨alerts.length, sent, alerts.length - sent⟩

end Notifications
