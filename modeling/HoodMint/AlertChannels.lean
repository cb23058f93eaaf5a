/-
Saving an alert channel (`apps/web/src/app/actions.ts`), with the adapters' validation
(`packages/notifications/src/channels.ts`, `ssrf.ts`).

* `assertSafeWebhookUrl` — the guard of outbound URLs;
* `validateTelegram`, `validateWebhook`, `validateDiscord` — what the adapters accept;
* `saveTelegramChannelAction`, `saveWebhookChannelAction`, `saveDiscordChannelAction` — the
  credential and the channel row an accepted input is stored as;
* `RoundTrips` — a dispatcher calls the adapter with a given configuration;
* `roundTrips_iff` — it does so for what a save has validated exactly for a Discord channel, and
  for a webhook whose URL is spelled with a lower-case `https://`.

The parser of URLs, the classifier of IP addresses and the resolver are the platform's.
-/
import HoodMint.AlertDispatch

namespace Notifications

open Credentials Effect Relational

/-! ### Outbound URLs -/

structure AppError where
  category : String
  message : String
  hint : Option String
deriving DecidableEq

/-- The parts of a parsed URL that are read. -/
structure Url where
  protocol : String
  username : String
  password : String
  hostname : String

/-- `new URL`, `isIP` (4, 6, or 0) and the resolver. -/
structure Platform where
  parseUrl : String → Option Url
  isIP : String → ℕ
  lookup : String → Option (List String)

/-- `Number.parseInt(part, 10)` of a part that starts with a digit. -/
def decimal (part : List Char) : ℕ :=
  (part.takeWhile Char.isDigit).foldl (fun n c => 10 * n + (c.toNat - 48)) 0

/-- `ipv4ToInt`. -/
def ipv4ToInt (ip : String) : ℕ :=
  let parts := (ip.toList.splitOn '.').map decimal
  ((parts.getD 0 0 <<< 24) ||| (parts.getD 1 0 <<< 16) ||| (parts.getD 2 0 <<< 8) |||
    parts.getD 3 0) % 2 ^ 32

/-- `isPrivateV4`. -/
def isPrivateV4 (ip : String) : Bool :=
  let value := ipv4ToInt ip
  let octet1 := value >>> 24
  let octet2 := (value >>> 16) &&& 0xff
  octet1 = 127 || octet1 = 10 || (octet1 = 172 && 16 ≤ octet2 && octet2 ≤ 31) ||
    (octet1 = 192 && octet2 = 168) || (octet1 = 169 && octet2 = 254) || octet1 = 0 || 240 ≤ octet1

/-- `isPrivateV6`. -/
def isPrivateV6 (ip : String) : Bool :=
  let normalized := Text.lower ip
  normalized = "::" || normalized = "::1" ||
    ["fe80", "fc", "fd", "ff", "::ffff:127.", "::ffff:10.", "::ffff:192.168.", "::ffff:172."].any
      (Text.startsWith normalized ·)

section

variable (p : Platform)

/-- `isPrivateAddress`. -/
def isPrivateAddress (ip : String) : Bool :=
  match p.isIP ip with
  | 4 => isPrivateV4 ip
  | 6 => isPrivateV6 ip
  | _ => true

/-- `assertSafeWebhookUrl`. -/
def assertSafeWebhookUrl (rawUrl : String) (allowInsecureLoopback : Bool := false) :
    Except AppError Url := do
  let url ← match p.parseUrl rawUrl with
    | some url => pure url
    | none => throw ⟨"PermanentConfig", "webhook URL is not a valid URL", none⟩
  let isLoopbackHost := decide (url.hostname ∈ ["localhost", "127.0.0.1", "[::1]"])
  if url.protocol ≠ "https:" ∧ ¬ (allowInsecureLoopback && isLoopbackHost) then
    throw ⟨"PermanentConfig", "webhook URL must use https", none⟩
  if url.username ≠ "" ∨ url.password ≠ "" then
    throw ⟨"PermanentConfig", "webhook URL must not embed credentials", none⟩
  let spared := allowInsecureLoopback && isLoopbackHost && url.protocol = "http:"
  if p.isIP url.hostname ≠ 0 then
    if isPrivateAddress p url.hostname && !spared then
      throw ⟨"PermanentConfig", "webhook URL points at a private address", none⟩
    return url
  match p.lookup url.hostname with
  | none =>
    throw ⟨"PermanentConfig", "webhook host does not resolve", some "check the webhook hostname"⟩
  | some addresses =>
    if addresses.any fun address => isPrivateAddress p address && !spared then
      throw ⟨"PermanentConfig", "webhook host resolves to a private address",
        some "SSRF protection blocks internal destinations"⟩
    return url

/-! ### Validation -/

def isWord (c : Char) : Bool := c.isAlphanum || c = '_'

/-- `/^\d{6,10}:[A-Za-z0-9_-]{30,}$/`. -/
def isBotToken (token : String) : Bool :=
  let digits := token.toList.takeWhile Char.isDigit
  match token.toList.dropWhile Char.isDigit with
  | ':' :: key =>
    6 ≤ digits.length && digits.length ≤ 10 && 30 ≤ key.length &&
      key.all fun c => isWord c || c = '-'
  | _ => false

/-- `/^-?\d+$/` or `/^@[A-Za-z0-9_]{4,}$/`. -/
def isChatId (chatId : String) : Bool :=
  match chatId.toList with
  | '-' :: digits => digits ≠ [] && digits.all Char.isDigit
  | '@' :: name => 4 ≤ name.length && name.all isWord
  | digits => digits ≠ [] && digits.all Char.isDigit

/-- The telegram adapter's `validate`. -/
def validateTelegram (config : TelegramConfig) : Option AppError :=
  if ¬ isBotToken config.botToken then
    some ⟨"PermanentConfig", "telegram bot token format is invalid", none⟩
  else if ¬ isChatId config.chatId then
    some ⟨"PermanentConfig", "telegram chat id format is invalid", none⟩
  else none

/-- The error of `assertSafeWebhookUrl`, if it throws. -/
def urlError (url : String) : Option AppError :=
  match assertSafeWebhookUrl p url with
  | .ok _ => none
  | .error error => some error

/-- The webhook adapter's `validate`. -/
def validateWebhook (config : WebhookConfig) : Option AppError := urlError p config.url

/-- How `DISCORD_WEBHOOK_URL_PATTERN` may begin, up to the webhook's number. -/
def discordHeads : List String :=
  ["https://discord.com/api/webhooks/", "https://discordapp.com/api/webhooks/",
    "https://ptb.discord.com/api/webhooks/", "https://ptb.discordapp.com/api/webhooks/",
    "https://canary.discord.com/api/webhooks/", "https://canary.discordapp.com/api/webhooks/"]

/-- `/\d+\/[\w-]+/`. -/
def isWebhookPath (path : List Char) : Bool :=
  match path.dropWhile Char.isDigit with
  | '/' :: token =>
    path.takeWhile Char.isDigit ≠ [] && token ≠ [] && token.all fun c => isWord c || c = '-'
  | _ => false

/-- `DISCORD_WEBHOOK_URL_PATTERN`. -/
def isDiscordUrl (url : String) : Bool :=
  discordHeads.any fun head =>
    Text.startsWith url head && isWebhookPath (url.toList.drop head.toList.length)

/-- The Discord adapter's `validate`. -/
def validateDiscord (config : DiscordConfig) : Option AppError :=
  let trimmed := Text.trim config.url
  if ¬ isDiscordUrl trimmed then
    some ⟨"PermanentConfig",
      "not a Discord webhook URL (expected https://discord.com/api/webhooks/<id>/<token>)", none⟩
  else urlError p trimmed

end

/-! ### Saving -/

/-- The tables of a save. -/
structure AlertStore where
  credentials : Store
  channels : Table AlertChannel String AlertChannel.id

/-- The identifiers the database draws. -/
structure NewIds where
  credential : String
  channel : String

/-- `ActionState`. -/
structure ActionState where
  ok : Bool
  message : String
deriving DecidableEq

/-- What the save actions have in common: the secret is sealed as a credential, and the channel
is a row with an empty `config`. -/
def saveChannel (kind : ChannelKind) (type : CredentialType) (fallback saved : String)
    (authorised : Bool) (invalid : Option AppError) (name secret : String) (ids : NewIds)
    (s : AlertStore) : ActionState × AlertStore :=
  if ¬ authorised then (⟨false, "Insufficient role."⟩, s)
  else match invalid with
    | some error => (⟨false, error.message⟩, s)
    | none =>
      let name := if Text.trim name = "" then fallback else Text.trim name
      (⟨true, saved⟩,
        ⟨s.credentials.createCredential ids.credential type name secret none,
          s.channels.insert ⟨ids.channel, kind, name, true, some ids.credential, {}⟩⟩)

/-- `JSON.stringify({ botToken, chatId })`. -/
def telegramSecret (botToken chatId : String) : String :=
  "\x7b\"botToken\":" ++ Text.quote botToken ++ ",\"chatId\":" ++ Text.quote chatId ++ "\x7d"

/-- `saveTelegramChannelAction`. -/
def saveTelegramChannelAction (authorised : Bool) (botToken chatId name : String) (ids : NewIds)
    (s : AlertStore) : ActionState × AlertStore :=
  saveChannel .telegram .telegramBot "Telegram" "Telegram channel saved (encrypted)." authorised
    (validateTelegram ⟨botToken, chatId⟩) name (telegramSecret botToken chatId) ids s

/-- `saveWebhookChannelAction`. -/
def saveWebhookChannelAction (p : Platform) (authorised : Bool) (url name : String) (ids : NewIds)
    (s : AlertStore) : ActionState × AlertStore :=
  saveChannel .webhook .webhook "Webhook" "Webhook saved (encrypted, SSRF-guarded)." authorised
    (validateWebhook p ⟨Text.trim url⟩) name (Text.trim url) ids s

/-- `saveDiscordChannelAction`. -/
def saveDiscordChannelAction (p : Platform) (authorised : Bool) (url name : String) (ids : NewIds)
    (s : AlertStore) : ActionState × AlertStore :=
  saveChannel .discord .discordWebhook "Discord" "Discord channel saved (encrypted, SSRF-guarded)."
    authorised (validateDiscord p ⟨Text.trim url⟩) name (Text.trim url) ids s

/-- The input of one of the three actions. -/
inductive SaveInput
  | telegram (botToken chatId name : String)
  | webhook (url name : String)
  | discord (url name : String)

namespace SaveInput

/-- The configuration that is validated. -/
def config : SaveInput → AdapterConfig
  | telegram botToken chatId _ => .telegram ⟨botToken, chatId⟩
  | webhook url _ => .webhook ⟨Text.trim url⟩
  | discord url _ => .discord ⟨Text.trim url⟩

/-- What its adapter's validation says. -/
def invalid (p : Platform) : SaveInput → Option AppError
  | telegram botToken chatId _ => validateTelegram ⟨botToken, chatId⟩
  | webhook url _ => validateWebhook p ⟨Text.trim url⟩
  | discord url _ => validateDiscord p ⟨Text.trim url⟩

/-- The action. -/
def save (p : Platform) (authorised : Bool) (ids : NewIds) (s : AlertStore) :
    SaveInput → ActionState × AlertStore
  | telegram botToken chatId name => saveTelegramChannelAction authorised botToken chatId name ids s
  | webhook url name => saveWebhookChannelAction p authorised url name ids s
  | discord url name => saveDiscordChannelAction p authorised url name ids s

/-- The kind of the channel. -/
def kind : SaveInput → ChannelKind
  | telegram .. => .telegram
  | webhook .. => .webhook
  | discord .. => .discord

/-- The secret that is sealed. -/
def secret : SaveInput → String
  | telegram botToken chatId _ => telegramSecret botToken chatId
  | webhook url _ => Text.trim url
  | discord url _ => Text.trim url

/-- The secret is spelled as the dispatcher demands. -/
def Readable : SaveInput → Prop
  | telegram .. => False
  | webhook url _ => Text.startsWith (Text.trim url) "https://" = true
  | discord .. => True

end SaveInput

/-! ### Loading -/

/-- The secrets read are those stored; the state lists the configurations adapters are called
with. -/
def calls (store : Store) : Monitor signature Thrown (List AdapterConfig) where
  guard _ _ := True
  allowed _ c x :=
    match c, x with
    | .getCredentialSecret id, .ok secret => secret = store.getCredentialSecret id
    | _, _ => True
  next called c _ := called ++ c.adapterConfig?.toList

/-- The send of the alert to the channel is one call of the adapter, with the given
configuration. -/
def RoundTrips (deps : DispatchDeps) (iso : ℤ → String) (alert : ClaimedAlert) (store : Store)
    (channel : ClaimedChannel) (config : AdapterConfig) : Prop :=
  ∀ tr result, (sendTo deps iso alert channel).Runs tr (.finished (.ok result)) →
    (calls store).Admits [] tr → (calls store).after [] tr = [config] ∧ result ≠ none

section

variable {store : Store} {id secret : String} {deps : DispatchDeps} {iso : ℤ → String}
  {alert : ClaimedAlert} {channel : ClaimedChannel}

theorem channelSecret_wp (hid : channel.credentialId = some id)
    (hsecret : store.getCredentialSecret id = some secret) :
    (channelSecret channel).wp (calls store)
      (Prog.onReturn fun r called => r = some secret ∧ called = []) [] := by
  rw [channelSecret, hid]
  exact Prog.onReturn_issue trivial fun _ hread => ⟨hread.trans hsecret, rfl⟩

theorem channelSecret_may (hid : channel.credentialId = some id)
    (hsecret : store.getCredentialSecret id = some secret) :
    (channelSecret channel).may (calls store) (fun r called => r = .ok (some secret) ∧ called = [])
      [] := by
  rw [channelSecret, hid]
  exact Prog.may_issue (.ok (some secret)) hsecret.symm ⟨rfl, rfl⟩

theorem embedOf_wp : (embedOf iso alert).wp (calls store)
    (Prog.onReturn fun _ called => called = []) [] := by
  rw [embedOf]
  split
  · rfl
  · exact Prog.onReturn_issue_bind trivial fun _ _ => rfl

/-- The run in which a channel is misconfigured. -/
theorem not_roundTrips {config : AdapterConfig}
    (h : (sendTo deps iso alert channel).may (calls store) (fun r _ => r = .ok none) []) :
    ¬ RoundTrips deps iso alert store channel config := by
  intro htrips
  obtain ⟨tr, r, hruns, hadmits, rfl⟩ := Prog.exists_run h
  exact (htrips tr none hruns hadmits).2 rfl

/-- A telegram channel without a chat id is misconfigured, whatever its secret. -/
theorem sendTo_telegram_may (hkind : channel.kind = .telegram)
    (hchat : channel.config.chatId = none) (hid : channel.credentialId = some id)
    (hsecret : store.getCredentialSecret id = some secret) :
    (sendTo deps iso alert channel).may (calls store) (fun r _ => r = .ok none) [] := by
  rw [sendTo, hkind]
  refine Prog.may_bind (some secret) (Prog.may_mono (channelSecret_may hid hsecret) ?_)
  rintro r called ⟨rfl, rfl⟩
  refine ⟨rfl, ?_⟩
  rw [hchat]
  exact rfl

theorem sendTo_webhook_may (hkind : channel.kind = .webhook)
    (hid : channel.credentialId = some id) (hsecret : store.getCredentialSecret id = some secret)
    (hstart : Text.startsWith secret "https://" = false) :
    (sendTo deps iso alert channel).may (calls store) (fun r _ => r = .ok none) [] := by
  rw [sendTo, hkind]
  refine Prog.may_bind (some secret) (Prog.may_mono (channelSecret_may hid hsecret) ?_)
  rintro r called ⟨rfl, rfl⟩
  refine ⟨rfl, ?_⟩
  rw [Option.filter_some, hstart]
  exact rfl

theorem sendTo_webhook (hkind : channel.kind = .webhook) (hid : channel.credentialId = some id)
    (hsecret : store.getCredentialSecret id = some secret)
    (hstart : Text.startsWith secret "https://" = true) :
    (sendTo deps iso alert channel).wp (calls store)
      (Prog.onReturn fun r called => called = [.webhook ⟨secret⟩] ∧ r ≠ none) [] := by
  rw [sendTo, hkind]
  refine Prog.onReturn_bind (channelSecret_wp hid hsecret) ?_
  rintro _ _ ⟨rfl, rfl⟩
  rw [Option.filter_some, hstart]
  exact Prog.onReturn_issue_bind trivial fun result _ => ⟨rfl, Option.some_ne_none result⟩

theorem sendTo_discord (hkind : channel.kind = .discord) (hid : channel.credentialId = some id)
    (hsecret : store.getCredentialSecret id = some secret)
    (hstart : Text.startsWith secret "https://" = true) :
    (sendTo deps iso alert channel).wp (calls store)
      (Prog.onReturn fun r called => called = [.discord ⟨secret⟩] ∧ r ≠ none) [] := by
  rw [sendTo, hkind]
  refine Prog.onReturn_bind (channelSecret_wp hid hsecret) ?_
  rintro _ _ ⟨rfl, rfl⟩
  refine Prog.onReturn_bind embedOf_wp ?_
  rintro embed _ rfl
  rw [Option.filter_some, hstart]
  exact Prog.onReturn_issue_bind trivial fun result _ => ⟨rfl, Option.some_ne_none result⟩

/-- What every run does, as a round trip. -/
theorem RoundTrips.of_wp {config : AdapterConfig}
    (h : (sendTo deps iso alert channel).wp (calls store)
      (Prog.onReturn fun r called => called = [config] ∧ r ≠ none) []) :
    RoundTrips deps iso alert store channel config := fun _ _ hruns hadmits =>
  (Prog.sound h hruns hadmits).2 _ rfl

end

/-- What Discord's pattern accepts begins as the dispatcher demands. -/
theorem startsWith_of_isDiscordUrl {url : String} (h : isDiscordUrl url = true) :
    Text.startsWith url "https://" = true := by
  obtain ⟨head, hhead, hurl⟩ := List.any_eq_true.mp h
  have hstart := of_decide_eq_true ((Bool.and_eq_true _ _).mp hurl).1
  have hscheme : ∀ head ∈ discordHeads, "https://".toList <+: head.toList := by decide
  exact decide_eq_true ((hscheme head hhead).trans hstart)

namespace SaveInput

variable {p : Platform} {input : SaveInput} {ids : NewIds} {s : AlertStore}

/-- The row an accepted input is stored as, and its secret. -/
theorem save_stores (hvalid : input.invalid p = none) (hcredential : ∀ c ∈ s.credentials,
    c.id ≠ ids.credential) (hchannel : ∀ c ∈ s.channels, c.id ≠ ids.channel) :
    ∃ row, (input.save p true ids s).2.channels.get? ids.channel = some row ∧
      row.enabled = true ∧ row.kind = input.kind ∧ row.credentialId = some ids.credential ∧
      row.config = {} ∧
      (input.save p true ids s).2.credentials.getCredentialSecret ids.credential =
        some input.secret := by
  have hstored : ∀ {kind type fallback saved name secret},
      ∃ row, (saveChannel kind type fallback saved true none name secret ids s).2.channels.get?
          ids.channel = some row ∧
        row.enabled = true ∧ row.kind = kind ∧ row.credentialId = some ids.credential ∧
        row.config = {} ∧
        (saveChannel kind type fallback saved true none name secret ids
          s).2.credentials.getCredentialSecret ids.credential = some secret := by
    intro kind type fallback saved name secret
    exact ⟨_, Table.get?_eq_some.mpr ⟨Table.mem_insert.mpr (Or.inr ⟨rfl, hchannel⟩), rfl⟩,
      rfl, rfl, rfl, rfl, Store.getCredentialSecret_createCredential hcredential⟩
  cases input with
  | telegram botToken chatId name =>
    have hnone : validateTelegram ⟨botToken, chatId⟩ = none := hvalid
    rw [save, saveTelegramChannelAction, hnone]
    exact hstored
  | webhook url name =>
    have hnone : validateWebhook p ⟨Text.trim url⟩ = none := hvalid
    rw [save, saveWebhookChannelAction, hnone]
    exact hstored
  | discord url name =>
    have hnone : validateDiscord p ⟨Text.trim url⟩ = none := hvalid
    rw [save, saveDiscordChannelAction, hnone]
    exact hstored

/-- **Saving and loading a channel.**  The row that an action writes for a valid input has its
adapter called with the validated configuration exactly when the secret is spelled as the
dispatcher demands. -/
theorem roundTrips_iff (p : Platform) (input : SaveInput) (ids : NewIds) (s : AlertStore)
    (deps : DispatchDeps) (iso : ℤ → String) (alert : ClaimedAlert)
    (hvalid : input.invalid p = none)
    (hcredential : ∀ c ∈ s.credentials, c.id ≠ ids.credential)
    (hchannel : ∀ c ∈ s.channels, c.id ≠ ids.channel) :
    (∃ row, (input.save p true ids s).2.channels.get? ids.channel = some row ∧
      row.enabled = true ∧ RoundTrips deps iso alert (input.save p true ids s).2.credentials
        row.claimed input.config) ↔ input.Readable := by
  obtain ⟨row, hrow, henabled, hkind, hid, hconfig, hsecret⟩ :=
    save_stores hvalid hcredential hchannel
  have hread : ∀ {P : AlertChannel → Prop}, (∃ r,
      (input.save p true ids s).2.channels.get? ids.channel = some r ∧ r.enabled = true ∧ P r) ↔
        P row := by
    intro P
    constructor
    · rintro ⟨r, hr, -, hP⟩
      obtain rfl := Option.some_inj.mp (hr.symm.trans hrow)
      exact hP
    · exact fun hP => ⟨row, hrow, henabled, hP⟩
  rw [hread]
  cases input with
  | telegram botToken chatId name =>
    refine iff_of_false (not_roundTrips (sendTo_telegram_may hkind ?_ hid hsecret)) not_false
    exact congrArg ChannelConfig.chatId hconfig
  | webhook url name =>
    cases hstart : Text.startsWith (Text.trim url) "https://" with
    | true =>
      exact iff_of_true (.of_wp (sendTo_webhook hkind hid hsecret hstart)) hstart
    | false =>
      refine iff_of_false (not_roundTrips (sendTo_webhook_may hkind hid hsecret hstart)) ?_
      exact fun h => Bool.false_ne_true (hstart.symm.trans h)
  | discord url name =>
    have hurl : isDiscordUrl (Text.trim url) = true := by
      by_contra hnot
      have hsome : validateDiscord p ⟨Text.trim url⟩ ≠ none := by
        rw [validateDiscord, Text.trim_trim, if_pos hnot]
        exact Option.some_ne_none _
      exact hsome hvalid
    have hstart := startsWith_of_isDiscordUrl hurl
    exact iff_of_true (.of_wp (sendTo_discord hkind hid hsecret hstart)) trivial

end SaveInput

/-! ### A sample -/

namespace Sample

/-- The platform, as far as Discord's webhooks go. -/
def platform : Platform where
  parseUrl rawUrl :=
    if Text.startsWith rawUrl "https://discord.com/" then some ⟨"https:", "", "", "discord.com"⟩
    else none
  isIP host := if host = "162.159.135.232" then 4 else 0
  lookup host := if host = "discord.com" then some ["162.159.135.232"] else none

def discord : SaveInput := .discord " https://discord.com/api/webhooks/1234/a-b_c " "alerts"

def telegram : SaveInput := .telegram "123456:abcdefghijklmnopqrstuvwxyz1234" "-1001234" "alerts"

def ids : NewIds := ⟨"credential", "channel"⟩

def alertStore : AlertStore := ⟨.empty, .empty⟩

/-- An alert, with the channel it is sent to. -/
def watched : ClaimedAlert :=
  ⟨⟨"a", "live:1", "watched_live", none, none, none, 0, ⟨some "live", none, ""⟩, .inflight, 1, 0,
    none, none, none⟩,
    []⟩

end Sample

namespace SaveInput

theorem roundTrips_discord :
    Sample.discord.invalid Sample.platform = none ∧
      ∃ row, (Sample.discord.save Sample.platform true Sample.ids Sample.alertStore).2.channels.get?
        "channel" = some row ∧ row.enabled = true ∧
          RoundTrips ⟨none, false⟩ (fun _ => "") Sample.watched
            (Sample.discord.save Sample.platform true Sample.ids Sample.alertStore).2.credentials
            row.claimed (.discord ⟨"https://discord.com/api/webhooks/1234/a-b_c"⟩) := by
  refine ⟨by decide, ?_⟩
  have hurl : Text.trim " https://discord.com/api/webhooks/1234/a-b_c " =
      "https://discord.com/api/webhooks/1234/a-b_c" := by decide
  have h := (roundTrips_iff Sample.platform Sample.discord Sample.ids Sample.alertStore
    ⟨none, false⟩ (fun _ => "") Sample.watched (by decide) (by decide) (by decide)).mpr trivial
  rwa [Sample.discord, config, hurl] at h

/-- A valid bot token and chat id: the channel that is written is misconfigured. -/
theorem telegram_misconfigured :
    Sample.telegram.invalid Sample.platform = none ∧
      ¬ ∃ row, (Sample.telegram.save Sample.platform true Sample.ids
          Sample.alertStore).2.channels.get? "channel" = some row ∧ row.enabled = true ∧
        RoundTrips ⟨none, false⟩ (fun _ => "") Sample.watched
          (Sample.telegram.save Sample.platform true Sample.ids Sample.alertStore).2.credentials
          row.claimed (.telegram ⟨"123456:abcdefghijklmnopqrstuvwxyz1234", "-1001234"⟩) := by
  refine ⟨by decide, ?_⟩
  rintro ⟨row, hrow, -, htrips⟩
  obtain ⟨row', hrow', -, hkind, hid, hconfig, hsecret⟩ :=
    @save_stores Sample.platform Sample.telegram Sample.ids Sample.alertStore
      (by decide) (by decide) (by decide)
  obtain rfl := Option.some_inj.mp (hrow'.symm.trans hrow)
  exact not_roundTrips (sendTo_telegram_may hkind (congrArg ChannelConfig.chatId hconfig) hid
    hsecret) htrips

end SaveInput

end Notifications
