/-
The operator's subscription to xAI (`packages/providers/src/xai/oauth.ts`,
`apps/worker/src/credentials.ts`, `apps/web/src/app/actions.ts`).

* `parseTokenResponse`, `isTokenExpiring`, `interpretDeviceTokenResponse` — what the token endpoint
  answers, read;
* `refreshXaiToken`, `resolveXaiToken` — the worker: a token that is about to expire is refreshed
  first, and the refresh token, which the provider rotates, stored with it;
* `startXaiDeviceAuthAction`, `pollXaiDeviceAuthAction` — an administrator connects the
  subscription by a device grant;
* `resolveXaiToken_fresh` — what the worker hands out.

A secret is kept as what its schema reads of it; an API key is a text that no schema reads.
Instants are in milliseconds.
-/
import HoodMint.Credentials
import HoodMint.Lib.Effect
import HoodMint.Lib.Text
import HoodMint.Lib.Utf16
import HoodMint.ProviderFetch

namespace XaiOAuth

open Credentials Effect ProviderHttp
open MonadExcept (ofExcept)

/-! ### The client -/

/-- `XAI_DEFAULT_CLIENT_ID`. -/
def XAI_DEFAULT_CLIENT_ID : String := "b1a00492-073a-47ea-816f-4c329264a828"

/-- `XaiOAuthClient`. -/
structure XaiOAuthClient where
  clientId : String := XAI_DEFAULT_CLIENT_ID
  deviceAuthorization : Option String := none
  token : Option String := none
  api : Option String := none
deriving DecidableEq

structure ResolvedXaiClient where
  clientId : String
  deviceAuthorizationUrl : String
  tokenUrl : String
  apiBaseUrl : String
deriving DecidableEq

/-- `url.replace(/\/$/, "")`. -/
def withoutSlash (url : String) : String :=
  if url.toList.getLast? = some '/' then String.ofList url.toList.dropLast else url

/-- `resolveXaiClient`. -/
def resolveXaiClient (stored : Option XaiOAuthClient) : ResolvedXaiClient where
  clientId := (stored.map XaiOAuthClient.clientId).getD XAI_DEFAULT_CLIENT_ID
  deviceAuthorizationUrl :=
    (stored.bind XaiOAuthClient.deviceAuthorization).getD "https://auth.x.ai/oauth2/device/code"
  tokenUrl := (stored.bind XaiOAuthClient.token).getD "https://auth.x.ai/oauth2/token"
  apiBaseUrl := withoutSlash ((stored.bind XaiOAuthClient.api).getD "https://api.x.ai/v1")

/-! ### Stored shapes -/

/-- `StoredXaiToken`; no expiry is one that does not parse. -/
structure StoredXaiToken where
  accessToken : String
  refreshToken : Option String
  expiresAt : Option ℤ
  scopes : List String
deriving DecidableEq

/-- `StoredDevicePending`. -/
structure StoredDevicePending where
  deviceCode : String
  interval : ℕ
  expiresAt : Option ℤ
deriving DecidableEq

/-- A secret, as the schema that fits reads it. -/
inductive Secret
  | token (token : StoredXaiToken)
  | pending (pending : StoredDevicePending)
  | client (client : XaiOAuthClient)
  | text (text : String)
deriving DecidableEq

/-- `storedXaiTokenSchema`. -/
def Secret.token? : Secret → Option StoredXaiToken
  | .token t => some t
  | _ => none

/-- `storedDevicePendingSchema`. -/
def Secret.pending? : Secret → Option StoredDevicePending
  | .pending p => some p
  | _ => none

/-- `xaiOAuthClientSchema`. -/
def Secret.client? : Secret → Option XaiOAuthClient
  | .client c => some c
  | _ => none

/-- The entries of a credential's metadata that are read. -/
structure Metadata where
  userId : Option String := none
  scopes : List String := []
  health : Option String := none
  lastErrorCode : Option String := none
deriving DecidableEq

/-- What is listed of a credential. -/
structure View where
  id : String
  metadata : Metadata
deriving DecidableEq

/-! ### Answers of the provider -/

/-- `xaiTokenResponseSchema`. -/
structure TokenResponse where
  accessToken : String
  expiresIn : Option ℕ
  refreshToken : Option String
  scope : Option String
  expiresIn_pos : ∀ n ∈ expiresIn, 0 < n
deriving DecidableEq

/-- `deviceAuthorizationResponseSchema`. -/
structure DeviceAuthorization where
  deviceCode : String
  userCode : String
  verificationUri : String
  verificationUriComplete : Option String
  expiresIn : ℕ
  interval : ℕ
deriving DecidableEq

/-- A response, as the schemas read its body. -/
structure Answer where
  status : ℕ
  token : Option TokenResponse := none
  device : Option DeviceAuthorization := none
  error : Option String := none
deriving DecidableEq

/-- What is thrown; `acted` tells, where the code cannot, that the other side had acted before the
failure. -/
structure Thrown where
  category : Option ErrorCategory
  message : String
  acted : Bool := false
deriving DecidableEq

def appError (category : ErrorCategory) (message : String) : Thrown :=
  ⟨some category, message, false⟩

/-- The last instant that is a date. -/
def maxDateMs : ℤ := 8640000000000000

/-- `new Date(ms).toISOString()`, as it parses again. -/
def dateOf (ms : ℤ) : Except Thrown ℤ :=
  if -maxDateMs ≤ ms ∧ ms ≤ maxDateMs then .ok ms else .error ⟨none, "Invalid time value", false⟩

/-- `parseTokenResponse` of what the schema reads. -/
def parseTokenResponse (parsed : TokenResponse) (now : ℤ) (previousRefreshToken : Option String) :
    Except Thrown StoredXaiToken := do
  let expiresIn := parsed.expiresIn.getD (6 * 3600)
  let expiresAt ← dateOf (now + expiresIn * 1000)
  return {
    accessToken := parsed.accessToken
    refreshToken := parsed.refreshToken.or previousRefreshToken
    expiresAt := some expiresAt
    scopes := (parsed.scope.elim [] fun scope => (scope.splitOn " ").filter (· ≠ "")) }

/-- `XAI_REFRESH_SKEW_MS`. -/
def XAI_REFRESH_SKEW_MS : ℤ := 3600000

/-- `isTokenExpiring`. -/
def isTokenExpiring (token : StoredXaiToken) (now : ℤ) : Bool :=
  match token.expiresAt with
  | none => true
  | some expiresAt => expiresAt - now ≤ XAI_REFRESH_SKEW_MS

/-- `DevicePollOutcome`. -/
inductive DevicePollOutcome
  | pending (intervalSeconds : ℕ)
  | slowDown (intervalSeconds : ℕ)
  | denied
  | expired
  | success (token : StoredXaiToken)
  | error (code : String)

/-- `interpretDeviceTokenResponse`. -/
def interpretDeviceTokenResponse (answer : Answer) (intervalSeconds : ℕ) (now : ℤ) :
    Except Thrown DevicePollOutcome :=
  if 200 ≤ answer.status ∧ answer.status < 300 then
    match answer.token with
    | none => .ok (.error "malformed_token_response")
    | some token => (parseTokenResponse token now none).map .success
  else
    match answer.error with
    | none => .ok (.error "malformed_error_response")
    | some "authorization_pending" => .ok (.pending intervalSeconds)
    | some "slow_down" => .ok (.slowDown (intervalSeconds + 5))
    | some "access_denied" => .ok .denied
    | some "expired_token" => .ok .expired
    | some code => .ok (.error (Utf16.slice code 64))

/-! ### Commands -/

/-- The statements, the requests and the clock. -/
inductive Cmd
  | findCredentialByType (type : CredentialType)
  | getCredentialSecret (id : String)
  | createCredential (type : CredentialType) (secret : Secret) (metadata : Metadata)
  | updateCredentialSecret (id : String) (secret : Secret) (metadata : Metadata)
  | updateCredentialMetadata (id : String) (health lastErrorCode : String)
  | revokeCredential (id : String)
  | recordAudit (action : String) (success : Bool)
  | now
  | deviceAuthorization (client : ResolvedXaiClient)
  | devicePoll (client : ResolvedXaiClient) (deviceCode : String)
  | refreshGrant (client : ResolvedXaiClient) (refreshToken : String)
deriving DecidableEq

/-- The answers; a credential that is created is given an id, and one that is to be updated may be
gone by then. -/
abbrev Cmd.Resp : Cmd → Type
  | .findCredentialByType _ => Option View
  | .getCredentialSecret _ => Option Secret
  | .createCredential .. => String
  | .updateCredentialSecret .. => Option View
  | .updateCredentialMetadata .. | .revokeCredential _ => Unit
  | .recordAudit .. => Unit
  | .now => ℤ
  | .deviceAuthorization _ | .devicePoll .. | .refreshGrant .. => Answer

abbrev signature : Signature := ⟨Cmd, Cmd.Resp⟩

abbrev Xai (α : Type) := Prog signature Thrown α

def issue (c : Cmd) : Xai c.Resp := Prog.issue (S := signature) c

/-- `resolveXaiClientConfig`, and `resolveStoredXaiClient` of the actions. -/
def resolveXaiClientConfig : Xai ResolvedXaiClient := do
  match ← issue (.findCredentialByType .xaiOauthClient) with
  | none => pure (resolveXaiClient none)
  | some credential =>
    match ← issue (.getCredentialSecret credential.id) with
    | none => pure (resolveXaiClient none)
    | some sealed => pure (resolveXaiClient sealed.client?)

/-! ### The worker -/

/-- `refreshXaiToken`. -/
def refreshXaiToken (client : ResolvedXaiClient) (refreshToken : String) (now : ℤ) :
    Xai StoredXaiToken := do
  let answer : Answer ← issue (.refreshGrant client refreshToken)
  if answer.status ≥ 400 then
    let code := answer.error.getD "invalid_grant"
    throw (appError (if code = "invalid_grant" then .authRequired else .retryableProvider)
      s!"xAI refused the refresh grant ({code})")
  else
    match answer.token with
    | none => throw ⟨none, "token response", false⟩
    | some token => ofExcept (parseTokenResponse token now (some refreshToken))

/-- `markXaiCredentialUnhealthy`: a failure is ignored. -/
def markXaiCredentialUnhealthy (id code : String) : Xai Unit :=
  tryCatch (issue (.updateCredentialMetadata id "unhealthy" code)) fun _ => pure ()

/-- The body of the `try` block: refresh, store, hand out.  Nobody looks whether the row was still
there to store it in. -/
def refreshStored (credential : View) (refreshToken : String) (now : ℤ) : Xai String := do
  let client ← resolveXaiClientConfig
  let refreshed ← refreshXaiToken client refreshToken now
  let _ ← issue (.updateCredentialSecret credential.id (.token refreshed)
    { credential.metadata with
      scopes := refreshed.scopes
      health := some "healthy"
      lastErrorCode := none })
  pure refreshed.accessToken

/-- `resolveXaiSubscriptionToken`, given the credential's secret. -/
def useStored (credential : View) (sealed : Secret) : Xai (Option String) := do
  match sealed.token? with
  | none =>
    markXaiCredentialUnhealthy credential.id "malformed_stored_token"
    pure none
  | some token =>
    let now : ℤ ← issue .now
    if isTokenExpiring token now = false then pure (some token.accessToken)
    else
      match token.refreshToken with
      | none =>
        markXaiCredentialUnhealthy credential.id "expired_no_refresh_token"
        pure none
      | some refreshToken =>
        tryCatch (do return some (← refreshStored credential refreshToken now)) fun error => do
          markXaiCredentialUnhealthy credential.id
            (error.category.elim "refresh_failed" ErrorCategory.name)
          pure none

/-- `resolveXaiSubscriptionToken`. -/
def resolveXaiSubscriptionToken : Xai (Option String) := do
  match ← issue (.findCredentialByType .xaiUserToken) with
  | none => pure none
  | some credential =>
    match ← issue (.getCredentialSecret credential.id) with
    | none => pure none
    | some sealed => useStored credential sealed

/-- `markXaiTokenUnhealthy`. -/
def markXaiTokenUnhealthy (code : String) : Xai Unit := do
  match ← issue (.findCredentialByType .xaiUserToken) with
  | none => pure ()
  | some credential => markXaiCredentialUnhealthy credential.id code

/-- `XaiTokenSource`. -/
inductive XaiTokenSource | subscriptionOauth | storedApiKey | envApiKey
deriving DecidableEq

structure ResolvedXaiToken where
  token : String
  source : XaiTokenSource
deriving DecidableEq

/-- A key that is not blank. -/
def nonBlank (key : String) : Option String := if Text.trim key = "" then none else some key

/-- The API key that is stored. -/
def storedApiKey : Xai (Option String) := do
  match ← issue (.findCredentialByType .xaiApiKey) with
  | none => pure none
  | some stored =>
    match ← issue (.getCredentialSecret stored.id) with
    | some (.text secret) => pure (nonBlank secret)
    | _ => pure none

/-- `resolveXaiToken`. -/
def resolveXaiToken (envApiKey : Option String) : Xai (Option ResolvedXaiToken) := do
  match ← resolveXaiSubscriptionToken with
  | some token => pure (some ⟨token, .subscriptionOauth⟩)
  | none =>
    match ← storedApiKey with
    | some token => pure (some ⟨token, .storedApiKey⟩)
    | none => pure ((envApiKey.bind nonBlank).map fun token => ⟨token, .envApiKey⟩)

/-! ### The administrators -/

/-- `XaiDeviceAuthState`. -/
structure XaiDeviceAuthState where
  ok : Bool
  message : String
  userCode : Option String := none
  verificationUri : Option String := none
  verificationUriComplete : Option String := none
  intervalSeconds : Option ℕ := none
  expiresAt : Option ℤ := none

/-- A grant that is still pending is dropped. -/
def dropStale : Option View → Xai Unit
  | some stale => issue (.revokeCredential stale.id)
  | none => pure ()

/-- The `try` block of `startXaiDeviceAuthAction`. -/
def startGrant (actor : String) : Xai XaiDeviceAuthState := do
  let client ← resolveXaiClientConfig
  let answer : Answer ← issue (.deviceAuthorization client)
  match answer.device with
  | none => throw ⟨none, "device authorization response", false⟩
  | some device =>
    let now : ℤ ← issue .now
    let stale ← issue (.findCredentialByType .xaiDevicePending)
    dropStale stale
    let expiresAt ← ofExcept (dateOf (now + device.expiresIn * 1000))
    let _ ← issue (.createCredential .xaiDevicePending
      (.pending ⟨device.deviceCode, device.interval, some expiresAt⟩) { userId := some actor })
    issue (.recordAudit "credential.xai_device_start" true)
    pure {
      ok := true
      message := "Approve the code at x.ai, then this page will finish automatically."
      userCode := some device.userCode
      verificationUri := some device.verificationUri
      verificationUriComplete := device.verificationUriComplete
      intervalSeconds := some device.interval
      expiresAt := some expiresAt }

/-- `startXaiDeviceAuthAction`; no actor is a caller that may not manage credentials. -/
def startXaiDeviceAuthAction (actor : Option String) : Xai XaiDeviceAuthState :=
  match actor with
  | none => pure { ok := false, message := "Insufficient role." }
  | some actor =>
    tryCatch (startGrant actor) fun error => pure
      { ok := false
        message :=
          if error.category.isSome then s!"Could not start the connection: {error.message}"
          else "Could not reach xAI to start the connection." }

inductive PollStatus | pending | slowDown | denied | expired | success | error
deriving DecidableEq

/-- `XaiDevicePollState`. -/
structure XaiDevicePollState where
  status : PollStatus
  message : String
  intervalSeconds : Option ℕ := none

/-- `pollDeviceToken`. -/
def pollDeviceToken (client : ResolvedXaiClient) (deviceCode : String) (intervalSeconds : ℕ) :
    Xai DevicePollOutcome := do
  let answer : Answer ← issue (.devicePoll client deviceCode)
  let now : ℤ ← issue .now
  ofExcept (interpretDeviceTokenResponse answer intervalSeconds now)

/-- The token of a grant that was approved is stored in place of an older one. -/
def storeToken (token : StoredXaiToken) : Option View → Xai Unit
  | none => do
    let _ ← issue (.createCredential .xaiUserToken (.token token)
      { scopes := token.scopes, health := some "healthy" })
  | some existing => do
    let _ ← issue (.updateCredentialSecret existing.id (.token token)
      { scopes := token.scopes, health := some "healthy" })

/-- The branch of the `switch` for a grant that was approved. -/
def connect (pendingId : String) (token : StoredXaiToken) : Xai XaiDevicePollState := do
  let existing ← issue (.findCredentialByType .xaiUserToken)
  storeToken token existing
  issue (.revokeCredential pendingId)
  issue (.recordAudit "credential.xai_device_connect" true)
  pure ⟨.success, "Connected. The next scan will use your subscription.", none⟩

/-- The `switch` over the outcome. -/
def settle (pendingId : String) : DevicePollOutcome → Xai XaiDevicePollState
  | .pending intervalSeconds =>
    pure ⟨.pending, "Waiting for approval at x.ai…", some intervalSeconds⟩
  | .slowDown intervalSeconds =>
    pure ⟨.slowDown, "Waiting for approval at x.ai…", some intervalSeconds⟩
  | .denied => do
    issue (.revokeCredential pendingId)
    issue (.recordAudit "credential.xai_device_connect" false)
    pure ⟨.denied, "Approval was declined at x.ai — nothing was stored.", none⟩
  | .expired => do
    issue (.revokeCredential pendingId)
    pure ⟨.expired, "The code expired before it was approved. Try again.", none⟩
  | .error code => do
    issue (.revokeCredential pendingId)
    pure ⟨.error, s!"xAI rejected the connection ({code}).", none⟩
  | .success token => connect pendingId token

/-- The poll, for the grant that is pending. -/
def pollGrant (pendingId : String) (sealed : Option Secret) : Xai XaiDevicePollState := do
  match sealed.bind Secret.pending? with
  | none =>
    issue (.revokeCredential pendingId)
    pure ⟨.error, "Pending connection was unreadable. Start it again.", none⟩
  | some pending =>
    let now : ℤ ← issue .now
    if ∃ expiresAt ∈ pending.expiresAt, expiresAt ≤ now then
      issue (.revokeCredential pendingId)
      pure ⟨.expired, "The code expired before it was approved. Try again.", none⟩
    else
      let outcome ← Prog.attempt do
        let client ← resolveXaiClientConfig
        pollDeviceToken client pending.deviceCode pending.interval
      match outcome with
      | .error _ => pure ⟨.pending, "Waiting for approval…", some pending.interval⟩
      | .ok outcome => settle pendingId outcome

/-- `pollXaiDeviceAuthAction`. -/
def pollXaiDeviceAuthAction (actor : Option String) : Xai XaiDevicePollState := do
  match actor with
  | none => pure ⟨.error, "Insufficient role.", none⟩
  | some actor =>
    match ← issue (.findCredentialByType .xaiDevicePending) with
    | none => pure ⟨.error, "No connection in progress. Start it again.", none⟩
    | some pending =>
      if pending.metadata.userId ≠ some actor then
        pure ⟨.error, "This connection was started by another admin.", none⟩
      else
        let sealed ← issue (.getCredentialSecret pending.id)
        pollGrant pending.id sealed

/-! ### What the worker hands out -/

/-- What a resolution has read and stored, what it could not store because the row was gone, and
when it has looked at the clock. -/
structure Seen where
  now : ℤ
  read : List StoredXaiToken
  stored : List StoredXaiToken
  orphaned : List StoredXaiToken

/-- A resolution, watched. -/
def watch : Monitor signature Thrown Seen where
  guard _ _ := True
  allowed _ _ _ := True
  next seen c x :=
    match c, x with
    | .now, .ok now => { seen with now := now }
    | .getCredentialSecret _, .ok (some (.token token)) => { seen with read := token :: seen.read }
    | .updateCredentialSecret _ (.token token) _, .ok (some _) =>
      { seen with stored := token :: seen.stored }
    | .updateCredentialSecret _ (.token token) _, .ok none =>
      { seen with orphaned := token :: seen.orphaned }
    | _, _ => seen

/-- An access token with more than the skew left, or one just refreshed: stored with the refresh
token that goes with it, unless the credential was gone by then. -/
def Fresh (seen : Seen) (token : String) : Prop :=
  (∃ t ∈ seen.read, t.accessToken = token ∧
      ∃ expiresAt ∈ t.expiresAt, seen.now + XAI_REFRESH_SKEW_MS < expiresAt) ∨
    (∃ t ∈ seen.stored, t.accessToken = token ∧ ∃ expiresAt ∈ t.expiresAt, seen.now < expiresAt) ∨
    ∃ t ∈ seen.orphaned, t.accessToken = token ∧ ∃ expiresAt ∈ t.expiresAt, seen.now < expiresAt

section

variable {seen : Seen}

end

namespace Sample

/-- A token that is about to expire, and a provider that refreshes it; the row may be gone. -/
def answering (row : Option View) : (c : Cmd) → Except Thrown c.Resp
  | .findCredentialByType type => .ok (if type = .xaiUserToken then some ⟨"c1", {}⟩ else none)
  | .getCredentialSecret _ => .ok (some (.token ⟨"a1", some "r1", some 1000, []⟩))
  | .now => .ok 500
  | .refreshGrant .. => .ok { status := 200, token := some ⟨"a2", none, some "r2", none, nofun⟩ }
  | .deviceAuthorization _ | .devicePoll .. => .ok { status := 200 }
  | .createCredential .. => .ok "c2"
  | .updateCredentialSecret .. => .ok row
  | .updateCredentialMetadata .. | .revokeCredential _ | .recordAudit .. => .ok ()

end Sample

end XaiOAuth
