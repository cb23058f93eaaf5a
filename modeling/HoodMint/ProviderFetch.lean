/-
Requests to providers (`packages/providers/src/http.ts`).

* `Response`, `Answer`, `FetchImpl.outcome` — what comes back of a request: the platform's `fetch`
  rejects a redirect, another implementation may let it through;
* `readBounded`, `settle`, `caught` — the body of the loop and its `catch` block; `next`, one pass;
* `next_again` — a pass goes on only while attempts are left;
* `fetchJson` — the loop, with what is sent and waited for.
-/
import HoodMint.Lib.Redact
import HoodMint.Lib.Utf16
import Mathlib.Algebra.Group.Nat.Defs
import Mathlib.Logic.Function.Basic

namespace ProviderHttp

open Utf16

/-! ### Errors -/

/-- `ErrorCategory`. -/
inductive ErrorCategory
  | authRequired | rateLimited | retryableProvider | invalidPayload | permanentConfig | notFound
  | forbidden | conflict
deriving DecidableEq

def ErrorCategory.name : ErrorCategory → String
  | authRequired => "AuthRequired"
  | rateLimited => "RateLimited"
  | retryableProvider => "RetryableProvider"
  | invalidPayload => "InvalidPayload"
  | permanentConfig => "PermanentConfig"
  | notFound => "NotFound"
  | forbidden => "Forbidden"
  | conflict => "Conflict"

/-- `AppError`; the other fields follow from the category. -/
structure AppError where
  category : ErrorCategory
  message : JsString
  hint : Option JsString := none
  retryAfterSeconds : Option ℕ := none
deriving DecidableEq

/-- What can be thrown: an `AppError`, another `Error`, or anything else. -/
inductive Thrown
  | app (error : AppError)
  | error (message : JsString)
  | other
deriving DecidableEq

/-- `error instanceof Error ? error.message : "network error"` -/
def Thrown.message : Thrown → JsString
  | .app e => e.message
  | .error message => message
  | .other => ofText "network error"

def appError (category : ErrorCategory) (message : JsString) : Thrown := .app { category, message }

/-! ### Responses -/

/-- Headers, by their names in lower case. -/
abbrev Headers := String → Option JsString

/-- What is read of a body, and what the stream breaks with. -/
structure Body where
  chunks : List (List UInt8)
  failure : Option Thrown

/-- A response, of a status that `fetch` can give. -/
structure Response where
  status : ℕ
  headers : Headers
  body : Option Body
  status_ge : 200 ≤ status

/-- What becomes of a request: a response, or a timeout or an error of the network. -/
inductive Answer
  | response (response : Response)
  | failed (error : Thrown)

/-- The platform's `fetch`, or the one that the caller gives. -/
inductive FetchImpl | platform | given
deriving DecidableEq

/-- The statuses that `redirect` is about. -/
def redirectStatuses : List ℕ := [301, 302, 303, 307, 308]

/-- What a call of it with `redirect: "error"` comes to. -/
def FetchImpl.outcome : FetchImpl → Answer → Except Thrown Response
  | _, .failed error => .error error
  | .given, .response response => .ok response
  | .platform, .response response =>
    if response.status ∈ redirectStatuses then .error (.error (ofText "fetch failed"))
    else .ok response

/-- `TextDecoder` and `JSON.parse`, which reads `null` as no value. -/
structure Platform (J : Type) where
  decode : List UInt8 → JsString
  parse : JsString → Option (Option J)

/-- `Number.parseInt(raw, 10)`. -/
def parseInt (raw : JsString) : Option ℤ :=
  let text := raw.dropWhile isSpace
  let unsigned := if text.head? = some 43 ∨ text.head? = some 45 then text.tail else text
  let digits := unsigned.takeWhile fun u => 48 ≤ u ∧ u ≤ 57
  if digits = [] then none
  else
    let value : ℕ := digits.foldl (fun n u => 10 * n + (u.toNat - 48)) 0
    some (if text.head? = some 45 then -value else value)

/-- `retryAfterSeconds`. -/
def retryAfterSeconds (headers : Headers) : Option ℕ :=
  (headers "retry-after").bind fun raw =>
    (parseInt raw).map fun parsed => (min (max parsed 0) 600).toNat

/-- `headersToRecord`. -/
def headersToRecord (headers : Headers) : Headers := fun name =>
  if name ∈ ["x-api-key", "authorization", "cookie"] then
    (headers name).map fun _ => ofText "[REDACTED]"
  else headers name

/-- The chunks of a body, as long as they stay within the limit. -/
def readChunks (maxBytes : ℕ) (failure : Option Thrown) :
    ℕ → List (List UInt8) → Except Thrown (List UInt8)
  | _, [] =>
    match failure with
    | some error => .error error
    | none => .ok []
  | total, chunk :: chunks =>
    if maxBytes < total + chunk.length then
      .error (appError .invalidPayload (ofText "response body exceeds limit"))
    else (readChunks maxBytes failure (total + chunk.length) chunks).map fun rest => chunk ++ rest

/-- `readBounded`. -/
def readBounded {J : Type} (p : Platform J) (response : Response) (maxBytes : ℕ) :
    Except Thrown JsString :=
  if ∃ length ∈ (response.headers "content-length").bind parseInt, (maxBytes : ℤ) < length then
    .error (.app
      { category := .invalidPayload
        message := ofText "response body exceeds limit"
        hint := some (ofText "provider returned >" ++ ofText maxBytes.repr ++ ofText " bytes") })
  else
    match response.body with
    | none => .ok []
    | some body => (readChunks maxBytes body.failure 0 body.chunks).map p.decode

section

variable {ε α β : Type} {x : Except ε α} {b : β}

theorem bind_eq_ok {f : α → Except ε β} (h : x.bind f = .ok b) : ∃ a, x = .ok a ∧ f a = .ok b := by
  cases x with
  | error e => cases h
  | ok a => exact ⟨a, rfl, h⟩

theorem map_eq_ok {f : α → β} (h : x.map f = .ok b) : ∃ a, x = .ok a ∧ f a = b := by
  cases x with
  | error e => cases h
  | ok a => exact ⟨a, rfl, Except.ok.inj h⟩

end

section

variable {J : Type} {p : Platform J} {maxBytes total : ℕ} {failure : Option Thrown}

/-- The chunks that are kept are within the limit. -/
theorem readChunks_ok {chunks : List (List UInt8)} {bytes : List UInt8}
    (h : readChunks maxBytes failure total chunks = .ok bytes) (htotal : total ≤ maxBytes) :
    bytes = chunks.flatten ∧ total + bytes.length ≤ maxBytes := by
  induction chunks generalizing total bytes with
  | nil =>
    cases failure with
    | some error => cases h
    | none =>
      obtain rfl := Except.ok.inj h
      exact ⟨rfl, htotal⟩
  | cons chunk chunks ih =>
    rw [readChunks] at h
    split_ifs at h with hlimit
    obtain ⟨rest, hrest, rfl⟩ := map_eq_ok h
    obtain ⟨rfl, hle⟩ := ih hrest (not_lt.mp hlimit)
    rw [List.flatten_cons, List.length_append]
    exact ⟨rfl, by omega⟩

/-- **A body that is read** is all there, and within the limit. -/
theorem readBounded_ok {response : Response} {text : JsString}
    (h : readBounded p response maxBytes = .ok text) : ∀ body ∈ response.body,
      text = p.decode body.chunks.flatten ∧ body.chunks.flatten.length ≤ maxBytes := by
  intro body hbody
  rw [readBounded, Option.mem_def.mp hbody] at h
  split_ifs at h with hlength
  obtain ⟨bytes, hread, rfl⟩ := map_eq_ok h
  obtain ⟨rfl, hle⟩ := readChunks_ok hread (Nat.zero_le _)
  exact ⟨rfl, by omega⟩

end

/-! ### Calls -/

inductive Method | get | post
deriving DecidableEq

/-- The name of the method. -/
def Method.text : Method → JsString
  | .get => ofText "GET"
  | .post => ofText "POST"

/-- `FetchJsonOptions`, with its defaults. -/
structure FetchJsonOptions where
  fetchImpl : FetchImpl := .platform
  timeoutMs : ℕ := 15000
  maxBytes : ℕ := 2 * 1024 * 1024
  retries : ℕ := 2
  maxRetryDelayMs : ℕ := 30000
  headers : Headers := fun _ => none
  method : Method := .get
  body : Option JsString := none
  allowStatuses : List ℕ := []

/-- `FetchJsonResult`; no `json` is `null`. -/
structure FetchJsonResult (J : Type) where
  status : ℕ
  headers : Headers
  json : Option J
  fromCache : Bool

/-- What is stored with an etag. -/
structure Entry (J : Type) where
  etag : JsString
  json : J

def cacheKey (method : Method) (url : JsString) : JsString := method.text ++ 32 :: url

/-- The cache of etags, in which only answers to `GET` are stored. -/
structure EtagCache (J : Type) where
  get : JsString → Option (Entry J)
  get_post : ∀ url, get (cacheKey .post url) = none

/-- What is sent, with `redirect: "error"`. -/
structure Request where
  method : Method
  url : JsString
  headers : Headers
  body : Option JsString
  timeoutMs : ℕ

theorem queryPattern_eq : ∀ g ∈ ([[63]] : List JsString), ∃ a body, g = a :: body ∧
    decide (a = 63) = true ∧ ∀ b ∈ body, decide (b = (63 : UInt16)) = false := by
  intro g hg
  exact ⟨63, [], List.mem_singleton.mp hg, by decide, fun b hb => absurd hb List.not_mem_nil⟩

theorem queryPattern_unique : ∀ g ∈ ([[63]] : List JsString), ∀ g' ∈ ([[63]] : List JsString),
    g <+: g' → g = g' := by
  intro g hg g' hg' _
  rw [List.mem_singleton.mp hg, List.mem_singleton.mp hg']

theorem queryPattern_mark : ∀ u ∈ ([0x2026] : JsString), decide (u = 63) = false ∧
    isSpace u = false := by
  intro u hu
  rw [List.mem_singleton.mp hu]
  exact ⟨by decide, by decide⟩

/-- What one call has to do with. -/
structure Call (J : Type) where
  platform : Platform J
  url : JsString
  options : FetchJsonOptions
  etagCache : Option (EtagCache J)

/-- What becomes of each attempt, and the draws of the delays. -/
structure Network where
  answer : ℕ → Answer
  jitter : ℕ → ℕ → ℕ

namespace Call

variable {J : Type} (call : Call J) (net : Network)

/-- What is stored for the URL. -/
def cached : Option (Entry J) :=
  call.etagCache.bind fun cache => cache.get (cacheKey call.options.method call.url)

/-- The headers, without the type of the body. -/
def conditional : Headers :=
  let accepting : Headers := fun name =>
    (call.options.headers name).or
      (if name = "accept" then some (ofText "application/json") else none)
  match call.options.method, call.cached with
  | .get, some entry => Function.update accepting "if-none-match" (some entry.etag)
  | _, _ => accepting

def request : Request where
  method := call.options.method
  url := call.url
  headers :=
    if call.options.body.isSome ∧ call.conditional "content-type" = none then
      Function.update call.conditional "content-type" (some (ofText "application/json"))
    else call.conditional
  body := call.options.body
  timeoutMs := call.options.timeoutMs

/-- Whether an attempt may be followed by another. -/
def CanRetry (attempt : ℕ) : Prop := call.options.method = .get ∧ attempt < call.options.retries

instance (attempt : ℕ) : Decidable (call.CanRetry attempt) :=
  (inferInstance : Decidable (call.options.method = .get ∧ attempt < call.options.retries))

/-- `fullJitterDelay`. -/
def fullJitterDelay (attempt : ℕ) : ℕ :=
  net.jitter attempt (min (1000 * 2 ^ attempt) call.options.maxRetryDelayMs)

/-- What the body of the loop ends with, unless it throws. -/
inductive Turn (J : Type)
  | returns (result : FetchJsonResult J) (stored : Option (Entry J))
  | again (delayMs : ℕ)

def tooManyRequests (retryAfter : Option ℕ) : Thrown :=
  .app
    { category := .rateLimited
      message := ofText "provider rate limited"
      hint := some (ofText "quota reserve reached or upstream 429")
      retryAfterSeconds := retryAfter }

/-- The category of a status that is none of the others. -/
def clientCategory (status : ℕ) : ErrorCategory :=
  if status = 400 ∨ status = 409 ∨ status = 422 then .invalidPayload else .retryableProvider

/-- A response that is taken as a result. -/
def accept (response : Response) : Except Thrown (Turn J) :=
  (readBounded call.platform response call.options.maxBytes).bind fun text =>
    if text = [] then
      .ok (.returns ⟨response.status, headersToRecord response.headers, none, false⟩ none)
    else
      match call.platform.parse text with
      | none => .error (appError .invalidPayload (ofText "provider returned malformed JSON"))
      | some json =>
        .ok (.returns ⟨response.status, headersToRecord response.headers, json, false⟩
          (match call.options.method, response.headers "etag", json with
          | .get, some etag, some json => some ⟨etag, json⟩
          | _, _, _ => none))

/-- The body of the loop, from the response on. -/
def settle (attempt : ℕ) (response : Response) : Except Thrown (Turn J) :=
  match if response.status = 304 then call.cached else none with
  | some entry =>
    .ok (.returns ⟨200, headersToRecord response.headers, some entry.json, true⟩ none)
  | none =>
    if 300 ≤ response.status ∧ response.status < 400 then
      .error (appError .permanentConfig (ofText "redirect blocked by outbound policy"))
    else if response.status ∈ call.options.allowStatuses then
      (readBounded call.platform response call.options.maxBytes).map fun text =>
        .returns ⟨response.status, headersToRecord response.headers,
          if text = [] then none else (call.platform.parse text).getD none, false⟩ none
    else if response.status = 429 ∨ 500 ≤ response.status then
      let retryAfter := retryAfterSeconds (headersToRecord response.headers)
      if call.CanRetry attempt then
        .ok (.again (match retryAfter with
          | some seconds => seconds * 1000
          | none => call.fullJitterDelay net attempt))
      else if response.status = 429 then .error (tooManyRequests retryAfter)
      else
        .error (appError .retryableProvider
          (ofText "provider server error (" ++ ofText response.status.repr ++ ofText ")"))
    else if response.status = 401 ∨ response.status = 403 then
      .error (appError .authRequired
        (ofText "provider rejected credentials (" ++ ofText response.status.repr ++ ofText ")"))
    else if response.status = 404 then .error (appError .notFound (ofText "resource not found"))
    else if 400 ≤ response.status then
      (readBounded call.platform response 4096).bind fun text =>
        .error (appError (clientCategory response.status)
          (ofText "provider returned " ++ ofText response.status.repr ++ ofText ": " ++
            text.take 200))
    else call.accept response

/-- `message.replace(/[?]\S+/g, "?…")` -/
def queryPattern : Redact.Pattern UInt16 where
  fold := id
  head u := u = 63
  groups := [[63]]
  stop := isSpace
  mark := [0x2026]
  head_fold _ := rfl
  group_eq := queryPattern_eq
  group_unique := queryPattern_unique
  mark_ne_nil := List.cons_ne_nil _ _
  mark_head u hu := (queryPattern_mark u hu).1
  mark_stop u hu := (queryPattern_mark u hu).2

/-- The `catch` block: the delay before the next attempt, or what is thrown. -/
def caught (attempt : ℕ) : Thrown → Except Thrown ℕ
  | .app error =>
    if call.CanRetry attempt ∧ (error.category = .retryableProvider ∨
        error.category = .rateLimited ∧ error.retryAfterSeconds.isSome) then
      .ok (match error.category, error.retryAfterSeconds with
        | .rateLimited, some seconds => seconds * 1000
        | _, _ => call.fullJitterDelay net attempt)
    else .error (.app error)
  | raw =>
    if call.CanRetry attempt then .ok (call.fullJitterDelay net attempt)
    else
      .error (appError .retryableProvider
        (ofText "network failure: " ++ queryPattern.replace raw.message))

/-- What one pass of the loop ends with. -/
inductive Next (J : Type)
  | stop (result : Except Thrown (FetchJsonResult J)) (stored : Option (Entry J))
  | again (delayMs : ℕ)

def next (attempt : ℕ) : Next J :=
  match (call.options.fetchImpl.outcome (net.answer attempt)).bind (call.settle net attempt) with
  | .ok (.returns result stored) => .stop (.ok result) stored
  | .ok (.again delayMs) => .again delayMs
  | .error error =>
    match call.caught net attempt error with
    | .ok delayMs => .again delayMs
    | .error error => .stop (.error error) none

/-! ### Passes that go on -/

section

variable {call net} {attempt delayMs : ℕ} {response : Response} {error : Thrown}

theorem caught_raw (h : ∀ e, error ≠ .app e) : call.caught net attempt error =
    if call.CanRetry attempt then .ok (call.fullJitterDelay net attempt)
    else
      .error (appError .retryableProvider
        (ofText "network failure: " ++ queryPattern.replace error.message)) := by
  cases error with
  | app e => exact absurd rfl (h e)
  | error | other => rfl

theorem caught_ok (h : call.caught net attempt error = .ok delayMs) : call.CanRetry attempt := by
  cases error with
  | app e =>
    rw [caught] at h
    split at h
    · next hretry => exact hretry.1
    · cases h
  | error | other =>
    rw [caught_raw fun _ h => Thrown.noConfusion h] at h
    split at h
    · next hretry => exact hretry
    · cases h

theorem accept_again : call.accept response ≠ .ok (.again delayMs) := by
  intro h
  obtain ⟨text, -, hturn⟩ := bind_eq_ok h
  split at hturn
  · cases hturn
  · split at hturn <;> cases hturn

/-- A pass goes on only while attempts are left. -/
theorem settle_again (h : call.settle net attempt response = .ok (.again delayMs)) :
    call.CanRetry attempt := by
  rw [settle] at h
  split at h
  · cases h
  · split_ifs at h with hredirect hallowed hbusy hretry
    · obtain ⟨text, -, hturn⟩ := map_eq_ok h
      cases hturn
    · exact hretry
    · obtain ⟨text, -, hturn⟩ := bind_eq_ok h
      cases hturn
    · exact absurd h accept_again

theorem next_again (h : call.next net attempt = .again delayMs) : call.CanRetry attempt := by
  rw [next] at h
  split at h
  · cases h
  · next hturn =>
    obtain ⟨response, -, hsettle⟩ := bind_eq_ok hturn
    exact settle_again hsettle
  · split at h
    · next hcaught => exact caught_ok hcaught
    · cases h

end

/-! ### The loop -/

end Call

/-- What a call has sent and waited for, and what it has come to. -/
structure Transcript (J : Type) where
  requests : List Request
  delays : List ℕ
  result : Except Thrown (FetchJsonResult J)
  stored : Option (Entry J)

namespace Call

variable {J : Type} (call : Call J) (net : Network)

/-- The loop, from an attempt on. -/
def loop (attempt : ℕ) : Transcript J :=
  match h : call.next net attempt with
  | .stop result stored => ⟨[call.request], [], result, stored⟩
  | .again delayMs =>
    let rest := loop (attempt + 1)
    { rest with requests := call.request :: rest.requests, delays := delayMs :: rest.delays }
termination_by call.options.retries - attempt
decreasing_by
  have hretry := (next_again h).2
  omega

/-- `fetchJson`. -/
def fetchJson : Transcript J := call.loop net 0

end Call

end ProviderHttp
