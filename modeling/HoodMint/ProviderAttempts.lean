/-
The attempts of a request to a provider.

* `Answered` — what a result may come from;
* `stop_ok`, `stop_error` — a pass of the loop that stops returns what was answered or throws an
  `AppError`; `next_redirect`, `next_rejected`: it stops at a redirect that was let through, and
  goes on after one that the platform has rejected;
* `attempts` — a call is some passes that go on and one that stops;
* `bounded_iff` — all that is asked of a call, which holds just when no redirect that is to be
  retried is rejected; `moved_permanently`, one that is.
-/
import HoodMint.ProviderFetch

namespace ProviderHttp

open Utf16

namespace Call

variable {J : Type} (call : Call J) (net : Network)

/-! ### Passes that stop -/

section

variable {call net} {attempt delayMs : ℕ} {response : Response} {error : Thrown}
  {result : FetchJsonResult J} {stored : Option (Entry J)}

/-- Nothing raw leaves the loop. -/
theorem caught_error {error' : Thrown} (h : call.caught net attempt error = .error error') :
    ∃ e, error' = .app e := by
  cases error with
  | app e =>
    rw [caught] at h
    split at h
    · cases h
    · exact ⟨e, (Except.error.inj h).symm⟩
  | error | other =>
    rw [caught_raw fun _ h => Thrown.noConfusion h] at h
    split at h
    · cases h
    · exact ⟨_, (Except.error.inj h).symm⟩

/-- What the result of a call may come from: a body that is empty or JSON, a status that the caller
has listed, or the answer that what is stored is still good. -/
inductive Answered (call : Call J) :
    Response → FetchJsonResult J → Option (Entry J) → Prop
  | body {response : Response} {text : JsString} {json : Option J} {stored : Option (Entry J)}
      (hstatus : response.status < 300)
      (hread : readBounded call.platform response call.options.maxBytes = .ok text)
      (hbody : ∀ body ∈ response.body, text = call.platform.decode body.chunks.flatten ∧
        body.chunks.flatten.length ≤ call.options.maxBytes)
      (hjson : text = [] ∧ json = none ∨ call.platform.parse text = some json)
      (hstored : ∀ entry ∈ stored, call.options.method = .get ∧
        response.headers "etag" = some entry.etag ∧ json = some entry.json) :
      Answered call response
        ⟨response.status, headersToRecord response.headers, json, false⟩ stored
  | allowed {response : Response} {json : Option J}
      (hstatus : ¬ (300 ≤ response.status ∧ response.status < 400))
      (hallowed : response.status ∈ call.options.allowStatuses) :
      Answered call response
        ⟨response.status, headersToRecord response.headers, json, false⟩ none
  | notModified {response : Response} {entry : Entry J} (hstatus : response.status = 304)
      (hmethod : call.options.method = .get) (hcached : call.cached = some entry)
      (hsent : call.request.headers "if-none-match" = some entry.etag) :
      Answered call response
        ⟨200, headersToRecord response.headers, some entry.json, true⟩ none

/-- Only a `GET` has something stored, and it asks with its etag. -/
theorem cached_sent {entry : Entry J} (h : call.cached = some entry) :
    call.options.method = .get ∧ call.request.headers "if-none-match" = some entry.etag := by
  cases hmethod : call.options.method with
  | post =>
    obtain ⟨cache, -, hget⟩ := Option.bind_eq_some_iff.mp h
    rw [hmethod, cache.get_post] at hget
    cases hget
  | get =>
    have hetag : call.conditional "if-none-match" = some entry.etag := by
      rw [conditional, hmethod, h]
      exact Function.update_self _ _ _
    refine ⟨rfl, ?_⟩
    show (if call.options.body.isSome ∧ call.conditional "content-type" = none then
      Function.update call.conditional "content-type" (some (ofText "application/json"))
        else call.conditional) "if-none-match" = _
    split
    · rw [Function.update_of_ne (by decide), hetag]
    · exact hetag

theorem accept_returns (hstatus : response.status < 300)
    (h : call.accept response = .ok (.returns result stored)) :
    call.Answered response result stored := by
  obtain ⟨text, hread, hturn⟩ := bind_eq_ok h
  split at hturn
  · next hempty =>
    obtain ⟨rfl, rfl⟩ := Turn.returns.inj (Except.ok.inj hturn)
    exact .body hstatus hread (readBounded_ok hread) (Or.inl ⟨hempty, rfl⟩)
      fun entry hentry => by cases hentry
  · split at hturn
    · cases hturn
    · next json hparse =>
      obtain ⟨rfl, rfl⟩ := Turn.returns.inj (Except.ok.inj hturn)
      refine .body hstatus hread (readBounded_ok hread) (Or.inr hparse) fun entry hentry => ?_
      split at hentry
      · next hmethod hetag =>
        obtain rfl := Option.some_inj.mp hentry
        exact ⟨hmethod, hetag, rfl⟩
      · cases hentry

theorem settle_returns (h : call.settle net attempt response = .ok (.returns result stored)) :
    call.Answered response result stored := by
  rw [settle] at h
  split at h
  · next entry hcached =>
    obtain ⟨rfl, rfl⟩ := Turn.returns.inj (Except.ok.inj h)
    split_ifs at hcached with hstatus
    obtain ⟨hmethod, hsent⟩ := cached_sent hcached
    exact .notModified hstatus hmethod hcached hsent
  · split_ifs at h with hredirect hallowed hbusy hretry hquota hauth hmissing hclient
    · obtain ⟨text, -, hturn⟩ := map_eq_ok h
      obtain ⟨rfl, rfl⟩ := Turn.returns.inj hturn
      exact .allowed hredirect hallowed
    · cases h
    · obtain ⟨text, -, hturn⟩ := bind_eq_ok h
      cases hturn
    · exact accept_returns (by omega) h

/-- A redirect that is let through is a hard stop. -/
theorem settle_redirect (hge : 300 ≤ response.status) (hlt : response.status < 400) :
    (∃ entry : Entry J, call.settle net attempt response =
        .ok (.returns ⟨200, headersToRecord response.headers, some entry.json, true⟩ none)) ∨
      call.settle net attempt response =
        .error (appError .permanentConfig (ofText "redirect blocked by outbound policy")) := by
  rw [settle]
  split
  · next entry _ => exact Or.inl ⟨entry, rfl⟩
  · rw [if_pos ⟨hge, hlt⟩]
    exact Or.inr rfl

/-- What comes back of a request that was not rejected. -/
theorem outcome_ok {impl : FetchImpl} {answer : Answer} (h : impl.outcome answer = .ok response) :
    answer = .response response ∧
      ¬ (impl = .platform ∧ response.status ∈ redirectStatuses) := by
  cases answer with
  | failed error => cases h
  | response r =>
    cases impl with
    | given =>
      obtain rfl := Except.ok.inj h
      exact ⟨rfl, fun h => FetchImpl.noConfusion h.1⟩
    | platform =>
      rw [FetchImpl.outcome] at h
      split_ifs at h with hredirect
      obtain rfl := Except.ok.inj h
      exact ⟨rfl, fun h => hredirect h.2⟩

/-- **What a call returns** comes from the last answer. -/
theorem stop_ok (h : call.next net attempt = .stop (.ok result) stored) :
    ∃ response, net.answer attempt = .response response ∧
      call.Answered response result stored := by
  rw [next] at h
  split at h
  · next hturn =>
    obtain ⟨hresult, rfl⟩ := Next.stop.inj h
    obtain rfl := Except.ok.inj hresult
    obtain ⟨response, houtcome, hsettle⟩ := bind_eq_ok hturn
    exact ⟨response, (outcome_ok houtcome).1, settle_returns hsettle⟩
  · cases h
  · split at h <;> cases h

/-- **What a call throws** is an `AppError`. -/
theorem stop_error (h : call.next net attempt = .stop (.error error) stored) :
    ∃ e, error = .app e := by
  rw [next] at h
  split at h
  · cases h
  · cases h
  · split at h
    · cases h
    · next hcaught =>
      obtain ⟨herror, -⟩ := Next.stop.inj h
      obtain rfl := Except.error.inj herror
      exact caught_error hcaught

/-- **A redirect that is let through** ends the call. -/
theorem next_redirect (hanswer : net.answer attempt = .response response)
    (hge : 300 ≤ response.status) (hlt : response.status < 400)
    (hpassed : ¬ (call.options.fetchImpl = .platform ∧ response.status ∈ redirectStatuses)) :
    ∃ outcome, call.next net attempt = .stop outcome none := by
  have houtcome : call.options.fetchImpl.outcome (net.answer attempt) = .ok response := by
    rw [hanswer]
    cases himpl : call.options.fetchImpl with
    | given => rfl
    | platform =>
      rw [FetchImpl.outcome, if_neg fun hstatus => hpassed ⟨himpl, hstatus⟩]
  have hbind : (call.options.fetchImpl.outcome (net.answer attempt)).bind
      (call.settle net attempt) = call.settle net attempt response := by
    rw [houtcome]
    rfl
  rw [next, hbind]
  rcases @settle_redirect J call net attempt response hge hlt with ⟨entry, hsettle⟩ | hsettle
  · rw [hsettle]
    exact ⟨_, rfl⟩
  · -- the `catch` block does not retry this category
    rw [hsettle]
    refine ⟨.error (appError .permanentConfig (ofText "redirect blocked by outbound policy")), ?_⟩
    have hcaught : call.caught net attempt
        (appError .permanentConfig (ofText "redirect blocked by outbound policy")) =
          .error (appError .permanentConfig (ofText "redirect blocked by outbound policy")) :=
      if_neg fun h => h.2.elim (fun h => ErrorCategory.noConfusion h)
        fun h => ErrorCategory.noConfusion h.1
    simp only [hcaught]

/-- **A redirect that is rejected** is tried again while attempts are left. -/
theorem next_rejected (hanswer : net.answer attempt = .response response)
    (hplatform : call.options.fetchImpl = .platform)
    (hstatus : response.status ∈ redirectStatuses) (hretry : call.CanRetry attempt) :
    ∃ delayMs, call.next net attempt = .again delayMs := by
  have hbind : (call.options.fetchImpl.outcome (net.answer attempt)).bind
      (call.settle net attempt) = .error (.error (ofText "fetch failed")) := by
    rw [hanswer, hplatform, FetchImpl.outcome, if_pos hstatus]
    rfl
  have hcaught : call.caught net attempt (.error (ofText "fetch failed")) =
      .ok (call.fullJitterDelay net attempt) := if_pos hretry
  refine ⟨call.fullJitterDelay net attempt, ?_⟩
  rw [next, hbind]
  simp only [hcaught]

end

/-! ### Calls -/

/-- A pass of the loop goes on to the next. -/
def GoesOn (attempt : ℕ) : Prop := ∃ delayMs, call.next net attempt = .again delayMs

section

variable {call net} {attempt : ℕ}

/-- **The attempts of a call**: some passes that go on, and one that stops. -/
theorem attempts (attempt : ℕ) : ∃ n, (∀ j < n, call.GoesOn net (attempt + j)) ∧
    (call.loop net attempt).requests = List.replicate (n + 1) call.request ∧
      call.next net (attempt + n) =
        .stop (call.loop net attempt).result (call.loop net attempt).stored := by
  induction attempt using loop.induct call net with
  | case1 attempt result stored hnext =>
    refine ⟨0, fun j hj => absurd hj (Nat.not_lt_zero j), ?_⟩
    rw [loop]
    split
    · next hnext' =>
      rw [hnext] at hnext'
      obtain ⟨rfl, rfl⟩ := Next.stop.inj hnext'
      exact ⟨rfl, hnext⟩
    · next hnext' =>
      rw [hnext] at hnext'
      cases hnext'
  | case2 attempt delayMs hnext ih =>
    obtain ⟨n, hgoes, hrequests, hstop⟩ := ih
    have hloop : (call.loop net attempt).requests =
          call.request :: (call.loop net (attempt + 1)).requests ∧
        (call.loop net attempt).result = (call.loop net (attempt + 1)).result ∧
          (call.loop net attempt).stored = (call.loop net (attempt + 1)).stored := by
      rw [loop]
      split
      · next hnext' =>
        rw [hnext] at hnext'
        cases hnext'
      · exact ⟨rfl, rfl, rfl⟩
    refine ⟨n + 1, fun j hj => ?_, ?_, ?_⟩
    · cases j with
      | zero => exact ⟨delayMs, hnext⟩
      | succ j =>
        rw [Nat.add_succ, ← Nat.succ_add]
        exact hgoes j (Nat.lt_of_succ_lt_succ hj)
    · rw [hloop.1, hrequests, List.replicate_succ (n := n + 1)]
    · rw [hloop.2.1, hloop.2.2, Nat.add_succ, ← Nat.succ_add]
      exact hstop

end

/-- What is asked of a call. -/
structure Bounded : Prop where
  requests_eq : ∀ sent ∈ (call.fetchJson net).requests, sent = call.request
  post : call.options.method = .post → (call.fetchJson net).requests.length ≤ 1
  get : (call.fetchJson net).requests.length ≤ call.options.retries + 1
  redirect : ∀ k response, net.answer k = .response response → 300 ≤ response.status →
    response.status < 400 → (call.fetchJson net).requests.length ≤ k + 1
  returns : ∀ result, (call.fetchJson net).result = .ok result → ∃ response,
    net.answer ((call.fetchJson net).requests.length - 1) = .response response ∧
      call.Answered response result (call.fetchJson net).stored
  throws : ∀ error, (call.fetchJson net).result = .error error → ∃ e, error = .app e

/-- No redirect is rejected at an attempt that is made and may be followed by another. -/
def NoRejected : Prop :=
  call.options.method = .get → call.options.fetchImpl = .platform →
    ∀ k < call.options.retries, (∀ j < k, call.GoesOn net j) →
      ∀ response, net.answer k = .response response → response.status ∉ redirectStatuses

/-- **When a call is bounded.**  All but the rule about redirects always holds. -/
theorem bounded_iff : call.Bounded net ↔ call.NoRejected net := by
  obtain ⟨n, hgoes, hrequests, hstop⟩ := @attempts J call net 0
  simp only [Nat.zero_add] at hgoes hstop
  have hlength : (call.fetchJson net).requests.length = n + 1 := by
    rw [fetchJson, hrequests, List.length_replicate]
  -- each pass that goes on is allowed to
  have hretry : ∀ j < n, call.CanRetry j := fun j hj => (hgoes j hj).elim fun _ h => next_again h
  constructor
  · intro h hget hplatform k hk hreached response hanswer hstatus
    have hgoes' := next_rejected hanswer hplatform hstatus ⟨hget, hk⟩
    have hkn : k < n := by
      by_contra hnot
      rcases Nat.lt_or_ge n k with hnk | hkn
      · obtain ⟨delayMs, hagain⟩ := hreached n hnk
        rw [hstop] at hagain
        cases hagain
      · obtain rfl : k = n := by omega
        obtain ⟨delayMs, hagain⟩ := hgoes'
        rw [hstop] at hagain
        cases hagain
    have hrange : ∀ status ∈ redirectStatuses, 300 ≤ status ∧ status < 400 := by decide
    have hle := h.redirect k response hanswer (hrange _ hstatus).1 (hrange _ hstatus).2
    omega
  · intro h
    constructor
    · intro sent hsent
      rw [fetchJson, hrequests] at hsent
      exact List.eq_of_mem_replicate hsent
    · intro hpost
      rw [hlength]
      by_contra hmore
      have hmethod := (hretry 0 (by omega)).1
      rw [hpost] at hmethod
      cases hmethod
    · rw [hlength]
      by_contra hmore
      have hlt := (hretry (n - 1) (by omega)).2
      omega
    · intro k response hanswer hge hlt
      rw [hlength]
      by_contra hmore
      have hk : k < n := by omega
      by_cases hrejected : call.options.fetchImpl = .platform ∧ response.status ∈ redirectStatuses
      · exact h (hretry k hk).1 hrejected.1 k (hretry k hk).2
          (fun j hj => hgoes j (hj.trans hk)) response hanswer hrejected.2
      · obtain ⟨outcome, hended⟩ := next_redirect hanswer hge hlt hrejected
        obtain ⟨delayMs, hagain⟩ := hgoes k hk
        rw [hended] at hagain
        cases hagain
    · intro result hresult
      rw [hlength, Nat.add_sub_cancel]
      exact stop_ok (hstop.trans (by rw [← fetchJson, hresult]))
    · intro error herror
      exact stop_error (hstop.trans (by rw [← fetchJson, herror]))

end Call

/-- A page that has moved for good, asked for with all the defaults: it is asked for again. -/
theorem moved_permanently : ¬∀ (call : Call Unit) (net : Network), call.Bounded net := by
  intro h
  let call : Call Unit := ⟨⟨fun _ => [], fun _ => none⟩, ofText "https://api.example/", {}, none⟩
  let net : Network :=
    ⟨fun _ => .response ⟨301, fun _ => none, none, by decide⟩, fun _ _ => 0⟩
  have hlength : (call.fetchJson net).requests.length ≤ 1 :=
    (h call net).redirect 0 _ rfl (by decide) (by decide)
  obtain ⟨n, -, hrequests, hstop⟩ := @Call.attempts Unit call net 0
  rw [Call.fetchJson, hrequests, List.length_replicate] at hlength
  obtain rfl : n = 0 := by omega
  obtain ⟨delayMs, hagain⟩ := @Call.next_rejected Unit call net 0 _ rfl rfl (by decide)
    ⟨rfl, by decide⟩
  rw [hagain] at hstop
  cases hstop

end ProviderHttp
