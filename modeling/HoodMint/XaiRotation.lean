/-
One program and the refresh token (`apps/worker/src/credentials.ts`,
`packages/providers/src/xai/oauth.ts`).

The provider rotates the refresh token: a refresh gives a new one and spends the one presented.

* `Heard` — the resolution hears what the provider has done, and stores it;
* `rotates` — a resolution refreshes once, a token that it has read, and stores what it is given
  where it has read that token;
* `entry_rotates` — so does whoever is at work.
-/
import HoodMint.XaiRuns

namespace XaiOAuth

open Credentials Effect Relational

/-! ### One program -/

/-- The resolution hears what the provider has done, and its update is executed. -/
def Heard (here : Here) (c : Cmd) (x : Except Thrown c.Resp) : Prop :=
  match c, x with
  | .refreshGrant .., .ok answer => answer.status < 400 →
    answer.refreshToken.isSome ∧ ∃ parsed ∈ answer.token,
      (dateOf (here.now + parsed.expiresIn.getD (6 * 3600) * 1000)).isOk
  | .refreshGrant .., .error e => e.acted = false
  | .updateCredentialSecret .., .error _ => here.refreshes = false
  | _, _ => True

/-- One refresh, of a token that has been read; what is stored is what the provider has given, and a
resolution stores it where it has read the token it has spent. -/
def rotates : Monitor signature Thrown Here where
  guard here c :=
    match c with
    | .refreshGrant _ r => here.refreshes = true ∧ here.spent = none ∧ here.hand = none ∧
      ∃ id t, (id, Secret.token t) ∈ here.reads ∧ t.refreshToken = some r
    | .devicePoll .. => here.refreshes = false
    | .createCredential _ secret _ => here.refreshes = false ∧
      ∀ t ∈ secret.token?, t.refreshToken = here.hand
    | .updateCredentialSecret id secret _ =>
      ∃ t, secret = .token t ∧ t.refreshToken = here.hand ∧ (here.refreshes = true →
        ∃ t₀ r, (id, Secret.token t₀) ∈ here.reads ∧ t₀.refreshToken = some r ∧
          here.spent = some r)
    | _ => True
  allowed := Heard
  next := Here.next

/-- A resolution that has ended has stored what it was given. -/
def Stored : Except Thrown Unit → Here → Prop := fun _ here =>
  here.refreshes = true → here.hand = none

section

variable {here : Here} {α : Type}

theorem rotates_of_looks {p : Xai α} (h : p.Only Cmd.Looks) :
    p.wp rotates (fun _ here' => here.Sees here') here := by
  refine h.wp (fun here c hc _ => ?_) (fun here₁ c x hc hsees _ => ?_) (.refl here)
  · cases c with
    | createCredential => exact absurd hc id
    | updateCredentialSecret => exact absurd hc id
    | devicePoll => exact absurd hc id
    | refreshGrant => exact absurd hc id
    | _ => trivial
  · exact hsees.trans (Here.sees_next hc x)

/-- Look around, and go on with what was seen; a failure has changed nothing. -/
theorem rotates_bind {β : Type} {Q : Except Thrown β → Here → Prop} {p : Xai α} {f : α → Xai β}
    (h : p.Only Cmd.Looks) (hf : ∀ a here', here.Sees here' → (f a).wp rotates Q here')
    (herr : ∀ e here', here.Sees here' → Q (.error e) here') : (p >>= f).wp rotates Q here :=
  Prog.wp_bind_of (rotates_of_looks h) hf herr

/-- Commands that list rows and read secrets; they do not look at the clock. -/
def Cmd.Lists : Cmd → Prop
  | .findCredentialByType _ | .getCredentialSecret _ => True
  | _ => False

theorem resolveXaiClientConfig_lists : resolveXaiClientConfig.Only Cmd.Lists := by
  refine Prog.Only.bind (Prog.Only.issue trivial) fun credential => ?_
  cases credential with
  | none => exact Prog.Only.pure _
  | some credential =>
    refine Prog.Only.bind (Prog.Only.issue trivial) fun sealed => ?_
    cases sealed with
    | none => exact Prog.Only.pure _
    | some sealed => exact Prog.Only.pure _

theorem now_next_of_lists {c : Cmd} (hc : c.Lists) (x : Except Thrown c.Resp) :
    (here.next c x).now = here.now := by
  cases c with
  | findCredentialByType type => match x with | .error e | .ok none | .ok (some view) => rfl
  | getCredentialSecret id => match x with | .error e | .ok none | .ok (some sealed) => rfl
  | _ => exact absurd hc id

theorem resolveXaiClientConfig_now :
    resolveXaiClientConfig.wp rotates (fun _ here' => here.Sees here' ∧ here'.now = here.now)
      here := by
  refine Prog.wp_and (rotates_of_looks resolveXaiClientConfig_only) ?_
  refine resolveXaiClientConfig_lists.wp (I := fun here' : Here => here'.now = here.now)
    (fun here c hc _ => ?_) (fun here₁ c x hc hnow _ => ?_) rfl
  · cases c with
    | findCredentialByType type => trivial
    | getCredentialSecret id => trivial
    | _ => exact absurd hc id
  · exact (now_next_of_lists hc x).trans hnow

theorem refreshToken_of_parse {parsed : TokenResponse} {now : ℤ} {previous : Option String}
    {t : StoredXaiToken} (h : parseTokenResponse parsed now previous = .ok t) :
    t.refreshToken = parsed.refreshToken.or previous := by
  rw [parseTokenResponse, dateOf] at h
  split at h
  · obtain rfl := Except.ok.inj h
    rfl
  · cases h

theorem parse_isOk {parsed : TokenResponse} {now : ℤ} (previous : Option String)
    (h : (dateOf (now + parsed.expiresIn.getD (6 * 3600) * 1000)).isOk) :
    ∃ t, parseTokenResponse parsed now previous = .ok t := by
  rw [parseTokenResponse]
  cases hdate : dateOf (now + parsed.expiresIn.getD (6 * 3600) * 1000) with
  | error e =>
    rw [hdate] at h
    cases h
  | ok expiresAt => exact ⟨_, rfl⟩

/-- The refresh, of a token that has been read: what it returns is in hand; if it throws, nothing
is. -/
theorem refreshXaiToken_rotates {client : ResolvedXaiClient} {r : String} {id : String}
    {t : StoredXaiToken} (hrefreshes : here.refreshes = true) (hspent : here.spent = none)
    (hhand : here.hand = none) (hread : (id, Secret.token t) ∈ here.reads)
    (ht : t.refreshToken = some r) :
    (refreshXaiToken client r here.now).wp rotates (fun result here' => match result with
      | .ok refreshed => refreshed.refreshToken = here'.hand ∧ here'.spent = some r ∧
        here'.refreshes = true ∧ here'.reads = here.reads
      | .error _ => here'.hand = none) here := by
  refine Prog.wp_issue_bind ⟨hrefreshes, hspent, hhand, id, t, hread, ht⟩ ?_ fun _ _ => hhand
  intro answer hheard
  have hheard : answer.status < 400 → answer.refreshToken.isSome ∧ ∃ parsed ∈ answer.token,
    (dateOf (here.now + parsed.expiresIn.getD (6 * 3600) * 1000)).isOk := hheard
  refine Prog.wp_ite (fun hrefused => ?_) fun hgranted => ?_
  · -- a refusal gives nothing
    show answer.refreshToken = none
    rw [Answer.refreshToken, if_neg (by omega)]
  · obtain ⟨hsome, parsed, hparsed, hdate⟩ := hheard (by omega)
    obtain ⟨refreshed, hok⟩ := parse_isOk (some r) hdate
    have htoken : answer.token = some parsed := hparsed
    rw [htoken]
    refine Prog.wp_ofExcept.mpr ?_
    rw [hok]
    have hanswer : answer.refreshToken = parsed.refreshToken := by
      rw [Answer.refreshToken] at hsome ⊢
      split at hsome
      · next h2xx => rw [if_pos h2xx, htoken, Option.bind_some]
      · exact absurd hsome nofun
    refine ⟨?_, ?_, hrefreshes, rfl⟩
    · show refreshed.refreshToken = answer.refreshToken
      rw [refreshToken_of_parse hok, hanswer]
      rw [hanswer] at hsome
      exact Option.or_of_isSome hsome
    · show (if answer.status < 400 then some r else here.spent) = some r
      rw [if_pos (by omega)]

/-- Refresh and store. -/
theorem refreshStored_rotates (here : Here) {credential : View} {r : String} {t : StoredXaiToken}
    (hrefreshes : here.refreshes = true) (hspent : here.spent = none) (hhand : here.hand = none)
    (hread : (credential.id, Secret.token t) ∈ here.reads) (ht : t.refreshToken = some r) {now : ℤ}
    (hnow : here.now = now) :
    (refreshStored credential r now).wp rotates (fun _ here' => here'.hand = none) here := by
  refine Prog.wp_bind_of resolveXaiClientConfig_now (fun client here₁ hclient => ?_)
    fun e here₁ hclient => hclient.1.hand.trans hhand
  obtain ⟨hsees, hnow₁⟩ := hclient
  rw [← hnow, ← hnow₁]
  refine Prog.wp_bind_of (refreshXaiToken_rotates (hsees.refreshes.trans hrefreshes)
    (hsees.spent.trans hspent) (hsees.hand.trans hhand) (hsees.reads hread) ht) ?_
    fun _ _ h => h
  rintro refreshed here₂ ⟨hstored, hspent₂, hrefreshes₂, hreads₂⟩
  refine Prog.wp_issue_bind ⟨refreshed, rfl, hstored, fun _ => ⟨t, r, ?_, ht, hspent₂⟩⟩
    (fun _ _ => rfl) fun e hlost => ?_
  · rw [hreads₂]
    exact hsees.reads hread
  · -- the update of a resolution is executed
    exact absurd (hrefreshes₂.symm.trans hlost) nofun

theorem resolveXaiSubscriptionToken_rotates (hrefreshes : here.refreshes = true)
    (hspent : here.spent = none) (hhand : here.hand = none) :
    resolveXaiSubscriptionToken.wp rotates (fun _ here' => here'.hand = none) here := by
  have hmark : ∀ {id code : String} {here' : Here}, here'.hand = none →
      (markXaiCredentialUnhealthy id code >>= fun _ => pure none : Xai (Option String)).wp rotates
        (fun _ here' => here'.hand = none) here' := fun hnone =>
    rotates_bind (markXaiCredentialUnhealthy_only _ _) (fun _ _ hsees => hsees.hand.trans hnone)
      fun _ _ hsees => hsees.hand.trans hnone
  refine Prog.wp_issue_bind trivial (fun view _ => ?_) fun _ _ => hhand
  cases view with
  | none => exact hhand
  | some credential =>
    refine Prog.wp_issue_bind trivial (fun sealed _ => ?_) fun _ _ => hhand
    cases sealed with
    | none => exact hhand
    | some sealed =>
      show (useStored credential sealed).wp rotates _ _
      rw [useStored]
      cases hsealed : sealed.token? with
      | none => exact hmark hhand
      | some t =>
        refine Prog.wp_issue_bind trivial (fun now _ => ?_) fun _ _ => hhand
        refine Prog.wp_ite (fun _ => hhand) fun _ => ?_
        cases ht : t.refreshToken with
        | none => exact hmark hhand
        | some r =>
          refine Prog.wp_tryCatch_of (R := fun _ (here' : Here) => here'.hand = none) ?_
            (fun _ _ h => h) fun e _ h => hmark h
          have hread : (credential.id, Secret.token t) ∈ (credential.id, sealed) :: here.reads := by
            cases sealed with
            | token t' =>
              obtain rfl := Option.some_inj.mp hsealed
              exact List.mem_cons_self
            | pending | client | text => cases hsealed
          refine Prog.wp_bind_of (R := fun _ (here' : Here) => here'.hand = none) ?_
            (fun _ _ h => h) fun _ _ h => h
          exact refreshStored_rotates { here with
            views := (.xaiUserToken, credential) :: here.views
            reads := (credential.id, sealed) :: here.reads
            now := now } hrefreshes hspent hhand hread ht rfl

theorem resolveXaiToken_rotates (envApiKey : Option String) (hrefreshes : here.refreshes = true)
    (hspent : here.spent = none) (hhand : here.hand = none) :
    (resolveXaiToken envApiKey).wp rotates (fun _ here' => here'.hand = none) here := by
  refine Prog.wp_bind_of (resolveXaiSubscriptionToken_rotates hrefreshes hspent hhand)
    (fun r here₁ hhand₁ => ?_) fun _ _ h => h
  cases r with
  | some token => exact hhand₁
  | none =>
    refine rotates_bind storedApiKey_only (fun key here₂ hsees => ?_)
      fun _ _ hsees => hsees.hand.trans hhand₁
    cases key <;> exact hsees.hand.trans hhand₁

/-- What follows a look around says nothing of who does not refresh. -/
theorem rotates_stored {β : Type} {p : Xai α} {f : α → Xai β} (hrefreshes : here.refreshes = false)
    (h : p.Only Cmd.Looks) (hf : ∀ a here', here.Sees here' →
      (f a).wp rotates (fun _ here' => here'.refreshes = false) here') :
    (p >>= f).wp rotates (fun _ here' => here'.refreshes = false) here :=
  rotates_bind h hf fun _ _ hsees => hsees.refreshes.trans hrefreshes

theorem startGrant_rotates (actor : String) (hrefreshes : here.refreshes = false) :
    (startGrant actor).wp rotates (fun _ here' => here'.refreshes = false) here := by
  refine rotates_stored hrefreshes resolveXaiClientConfig_only fun client here₁ hsees => ?_
  have hr₁ := hsees.refreshes.trans hrefreshes
  refine Prog.wp_issue_bind trivial (fun answer _ => ?_) fun _ _ => hr₁
  cases answer.device with
  | none => exact hr₁
  | some device =>
    refine rotates_stored hr₁ (Prog.Only.issue trivial) fun now here₂ hsees₂ => ?_
    have hr₂ := hsees₂.refreshes.trans hr₁
    refine rotates_stored hr₂ (Prog.Only.issue trivial) fun stale here₃ hsees₃ => ?_
    have hr₃ := hsees₃.refreshes.trans hr₂
    refine rotates_stored hr₃ (dropStale_only stale) fun _ here₄ hsees₄ => ?_
    have hr₄ := hsees₄.refreshes.trans hr₃
    refine Prog.wp_bind_of (R := fun _ here' => here₄ = here') (Prog.wp_ofExcept.mpr rfl)
      (fun expiresAt here' h => ?_) fun e here' h => h ▸ hr₄
    subst h
    refine Prog.wp_issue_bind ⟨hr₄, nofun⟩ (fun _ _ => ?_) fun _ _ => hr₄
    exact rotates_stored hr₄ (Prog.Only.issue trivial) fun _ _ hsees₅ =>
      hsees₅.refreshes.trans hr₄

theorem connect_rotates (pendingId : String) {token : StoredXaiToken}
    (hrefreshes : here.refreshes = false) (htoken : token.refreshToken = here.hand) :
    (connect pendingId token).wp rotates (fun _ here' => here'.refreshes = false) here := by
  refine rotates_stored hrefreshes (Prog.Only.issue trivial) fun existing here₁ hsees => ?_
  have hr₁ := hsees.refreshes.trans hrefreshes
  have hhand₁ : token.refreshToken = here₁.hand := htoken.trans hsees.hand.symm
  refine Prog.wp_bind_of (R := fun _ (here' : Here) => here'.refreshes = false) ?_
    (fun _ here₂ hr₂ => ?_) fun _ _ h => h
  · cases existing with
    | none =>
      refine Prog.wp_issue_bind ⟨hr₁, ?_⟩ (fun _ _ => hr₁) fun _ _ => hr₁
      rintro t ⟨⟩
      exact hhand₁
    | some existing =>
      refine Prog.wp_issue_bind ⟨token, rfl, hhand₁, fun h => ?_⟩ (fun _ _ => hr₁) fun _ _ => hr₁
      exact absurd (hr₁.symm.trans h) nofun
  · refine rotates_stored hr₂ (Prog.Only.issue trivial) fun _ here₃ hsees₃ => ?_
    have hr₃ := hsees₃.refreshes.trans hr₂
    exact rotates_stored hr₃ (Prog.Only.issue trivial) fun _ _ hsees₄ => hsees₄.refreshes.trans hr₃

theorem settle_rotates (pendingId : String) {outcome : DevicePollOutcome}
    (hrefreshes : here.refreshes = false)
    (htoken : ∀ token, outcome = .success token → token.refreshToken = here.hand) :
    (settle pendingId outcome).wp rotates (fun _ here' => here'.refreshes = false) here := by
  cases outcome with
  | pending interval => exact hrefreshes
  | slowDown interval => exact hrefreshes
  | denied =>
    refine rotates_stored hrefreshes (Prog.Only.issue trivial) fun _ here₁ hsees => ?_
    have hr₁ := hsees.refreshes.trans hrefreshes
    exact rotates_stored hr₁ (Prog.Only.issue trivial) fun _ _ hsees₂ => hsees₂.refreshes.trans hr₁
  | expired =>
    exact rotates_stored hrefreshes (Prog.Only.issue trivial) fun _ _ hsees =>
      hsees.refreshes.trans hrefreshes
  | error code =>
    exact rotates_stored hrefreshes (Prog.Only.issue trivial) fun _ _ hsees =>
      hsees.refreshes.trans hrefreshes
  | success token => exact connect_rotates pendingId hrefreshes (htoken token rfl)

/-- A token that a poll returns carries the refresh token of the answer. -/
theorem refreshToken_of_interpret {answer : Answer} {interval : ℕ} {now : ℤ}
    {token : StoredXaiToken}
    (h : interpretDeviceTokenResponse answer interval now = .ok (.success token)) :
    token.refreshToken = answer.refreshToken := by
  rw [interpretDeviceTokenResponse] at h
  split at h
  · next h2xx =>
    cases htoken : answer.token with
    | none => rw [htoken] at h; exact absurd h nofun
    | some parsed =>
      rw [htoken] at h
      have h : Except.map DevicePollOutcome.success (parseTokenResponse parsed now none) =
        .ok (.success token) := h
      cases hparse : parseTokenResponse parsed now none with
      | error e => rw [hparse] at h; exact absurd h nofun
      | ok t =>
        rw [hparse] at h
        obtain rfl := DevicePollOutcome.success.inj (Except.ok.inj h)
        rw [refreshToken_of_parse hparse, Option.or_none, Answer.refreshToken, if_pos h2xx, htoken]
        rfl
  · exact absurd h (by split <;> nofun)

theorem pollGrant_rotates (pendingId : String) (sealed : Option Secret)
    (hrefreshes : here.refreshes = false) :
    (pollGrant pendingId sealed).wp rotates (fun _ here' => here'.refreshes = false) here := by
  rw [pollGrant]
  cases sealed.bind Secret.pending? with
  | none =>
    exact rotates_stored hrefreshes (Prog.Only.issue trivial) fun _ _ hsees =>
      hsees.refreshes.trans hrefreshes
  | some pending =>
    refine rotates_stored hrefreshes (Prog.Only.issue trivial) fun now here₁ hsees => ?_
    have hr₁ := hsees.refreshes.trans hrefreshes
    refine Prog.wp_ite (fun _ => ?_) fun _ => ?_
    · exact rotates_stored hr₁ (Prog.Only.issue trivial) fun _ _ hsees₂ =>
        hsees₂.refreshes.trans hr₁
    · -- what the poll returns is in hand
      refine Prog.wp_bind_of (R := fun r here' => here'.refreshes = false ∧
        ∀ token, r = .ok (.ok (.success token)) → token.refreshToken = here'.hand) ?_ ?_
        fun _ _ h => h.1
      · refine Prog.wp_attempt.mpr ?_
        refine rotates_bind resolveXaiClientConfig_only (fun client here₂ hsees₂ => ?_)
          fun e here₂ hsees₂ => ⟨hsees₂.refreshes.trans hr₁, fun _ h => by cases h⟩
        have hr₂ := hsees₂.refreshes.trans hr₁
        refine Prog.wp_issue_bind hr₂ (fun answer _ => ?_) fun e _ =>
          ⟨hr₂, fun _ h => by cases h⟩
        refine rotates_bind (Prog.Only.issue trivial) (fun now' here₃ hsees₃ => ?_)
          fun e here₃ hsees₃ => ⟨hsees₃.refreshes.trans hr₂, fun _ h => by cases h⟩
        refine Prog.wp_ofExcept.mpr ⟨hsees₃.refreshes.trans hr₂, fun token htoken => ?_⟩
        rw [hsees₃.hand]
        exact refreshToken_of_interpret (Except.ok.inj htoken)
      · rintro outcome here₂ ⟨hr₂, htoken⟩
        cases outcome with
        | error e => exact hr₂
        | ok outcome =>
          exact settle_rotates pendingId hr₂ fun token h => htoken token (by rw [h])

theorem pollXaiDeviceAuthAction_rotates (actor : Option String)
    (hrefreshes : here.refreshes = false) :
    (pollXaiDeviceAuthAction actor).wp rotates (fun _ here' => here'.refreshes = false) here := by
  cases actor with
  | none => exact hrefreshes
  | some actor =>
    refine rotates_stored hrefreshes (Prog.Only.issue trivial) fun view here₁ hsees => ?_
    have hr₁ := hsees.refreshes.trans hrefreshes
    cases view with
    | none => exact hr₁
    | some view =>
      refine Prog.wp_ite (fun _ => hr₁) fun _ => ?_
      refine rotates_stored hr₁ (Prog.Only.issue trivial) fun sealed here₂ hsees₂ => ?_
      exact pollGrant_rotates view.id sealed (hsees₂.refreshes.trans hr₁)

theorem stored_of_refreshes {p : Xai Unit}
    (h : p.wp rotates (fun _ here' => here'.refreshes = false) here) : p.wp rotates Stored here :=
  Prog.wp_mono h fun _ _ hr htrue => absurd (hr.symm.trans htrue) nofun

/-- **Whoever is at work** stores what the provider has given, and a resolution refreshes once. -/
theorem entry_rotates (entry : Entry) : entry.prog.wp rotates Stored entry.here := by
  cases entry with
  | resolve envApiKey =>
    refine Prog.wp_bind_of (resolveXaiToken_rotates envApiKey rfl rfl rfl) (fun _ _ h _ => h)
      fun _ _ h _ => h
  | markUnhealthy code =>
    refine stored_of_refreshes
      (Prog.wp_mono (rotates_of_looks (markXaiTokenUnhealthy_only code)) ?_)
    exact fun _ _ hsees => hsees.refreshes
  | start actor =>
    refine stored_of_refreshes
      (Prog.wp_bind_of (R := fun _ (here' : Here) => here'.refreshes = false) ?_ (fun _ _ h => h) fun _ _ h => h)
    cases actor with
    | none => rfl
    | some actor =>
      exact Prog.wp_tryCatch_of (R := fun _ (here' : Here) => here'.refreshes = false)
        (startGrant_rotates actor rfl) (fun _ _ h => h) fun _ _ h => h
  | poll actor =>
    exact stored_of_refreshes (Prog.wp_bind_of (pollXaiDeviceAuthAction_rotates actor rfl)
      (fun _ _ h => h) fun _ _ h => h)

end

end XaiOAuth
