/-
The subscription's credentials while the worker and the administrators work on them.

Resolutions of the worker and actions of administrators interleave at every command, and an
administrator may revoke any credential in between.  A statement that fails has not been executed.

* `World` — the credentials, and the provider: what it has issued, and which refresh tokens have
  been spent, each refresh giving a new one;
* `Entry`, `step` — the system; `step_advance_cases`;
* `StartedByActor`, `bound` — what a poll relies on: the row it read is one that its own
  administrator stored;
* `grant_bound` — a device code is polled only by the administrator who has started the grant.
-/
import HoodMint.Lib.Interleave
import HoodMint.Lib.Transition
import HoodMint.XaiOAuth

namespace XaiOAuth

open Credentials Effect Relational

/-! ### The tables and the provider -/

/-- A row of `credentials`, the newest first. -/
structure Row where
  id : String
  type : CredentialType
  secret : Secret
  metadata : Metadata
deriving DecidableEq

abbrev Rows := Table Row String Row.id

def Row.view (row : Row) : View := ⟨row.id, row.metadata⟩

/-- The refresh token in a row. -/
def Row.refreshToken (row : Row) : Option String :=
  row.secret.token?.bind StoredXaiToken.refreshToken

/-- `findCredentialByType`. -/
def findCredentialByType (rows : Rows) (type : CredentialType) : Option View :=
  ((rows.rows.filter fun row => row.type = type).head?).map Row.view

/-- The credentials, those there have ever been, and what the provider knows: the device codes and
refresh tokens it has issued, and the refresh tokens spent and presented after that. -/
structure World where
  rows : Rows
  born : List (String × CredentialType)
  codes : List String
  issued : List String
  spent : List String
  replayed : List String

/-- The refresh token of an answer. -/
def Answer.refreshToken (answer : Answer) : Option String :=
  if 200 ≤ answer.status ∧ answer.status < 300 then answer.token.bind TokenResponse.refreshToken
  else none

/-- What can be answered. -/
def World.Answers (w : World) (c : Cmd) (x : Except Thrown c.Resp) : Prop :=
  match c, x with
  | .findCredentialByType type, .ok view => view = XaiOAuth.findCredentialByType w.rows type
  | .getCredentialSecret id, .ok sealed => sealed = (w.rows.get? id).map Row.secret
  | .createCredential .., .ok id => id ∉ w.born.map Prod.fst
  | .updateCredentialSecret id _ metadata, .ok view =>
    view = (w.rows.get? id).map fun row => ⟨row.id, metadata⟩
  | .deviceAuthorization _, .ok answer => ∀ device ∈ answer.device, device.deviceCode ∉ w.codes
  | .devicePoll .., .ok answer => ∀ r ∈ answer.refreshToken, r ∉ w.issued
  | .refreshGrant .., .ok answer => ∀ r ∈ answer.refreshToken, r ∉ w.issued
  | _, _ => True

/-- The provider gives a refresh token, if any. -/
def World.issue (w : World) (r : Option String) : World := { w with issued := r.toList ++ w.issued }

/-- The provider is presented a refresh token, and acts on it or not. -/
def World.present (w : World) (r : String) (acted : Bool) : World :=
  { w with
    spent := if acted then r :: w.spent else w.spent
    replayed := if r ∈ w.spent then r :: w.replayed else w.replayed }

/-- What a command does. -/
def World.next (w : World) (c : Cmd) (x : Except Thrown c.Resp) : World :=
  match c, x with
  | .createCredential type secret metadata, .ok id =>
    { w with rows := w.rows.insert ⟨id, type, secret, metadata⟩, born := (id, type) :: w.born }
  | .updateCredentialSecret id secret metadata, .ok _ =>
    { w with
      rows := w.rows.update (fun row => row.id = id)
        (fun row => { row with secret := secret, metadata := metadata }) fun _ => rfl }
  | .updateCredentialMetadata id health lastErrorCode, .ok _ =>
    { w with
      rows := w.rows.update (fun row => row.id = id)
        (fun row => { row with
          metadata := { row.metadata with
            health := some health, lastErrorCode := some lastErrorCode } }) fun _ => rfl }
  | .revokeCredential id, .ok _ => { w with rows := w.rows.delete fun row => row.id = id }
  | .deviceAuthorization _, .ok answer =>
    { w with codes := (answer.device.map DeviceAuthorization.deviceCode).toList ++ w.codes }
  | .devicePoll .., .ok answer => w.issue answer.refreshToken
  | .refreshGrant _ r, .ok answer => (w.present r (answer.status < 400)).issue answer.refreshToken
  | .refreshGrant _ r, .error e => w.present r e.acted
  | _, _ => w

/-! ### The system -/

/-- What is asked of the worker and the web app. -/
inductive Entry
  | resolve (envApiKey : Option String)
  | markUnhealthy (code : String)
  | start (actor : Option String)
  | poll (actor : Option String)

def Entry.prog : Entry → Xai Unit
  | .resolve envApiKey => do
    let _ ← resolveXaiToken envApiKey
  | .markUnhealthy code => markXaiTokenUnhealthy code
  | .start actor => do
    let _ ← startXaiDeviceAuthAction actor
  | .poll actor => do
    let _ ← pollXaiDeviceAuthAction actor

def Entry.actor : Entry → Option String
  | .start actor | .poll actor => actor
  | _ => none

/-- It may refresh a token. -/
def Entry.refreshes : Entry → Bool
  | .resolve _ => true
  | _ => false

/-- What a program under way has seen: rows, the clock, the device code it was given, whether it has
refreshed, with which token, and the refresh token it has been given and not yet stored. -/
structure Here where
  actor : Option String
  refreshes : Bool
  views : List (CredentialType × View) := []
  reads : List (String × Secret) := []
  now : ℤ := 0
  code : Option String := none
  spent : Option String := none
  hand : Option String := none

def Here.next (here : Here) (c : Cmd) (x : Except Thrown c.Resp) : Here :=
  match c, x with
  | .findCredentialByType type, .ok (some view) => { here with views := (type, view) :: here.views }
  | .getCredentialSecret id, .ok (some sealed) => { here with reads := (id, sealed) :: here.reads }
  | .now, .ok now => { here with now := now }
  | .deviceAuthorization _, .ok answer =>
    { here with code := answer.device.map DeviceAuthorization.deviceCode }
  | .devicePoll .., .ok answer => { here with hand := answer.refreshToken }
  | .refreshGrant _ r, .ok answer =>
    { here with
      spent := if answer.status < 400 then some r else here.spent
      hand := answer.refreshToken }
  | .refreshGrant _ r, .error e => { here with spent := if e.acted then some r else here.spent }
  | .createCredential .., .ok _ => { here with hand := none }
  | .updateCredentialSecret .., .ok _ => { here with hand := none }
  | _, _ => here

def Entry.here (entry : Entry) : Here where
  actor := entry.actor
  refreshes := entry.refreshes

/-- The device code a command was given, with the administrator it was given to. -/
def requestedBy (here : Here) (c : Cmd) (x : Except Thrown c.Resp) : List (String × String) :=
  match c, x with
  | .deviceAuthorization _, .ok answer =>
    match answer.device, here.actor with
    | some device, some actor => [(device.deviceCode, actor)]
    | _, _ => []
  | _, _ => []

/-- The world, the programs under way, and who has been given which device code. -/
structure Runs where
  world : World
  tasks : List (Task signature Thrown Unit Here)
  requested : List (String × String)

/-- What can happen. -/
inductive RunStep
  | enter (entry : Entry)
  | advance (i : ℕ) (answer : (c : Cmd) → Except Thrown c.Resp)
  | crash (i : ℕ)
  | revoke (id : String)

instance World.decidableAnswers (w : World) (c : Cmd) (x : Except Thrown c.Resp) :
    Decidable (w.Answers c x) := by
  induction c using Cmd.casesOn with
  | findCredentialByType type =>
    exact match x with
      | .error _ => isTrue trivial
      | .ok view => inferInstanceAs (Decidable (view = XaiOAuth.findCredentialByType w.rows type))
  | getCredentialSecret id =>
    exact match x with
      | .error _ => isTrue trivial
      | .ok sealed => inferInstanceAs (Decidable (sealed = (w.rows.get? id).map Row.secret))
  | createCredential type secret metadata =>
    exact match x with
      | .error _ => isTrue trivial
      | .ok id => inferInstanceAs (Decidable (id ∉ w.born.map Prod.fst))
  | updateCredentialSecret id secret metadata =>
    exact match x with
      | .error _ => isTrue trivial
      | .ok view =>
        inferInstanceAs (Decidable (view = (w.rows.get? id).map fun row => ⟨row.id, metadata⟩))
  | deviceAuthorization client =>
    exact match x with
      | .error _ => isTrue trivial
      | .ok answer =>
        inferInstanceAs (Decidable (∀ device ∈ answer.device, device.deviceCode ∉ w.codes))
  | devicePoll client deviceCode =>
    exact match x with
      | .error _ => isTrue trivial
      | .ok answer => inferInstanceAs (Decidable (∀ r ∈ answer.refreshToken, r ∉ w.issued))
  | refreshGrant client refreshToken =>
    exact match x with
      | .error _ => isTrue trivial
      | .ok answer => inferInstanceAs (Decidable (∀ r ∈ answer.refreshToken, r ∉ w.issued))
  | _ => exact isTrue trivial

namespace Runs

def step (d : Runs) : RunStep → Option Runs
  | .enter entry =>
    some { d with tasks := d.tasks ++ [⟨entry.prog, entry.here⟩] }
  | .advance i answer =>
    match d.tasks[i]? with
    | some ⟨.call c k, here⟩ =>
      if d.world.Answers c (answer c) then
        some
          { world := d.world.next c (answer c)
            tasks := d.tasks.set i ⟨k (answer c), here.next c (answer c)⟩
            requested := requestedBy here c (answer c) ++ d.requested }
      else none
    | _ => none
  | .crash i => d.tasks[i]?.map fun t =>
    { d with tasks := d.tasks.set i ⟨.ret (), { t.here with hand := none }⟩ }
  | .revoke id =>
    some { d with world := { d.world with rows := d.world.rows.delete fun row => row.id = id } }

/-- The rows there are at the start, and no program under way. -/
def init (rows : Rows) : Runs where
  world := {
    rows := rows
    born := rows.rows.map fun row => (row.id, row.type)
    codes := []
    issued := rows.rows.filterMap Row.refreshToken
    spent := []
    replayed := [] }
  tasks := []
  requested := []

variable {d d' : Runs}

/-- What a program's step can do. -/
theorem step_advance_cases {i : ℕ} {answer : (c : Cmd) → Except Thrown c.Resp}
    (h : d.step (.advance i answer) = some d') :
    ∃ c k here, d.tasks[i]? = some ⟨.call c k, here⟩ ∧ d.world.Answers c (answer c) ∧
      d' =
        { world := d.world.next c (answer c)
          tasks := d.tasks.set i ⟨k (answer c), here.next c (answer c)⟩
          requested := requestedBy here c (answer c) ++ d.requested } := by
  simp only [Runs.step] at h
  split at h
  · next c k here hi =>
    split at h
    · next hx => exact ⟨c, k, here, hi, hx, (Option.some_inj.mp h).symm⟩
    · exact absurd h nofun
  · exact absurd h nofun

end Runs

/-! ### One program -/

/-- What a program has seen stays seen; it is given and spends nothing. -/
structure Here.Sees (here here' : Here) : Prop where
  actor : here'.actor = here.actor
  refreshes : here'.refreshes = here.refreshes
  views : here.views ⊆ here'.views
  reads : here.reads ⊆ here'.reads
  code : here'.code = here.code
  spent : here'.spent = here.spent
  hand : here'.hand = here.hand

theorem Here.Sees.refl (here : Here) : here.Sees here :=
  ⟨rfl, rfl, fun _ h => h, fun _ h => h, rfl, rfl, rfl⟩

theorem Here.Sees.trans {here₁ here₂ here₃ : Here} (h : here₁.Sees here₂) (h' : here₂.Sees here₃) :
    here₁.Sees here₃ :=
  ⟨h'.actor.trans h.actor, h'.refreshes.trans h.refreshes, fun _ hv => h'.views (h.views hv),
    fun _ hr => h'.reads (h.reads hr), h'.code.trans h.code, h'.spent.trans h.spent,
    h'.hand.trans h.hand⟩

/-- Commands after which a program has seen more, and nothing else. -/
def Cmd.Looks : Cmd → Prop
  | .findCredentialByType _ | .getCredentialSecret _ | .now => True
  | .updateCredentialMetadata .. | .revokeCredential _ | .recordAudit .. => True
  | _ => False

theorem Here.sees_next {here : Here} {c : Cmd} (hc : c.Looks) (x : Except Thrown c.Resp) :
    here.Sees (here.next c x) := by
  cases c with
  | findCredentialByType type =>
    match x with
    | .error e => exact .refl here
    | .ok none => exact .refl here
    | .ok (some view) =>
      exact ⟨rfl, rfl, List.subset_cons_self _ _, fun _ h => h, rfl, rfl, rfl⟩
  | getCredentialSecret id =>
    match x with
    | .error e => exact .refl here
    | .ok none => exact .refl here
    | .ok (some sealed) =>
      exact ⟨rfl, rfl, fun _ h => h, List.subset_cons_self _ _, rfl, rfl, rfl⟩
  | now => cases x <;> exact ⟨rfl, rfl, fun _ h => h, fun _ h => h, rfl, rfl, rfl⟩
  | updateCredentialMetadata id health code => exact .refl here
  | revokeCredential id => exact .refl here
  | recordAudit action success => exact .refl here
  | createCredential => exact absurd hc id
  | updateCredentialSecret => exact absurd hc id
  | deviceAuthorization => exact absurd hc id
  | devicePoll => exact absurd hc id
  | refreshGrant => exact absurd hc id

theorem resolveXaiClientConfig_only : resolveXaiClientConfig.Only Cmd.Looks := by
  refine Prog.Only.bind (Prog.Only.issue trivial) fun credential => ?_
  cases credential with
  | none => exact Prog.Only.pure _
  | some credential =>
    refine Prog.Only.bind (Prog.Only.issue trivial) fun sealed => ?_
    cases sealed with
    | none => exact Prog.Only.pure _
    | some sealed => exact Prog.Only.pure _

theorem markXaiCredentialUnhealthy_only (id code : String) :
    (markXaiCredentialUnhealthy id code).Only Cmd.Looks :=
  Prog.Only.tryCatch (Prog.Only.issue trivial) fun _ => Prog.Only.pure _

theorem markXaiTokenUnhealthy_only (code : String) :
    (markXaiTokenUnhealthy code).Only Cmd.Looks := by
  refine Prog.Only.bind (Prog.Only.issue trivial) fun credential => ?_
  cases credential with
  | none => exact Prog.Only.pure _
  | some credential => exact markXaiCredentialUnhealthy_only _ _

theorem storedApiKey_only : storedApiKey.Only Cmd.Looks := by
  refine Prog.Only.bind (Prog.Only.issue trivial) fun stored => ?_
  cases stored with
  | none => exact Prog.Only.pure _
  | some stored =>
    refine Prog.Only.bind (Prog.Only.issue trivial) fun sealed => ?_
    match sealed with
    | some (.text secret) => exact Prog.Only.pure _
    | none | some (.token _) | some (.pending _) | some (.client _) => exact Prog.Only.pure _

theorem dropStale_only (stale : Option View) : (dropStale stale).Only Cmd.Looks := by
  cases stale with
  | none => exact Prog.Only.pure _
  | some stale => exact Prog.Only.issue trivial

/-! ### A grant and its administrator -/

/-- The program has listed a pending row of its own administrator, and read the code there. -/
def StartedByActor (here : Here) (deviceCode : String) : Prop :=
  ∃ view p, (CredentialType.xaiDevicePending, view) ∈ here.views ∧ here.actor.isSome ∧
    view.metadata.userId = here.actor ∧ (view.id, Secret.pending p) ∈ here.reads ∧
    p.deviceCode = deviceCode

/-- A poll is for such a code; a row is stored for a grant with the code and the administrator it
was given to, and no other row is changed than one listed as a token. -/
def bound : Monitor signature Thrown Here where
  guard here c :=
    match c with
    | .devicePoll _ deviceCode => StartedByActor here deviceCode
    | .createCredential type secret metadata => type = .xaiDevicePending →
      ∃ p, secret = .pending p ∧ here.code = some p.deviceCode ∧ here.actor.isSome ∧
        metadata.userId = here.actor
    | .updateCredentialSecret id _ _ => ∃ view,
      (CredentialType.xaiUserToken, view) ∈ here.views ∧ view.id = id
    | _ => True
  allowed _ _ _ := True
  next := Here.next

section

variable {here : Here} {α : Type}

theorem bound_of_looks {p : Xai α} (h : p.Only Cmd.Looks) :
    p.wp bound (fun _ here' => here.Sees here') here := by
  refine h.wp (fun here c hc _ => ?_) (fun here₁ c x hc hsees _ => ?_) (.refl here)
  · cases c with
    | createCredential => exact absurd hc id
    | updateCredentialSecret => exact absurd hc id
    | devicePoll => exact absurd hc id
    | _ => trivial
  · exact hsees.trans (Here.sees_next hc x)

/-- After looking around, go on with what was seen. -/
theorem bound_bind {β : Type} {p : Xai α} {f : α → Xai β} (h : p.Only Cmd.Looks)
    (hf : ∀ a here', here.Sees here' → (f a).wp bound (fun _ _ => True) here') :
    (p >>= f).wp bound (fun _ _ => True) here :=
  Prog.wp_bind_of (bound_of_looks h) hf fun _ _ _ => trivial

theorem startGrant_bound {actor : String} (hactor : here.actor = some actor) :
    (startGrant actor).wp bound (fun _ _ => True) here := by
  refine bound_bind resolveXaiClientConfig_only fun client here₁ hsees => ?_
  refine Prog.wp_issue_bind trivial (fun answer _ => ?_) fun _ _ => trivial
  cases hdevice : answer.device with
  | none => trivial
  | some device =>
    refine bound_bind (Prog.Only.issue trivial) fun now here₂ hsees₂ => ?_
    refine bound_bind (Prog.Only.issue trivial) fun stale here₃ hsees₃ => ?_
    refine bound_bind (dropStale_only stale) fun _ here₄ hsees₄ => ?_
    refine Prog.wp_bind_of (R := fun _ here' => here₄ = here') (Prog.wp_ofExcept.mpr rfl) ?_
      fun _ _ _ => trivial
    rintro expiresAt _ rfl
    -- the code and the actor are those of the request
    have hsame := (hsees₂.trans hsees₃).trans hsees₄
    have hactor' : here₄.actor = some actor := hsame.actor.trans (hsees.actor.trans hactor)
    have hcode : here₄.code = some device.deviceCode := by
      rw [hsame.code]
      show answer.device.map DeviceAuthorization.deviceCode = _
      rw [hdevice]
      rfl
    refine Prog.wp_issue_bind (fun _ => ⟨_, rfl, hcode, ?_, hactor'.symm⟩) (fun _ _ => ?_)
      fun _ _ => trivial
    · rw [hactor']
      rfl
    · exact bound_bind (Prog.Only.issue trivial) fun _ _ _ => trivial

theorem connect_bound (pendingId : String) (token : StoredXaiToken) :
    (connect pendingId token).wp bound (fun _ _ => True) here := by
  refine Prog.wp_issue_bind trivial (fun existing _ => ?_) fun _ _ => trivial
  refine Prog.wp_bind_of (R := fun _ _ => True) ?_ (fun _ here' _ => ?_) fun _ _ _ => trivial
  · cases existing with
    | none => exact Prog.wp_issue_bind nofun (fun _ _ => trivial) fun _ _ => trivial
    | some existing =>
      exact Prog.wp_issue_bind ⟨existing, List.mem_cons_self, rfl⟩ (fun _ _ => trivial)
        fun _ _ => trivial
  · refine bound_bind (Prog.Only.issue trivial) fun _ _ _ => ?_
    exact bound_bind (Prog.Only.issue trivial) fun _ _ _ => trivial

/-- What follows a poll. -/
theorem settle_bound (pendingId : String) (outcome : DevicePollOutcome) :
    (settle pendingId outcome).wp bound (fun _ _ => True) here := by
  cases outcome with
  | pending interval => trivial
  | slowDown interval => trivial
  | denied =>
    refine bound_bind (Prog.Only.issue trivial) fun _ _ _ => ?_
    exact bound_bind (Prog.Only.issue trivial) fun _ _ _ => trivial
  | expired => exact bound_bind (Prog.Only.issue trivial) fun _ _ _ => trivial
  | error code => exact bound_bind (Prog.Only.issue trivial) fun _ _ _ => trivial
  | success token => exact connect_bound pendingId token

theorem pollDeviceToken_bound {client : ResolvedXaiClient} {deviceCode : String} {interval : ℕ}
    (h : StartedByActor here deviceCode) :
    (pollDeviceToken client deviceCode interval).wp bound (fun _ _ => True) here := by
  refine Prog.wp_issue_bind h (fun answer _ => ?_) fun _ _ => trivial
  exact bound_bind (Prog.Only.issue trivial) fun _ _ _ => Prog.wp_ofExcept.mpr trivial

theorem StartedByActor.mono {here' : Here} {deviceCode : String}
    (h : StartedByActor here deviceCode) (hsees : here.Sees here') :
    StartedByActor here' deviceCode := by
  obtain ⟨view, p, hview, hactor, huser, hread, hcode⟩ := h
  refine ⟨view, p, hsees.views hview, ?_, ?_, hsees.reads hread, hcode⟩
  · rwa [hsees.actor]
  · rwa [hsees.actor]

theorem pollXaiDeviceAuthAction_bound {actor : Option String} (hactor : here.actor = actor) :
    (pollXaiDeviceAuthAction actor).wp bound (fun _ _ => True) here := by
  cases actor with
  | none => trivial
  | some actor =>
    refine Prog.wp_issue_bind trivial (fun view _ => ?_) fun _ _ => trivial
    cases view with
    | none => trivial
    | some view =>
      refine Prog.wp_ite (fun _ => trivial) fun huser => ?_
      refine Prog.wp_issue_bind trivial (fun sealed _ => ?_) fun _ _ => trivial
      rw [pollGrant]
      match sealed with
      | some (.pending p) =>
        -- the row that is read is the one that was listed, for this administrator
        refine bound_bind (Prog.Only.issue trivial) fun now here₁ hsees => ?_
        refine Prog.wp_ite (fun _ => ?_) fun _ => ?_
        · exact bound_bind (Prog.Only.issue trivial) fun _ _ _ => trivial
        · refine Prog.wp_bind_of (R := fun _ _ => True) ?_ (fun outcome _ _ => ?_)
            fun _ _ _ => trivial
          · refine Prog.wp_attempt.mpr ?_
            refine bound_bind resolveXaiClientConfig_only fun client here₂ hsees₂ => ?_
            refine pollDeviceToken_bound (StartedByActor.mono ?_ (hsees.trans hsees₂))
            refine ⟨view, p, List.mem_cons_self, ?_, ?_, List.mem_cons_self, rfl⟩
            · show here.actor.isSome = true
              rw [hactor]
              rfl
            · exact (not_not.mp huser).trans hactor.symm
          · cases outcome with
            | error e => trivial
            | ok outcome => exact settle_bound view.id outcome
      | none | some (.token _) | some (.client _) | some (.text _) =>
        exact bound_bind (Prog.Only.issue trivial) fun _ _ _ => trivial

theorem refreshStored_bound {credential : View} (refreshToken : String) (now : ℤ)
    (hview : (CredentialType.xaiUserToken, credential) ∈ here.views) :
    (refreshStored credential refreshToken now).wp bound (fun _ _ => True) here := by
  refine bound_bind resolveXaiClientConfig_only fun client here₁ hsees => ?_
  refine Prog.wp_bind_of (R := fun _ here' => here'.views = here₁.views) ?_ ?_ fun _ _ _ => trivial
  · refine Prog.wp_issue_bind trivial (fun answer _ => ?_) fun _ _ => rfl
    refine Prog.wp_ite (fun _ => rfl) fun _ => ?_
    cases answer.token with
    | none => exact rfl
    | some parsed => exact Prog.wp_ofExcept.mpr rfl
  · intro refreshed here₂ hviews
    refine Prog.wp_issue_bind ⟨credential, ?_, rfl⟩ (fun _ _ => trivial) fun _ _ => trivial
    rw [hviews]
    exact hsees.views hview

theorem resolveXaiSubscriptionToken_bound :
    resolveXaiSubscriptionToken.wp bound (fun _ _ => True) here := by
  refine Prog.wp_issue_bind trivial (fun view _ => ?_) fun _ _ => trivial
  cases view with
  | none => trivial
  | some credential =>
    refine bound_bind (Prog.Only.issue trivial) fun sealed here₁ hsees => ?_
    cases sealed with
    | none => trivial
    | some sealed =>
      show (useStored credential sealed).wp bound _ here₁
      rw [useStored]
      cases sealed.token? with
      | none => exact bound_bind (markXaiCredentialUnhealthy_only _ _) fun _ _ _ => trivial
      | some t =>
        refine bound_bind (Prog.Only.issue trivial) fun now here₂ hsees₂ => ?_
        refine Prog.wp_ite (fun _ => trivial) fun _ => ?_
        cases t.refreshToken with
        | none => exact bound_bind (markXaiCredentialUnhealthy_only _ _) fun _ _ _ => trivial
        | some refreshToken =>
          refine Prog.wp_tryCatch_of (R := fun _ _ => True) ?_ (fun _ _ _ => trivial)
            fun e _ _ => ?_
          · refine Prog.wp_bind_of (refreshStored_bound refreshToken now ?_)
              (fun _ _ _ => trivial) fun _ _ _ => trivial
            exact hsees₂.views (hsees.views List.mem_cons_self)
          · exact bound_bind (markXaiCredentialUnhealthy_only _ _) fun _ _ _ => trivial

/-- **Whoever is at work** keeps to the grants it has seen. -/
theorem entry_bound (entry : Entry) (hactor : here.actor = entry.actor) :
    entry.prog.wp bound (fun _ _ => True) here := by
  cases entry with
  | resolve envApiKey =>
    refine Prog.wp_bind_of (R := fun _ _ => True) ?_ (fun _ _ _ => trivial) fun _ _ _ => trivial
    refine Prog.wp_bind_of resolveXaiSubscriptionToken_bound (fun r here' _ => ?_)
      fun _ _ _ => trivial
    cases r with
    | some token => trivial
    | none =>
      refine bound_bind storedApiKey_only fun key _ _ => ?_
      cases key <;> trivial
  | markUnhealthy code =>
    exact Prog.wp_mono (bound_of_looks (markXaiTokenUnhealthy_only code)) fun _ _ _ => trivial
  | start actor =>
    refine Prog.wp_bind_of (R := fun _ _ => True) ?_ (fun _ _ _ => trivial) fun _ _ _ => trivial
    cases actor with
    | none => trivial
    | some actor =>
      exact Prog.wp_tryCatch_of (startGrant_bound hactor) (fun _ _ _ => trivial)
        fun _ _ _ => trivial
  | poll actor =>
    exact Prog.wp_bind_of (pollXaiDeviceAuthAction_bound hactor) (fun _ _ _ => trivial)
      fun _ _ _ => trivial

end

/-! ### What all of them keep -/

/-- Ids are used once; a row that is pending holds a code that its administrator was given. -/
structure World.Kept (w : World) (requested : List (String × String)) : Prop where
  nodup : (w.born.map Prod.fst).Nodup
  born : ∀ row ∈ w.rows, (row.id, row.type) ∈ w.born
  pending : ∀ row ∈ w.rows, row.type = .xaiDevicePending → ∃ p actor, row.secret = .pending p ∧
    row.metadata.userId = some actor ∧ (p.deviceCode, actor) ∈ requested
  codes : ∀ r ∈ requested, r.1 ∈ w.codes
  once : (requested.map Prod.fst).Nodup

/-- Rows that are still there are what they were, those of grants in every respect; others are
new. -/
structure World.Later (w w' : World) : Prop where
  born : w.born ⊆ w'.born
  rows : ∀ row' ∈ w'.rows, (row'.id ∉ w.born.map Prod.fst ∧ (row'.id, row'.type) ∈ w'.born) ∨
    ∃ row ∈ w.rows, row.id = row'.id ∧ row.type = row'.type ∧
      (row.type = .xaiDevicePending →
        row.secret = row'.secret ∧ row.metadata.userId = row'.metadata.userId)

/-- What a program has seen of grants is what there is, as far as it is still there. -/
structure Here.Knows (here : Here) (w : World) (requested : List (String × String)) : Prop where
  views : ∀ v ∈ here.views, (v.2.id, v.1) ∈ w.born
  reads : ∀ r ∈ here.reads, r.1 ∈ w.born.map Prod.fst
  user : ∀ view, (CredentialType.xaiDevicePending, view) ∈ here.views → ∀ row ∈ w.rows,
    row.id = view.id → row.type = .xaiDevicePending → row.metadata.userId = view.metadata.userId
  secret : ∀ r ∈ here.reads, ∀ row ∈ w.rows, row.id = r.1 → row.type = .xaiDevicePending →
    row.secret = r.2
  grant : ∀ view p, (CredentialType.xaiDevicePending, view) ∈ here.views →
    (view.id, Secret.pending p) ∈ here.reads → ∃ actor, view.metadata.userId = some actor ∧
      (p.deviceCode, actor) ∈ requested
  code : ∀ c ∈ here.code, ∀ actor ∈ here.actor, (c, actor) ∈ requested

section

variable {w w' : World} {requested requested' : List (String × String)} {here : Here}

theorem type_unique (h : w.Kept requested) {id : String} {type type' : CredentialType}
    (ht : (id, type) ∈ w.born) (ht' : (id, type') ∈ w.born) : type = type' :=
  congrArg Prod.snd (List.inj_on_of_nodup_map h.nodup ht ht' rfl)

theorem World.Later.refl (w : World) : w.Later w :=
  ⟨fun _ h => h, fun row' h => .inr ⟨row', h, rfl, rfl, fun _ => ⟨rfl, rfl⟩⟩⟩

/-- What others do leaves a program's knowledge true. -/
theorem Here.Knows.later (h : here.Knows w requested) (hlater : w.Later w')
    (hsub : requested ⊆ requested') : here.Knows w' requested' := by
  have hid : ∀ v ∈ here.views, v.2.id ∈ w.born.map Prod.fst := fun v hv =>
    List.mem_map.mpr ⟨_, h.views v hv, rfl⟩
  refine ⟨fun v hv => hlater.born (h.views v hv), fun r hr => ?_,
    fun view hview row' hrow' heq htype => ?_, fun r hr row' hrow' heq htype => ?_,
    fun view p hview hread => ?_, fun c hc actor hactor => hsub (h.code c hc actor hactor)⟩
  · exact (List.map_subset _ hlater.born) (h.reads r hr)
  · rcases hlater.rows row' hrow' with ⟨hnew, -⟩ | ⟨row, hrow, hrowid, htype', hsame⟩
    · exact absurd (heq ▸ hid _ hview) hnew
    · have hpending : row.type = .xaiDevicePending := htype'.trans htype
      exact (hsame hpending).2.symm.trans (h.user view hview row hrow (hrowid.trans heq) hpending)
  · rcases hlater.rows row' hrow' with ⟨hnew, -⟩ | ⟨row, hrow, hrowid, htype', hsame⟩
    · exact absurd (heq ▸ h.reads r hr) hnew
    · have hpending : row.type = .xaiDevicePending := htype'.trans htype
      exact (hsame hpending).1.symm.trans (h.secret r hr row hrow (hrowid.trans heq) hpending)
  · obtain ⟨actor, huser, hreq⟩ := h.grant view p hview hread
    exact ⟨actor, huser, hsub hreq⟩

/-- Rows that one update changes. -/
theorem World.Later.update {p : Row → Prop} [DecidablePred p] {f : Row → Row}
    {hf : ∀ row, (f row).id = row.id} (htype : ∀ row, (f row).type = row.type)
    (hsame : ∀ row ∈ w.rows, p row → row.type = .xaiDevicePending →
      row.secret = (f row).secret ∧ row.metadata.userId = (f row).metadata.userId) :
    w.Later { w with rows := w.rows.update p f hf } := by
  refine ⟨fun _ h => h, fun row' hrow' => .inr ?_⟩
  have hrow' : row' ∈ w.rows.update p f hf := hrow'
  rcases Table.update_cases hrow' with ⟨row, hrow, hp, rfl⟩ | ⟨hrow, -⟩
  · exact ⟨row, hrow, (hf row).symm, (htype row).symm, hsame row hrow hp⟩
  · exact ⟨row', hrow, rfl, rfl, fun _ => ⟨rfl, rfl⟩⟩

/-- A change of the provider alone. -/
theorem World.Later.of_rows (hrows : w'.rows = w.rows) (hborn : w'.born = w.born) : w.Later w' :=
  ⟨fun _ h => hborn ▸ h, fun row' h => .inr ⟨row', hrows ▸ h, rfl, rfl, fun _ => ⟨rfl, rfl⟩⟩⟩

theorem World.Later.delete (w : World) (id : String) :
    w.Later { w with rows := w.rows.delete fun row => row.id = id } :=
  ⟨fun _ h => h, fun row' h =>
    .inr ⟨row', (Table.mem_delete.mp h).1, rfl, rfl, fun _ => ⟨rfl, rfl⟩⟩⟩

/-- A command that keeps to the grants leaves those of the others as they are. -/
theorem World.later_next (hkept : w.Kept requested) (hknows : here.Knows w requested) {c : Cmd}
    {x : Except Thrown c.Resp} (hguard : bound.guard here c) (hx : w.Answers c x) :
    w.Later (w.next c x) := by
  cases c with
  | findCredentialByType type => exact .refl w
  | getCredentialSecret id => exact .refl w
  | now => exact .refl w
  | recordAudit action success => exact .refl w
  | createCredential type secret metadata =>
    cases x with
    | error e => exact .refl w
    | ok id =>
      refine ⟨List.subset_cons_self _ _, fun row' hrow' => ?_⟩
      rcases Table.mem_insert.mp hrow' with hrow' | ⟨rfl, -⟩
      · exact .inr ⟨row', hrow', rfl, rfl, fun _ => ⟨rfl, rfl⟩⟩
      · exact .inl ⟨hx, List.mem_cons_self⟩
  | updateCredentialSecret id secret metadata =>
    cases x with
    | error e => exact .refl w
    | ok _ =>
      refine World.Later.update (fun _ => rfl) fun row hrow hid hpending => ?_
      -- the row that is changed has been listed as a token
      obtain ⟨view, hview, hviewid⟩ := hguard
      have hborn : (id, CredentialType.xaiUserToken) ∈ w.born := hviewid ▸ hknows.views _ hview
      have htype : row.type = .xaiUserToken :=
        type_unique hkept (hkept.born row hrow) (by rw [hid]; exact hborn)
      exact absurd (hpending.symm.trans htype) nofun
  | updateCredentialMetadata id health code =>
    cases x with
    | error e => exact .refl w
    | ok _ => exact World.Later.update (fun _ => rfl) fun row _ _ _ => ⟨rfl, rfl⟩
  | revokeCredential id =>
    cases x with
    | error e => exact .refl w
    | ok _ => exact .delete w id
  | deviceAuthorization client => cases x <;> exact .of_rows rfl rfl
  | devicePoll client code => cases x <;> exact .of_rows rfl rfl
  | refreshGrant client r => cases x <;> exact .of_rows rfl rfl

/-- What is kept of ids and rows, when ids and codes stay. -/
theorem World.Kept.later (h : w.Kept requested) (hlater : w.Later w') (hborn : w'.born = w.born)
    (hcodes : w'.codes = w.codes) : w'.Kept requested := by
  refine ⟨hborn ▸ h.nodup, fun row' hrow' => ?_, fun row' hrow' htype => ?_,
    fun r hr => hcodes ▸ h.codes r hr, h.once⟩
  · rcases hlater.rows row' hrow' with ⟨-, hmem⟩ | ⟨row, hrow, hid, htype, -⟩
    · exact hmem
    · rw [hborn, ← hid, ← htype]
      exact h.born row hrow
  · rcases hlater.rows row' hrow' with ⟨hnew, hmem⟩ | ⟨row, hrow, hid, htype', hsame⟩
    · exact absurd (List.mem_map.mpr ⟨_, hborn ▸ hmem, rfl⟩) hnew
    · have hpending := htype'.trans htype
      obtain ⟨p, actor, hsecret, huser, hreq⟩ := h.pending row hrow hpending
      exact ⟨p, actor, (hsame hpending).1.symm.trans hsecret,
        (hsame hpending).2.symm.trans huser, hreq⟩

theorem World.kept_next (hkept : w.Kept requested) (hknows : here.Knows w requested) {c : Cmd}
    {x : Except Thrown c.Resp} (hguard : bound.guard here c) (hx : w.Answers c x) :
    (w.next c x).Kept (requestedBy here c x ++ requested) := by
  have hlater := World.later_next hkept hknows hguard hx
  cases c with
  | findCredentialByType type => exact hkept
  | getCredentialSecret id => exact hkept
  | now => exact hkept
  | recordAudit action success => exact hkept
  | updateCredentialSecret id secret metadata =>
    cases x <;> exact hkept.later hlater rfl rfl
  | updateCredentialMetadata id health code =>
    cases x <;> exact hkept.later hlater rfl rfl
  | revokeCredential id => cases x <;> exact hkept.later hlater rfl rfl
  | devicePoll client code => cases x <;> exact hkept.later hlater rfl rfl
  | refreshGrant client r => cases x <;> exact hkept.later hlater rfl rfl
  | createCredential type secret metadata =>
    cases x with
    | error e => exact hkept
    | ok id =>
      -- a pending grant is created with the code and the user of the action's own request
      refine ⟨List.nodup_cons.mpr ⟨hx, hkept.nodup⟩, fun row hrow => ?_, fun row hrow htype => ?_,
        hkept.codes, hkept.once⟩
      · rcases Table.mem_insert.mp hrow with hrow | ⟨rfl, -⟩
        · exact List.mem_cons_of_mem _ (hkept.born row hrow)
        · exact List.mem_cons_self
      · rcases Table.mem_insert.mp hrow with hrow | ⟨rfl, -⟩
        · exact hkept.pending row hrow htype
        · obtain ⟨p, hsecret, hcode, hactor, huser⟩ := hguard htype
          obtain ⟨actor, hactor⟩ := Option.isSome_iff_exists.mp hactor
          exact ⟨p, actor, hsecret, huser.trans hactor, hknows.code _ hcode actor hactor⟩
  | deviceAuthorization client =>
    cases x with
    | error e => exact hkept
    | ok answer =>
      -- a code the provider gives out is new
      refine ⟨hkept.nodup, hkept.born, fun row hrow htype => ?_, fun r hr => ?_, ?_⟩
      · obtain ⟨p, actor, hsecret, huser, hreq⟩ := hkept.pending row hrow htype
        exact ⟨p, actor, hsecret, huser, List.mem_append_right _ hreq⟩
      · rcases List.mem_append.mp hr with hr | hr
        · refine List.mem_append_left _ ?_
          rw [requestedBy] at hr
          split at hr
          · next device actor hdevice hactor =>
            rw [List.mem_singleton.mp hr, hdevice]
            exact List.mem_singleton_self _
          · exact absurd hr List.not_mem_nil
        · exact List.mem_append_right _ (hkept.codes r hr)
      · rw [requestedBy]
        split
        · next device actor hdevice hactor =>
          refine List.nodup_cons.mpr ⟨fun hmem => ?_, hkept.once⟩
          obtain ⟨r, hr, hcode⟩ := List.mem_map.mp hmem
          have hcode : r.1 = device.deviceCode := hcode
          exact hx device hdevice (hcode ▸ hkept.codes r hr)
        · exact hkept.once

theorem mem_of_findCredentialByType {rows : Rows} {type : CredentialType} {view : View}
    (h : some view = findCredentialByType rows type) :
    ∃ row ∈ rows, row.type = type ∧ row.view = view := by
  obtain ⟨row, hrow, rfl⟩ := Option.map_eq_some_iff.mp h.symm
  obtain ⟨hmem, htype⟩ := List.mem_filter.mp (List.mem_of_head? hrow)
  exact ⟨row, hmem, of_decide_eq_true htype, rfl⟩

/-- A row's knowledge after it has been listed. -/
theorem Here.Knows.find (hkept : w.Kept requested) (h : here.Knows w requested)
    {type : CredentialType} {view : View}
    (hx : some view = findCredentialByType w.rows type) :
    ({ here with views := (type, view) :: here.views } : Here).Knows w requested := by
  obtain ⟨row, hrow, rfl, rfl⟩ := mem_of_findCredentialByType hx
  have heq : ∀ row' ∈ w.rows, row'.id = row.id → row' = row := fun row' hrow' hid =>
    Table.eq_of_key hrow' hrow hid
  refine ⟨fun v hv => ?_, h.reads, fun view hview row' hrow' hid htype => ?_, h.secret,
    fun view p hview hread => ?_, h.code⟩
  · rcases List.mem_cons.mp hv with rfl | hv
    · exact hkept.born row hrow
    · exact h.views v hv
  · rcases List.mem_cons.mp hview with hview | hview
    · obtain ⟨-, rfl⟩ := Prod.mk.inj hview
      rw [heq row' hrow' hid]
      rfl
    · exact h.user view hview row' hrow' hid htype
  · rcases List.mem_cons.mp hview with hview | hview
    · obtain ⟨htype, rfl⟩ := Prod.mk.inj hview
      -- the secret that was read before is the row's
      have hsecret := h.secret _ hread row hrow rfl htype.symm
      obtain ⟨p', actor, hsecret', huser, hreq⟩ := hkept.pending row hrow htype.symm
      obtain rfl := Secret.pending.inj (hsecret'.symm.trans hsecret)
      exact ⟨actor, huser, hreq⟩
    · exact h.grant view p hview hread

/-- A program's knowledge after it has read a secret. -/
theorem Here.Knows.read (hkept : w.Kept requested) (h : here.Knows w requested) {id : String}
    {sealed : Secret} (hx : some sealed = (w.rows.get? id).map Row.secret) :
    ({ here with reads := (id, sealed) :: here.reads } : Here).Knows w requested := by
  obtain ⟨row, hrow, rfl⟩ := Option.map_eq_some_iff.mp hx.symm
  obtain ⟨hmem, rfl⟩ := Table.get?_eq_some.mp hrow
  refine ⟨h.views, fun r hr => ?_, h.user, fun r hr row' hrow' hid htype => ?_,
    fun view p hview hread => ?_, h.code⟩
  · rcases List.mem_cons.mp hr with rfl | hr
    · exact List.mem_map.mpr ⟨_, hkept.born row hmem, rfl⟩
    · exact h.reads r hr
  · rcases List.mem_cons.mp hr with rfl | hr
    · rw [Table.eq_of_key hrow' hmem hid]
    · exact h.secret r hr row' hrow' hid htype
  · rcases List.mem_cons.mp hread with hread | hread
    · obtain ⟨hid, hsecret⟩ := Prod.mk.inj hread
      -- the row was listed as pending, and ids are not used again
      have htype : row.type = .xaiDevicePending :=
        type_unique hkept (hkept.born row hmem) (hid ▸ h.views _ hview)
      obtain ⟨p', actor, hsecret', huser, hreq⟩ := hkept.pending row hmem htype
      obtain rfl := Secret.pending.inj (hsecret'.symm.trans hsecret.symm)
      exact ⟨actor, (h.user view hview row hmem hid.symm htype).symm.trans huser, hreq⟩
    · exact h.grant view p hview hread

/-- A command leaves its own program's knowledge true. -/
theorem Here.knows_next (hkept : w.Kept requested) (h : here.Knows w requested) {c : Cmd}
    {x : Except Thrown c.Resp} (hguard : bound.guard here c) (hx : w.Answers c x) :
    (here.next c x).Knows (w.next c x) (requestedBy here c x ++ requested) := by
  have hlater : here.Knows (w.next c x) (requestedBy here c x ++ requested) :=
    h.later (World.later_next hkept h hguard hx) (List.subset_append_right _ _)
  cases c with
  | findCredentialByType type =>
    match x with
    | .error e => exact h
    | .ok none => exact h
    | .ok (some view) => exact h.find hkept hx
  | getCredentialSecret id =>
    match x with
    | .error e => exact h
    | .ok none => exact h
    | .ok (some sealed) => exact h.read hkept hx
  | deviceAuthorization client =>
    cases x with
    | error e => exact h
    | ok answer =>
      refine ⟨hlater.views, hlater.reads, hlater.user, hlater.secret, hlater.grant, ?_⟩
      intro c hc actor hactor
      obtain ⟨device, hdevice, rfl⟩ := Option.map_eq_some_iff.mp hc
      refine List.mem_append_left _ ?_
      have hactor : here.actor = some actor := hactor
      rw [requestedBy, hdevice, hactor]
      exact List.mem_singleton_self _
  | now => cases x <;> exact ⟨h.views, h.reads, h.user, h.secret, h.grant, h.code⟩
  | recordAudit action success => exact h
  | updateCredentialMetadata id health code => cases x <;> exact hlater
  | revokeCredential id => cases x <;> exact hlater
  | createCredential type secret metadata =>
    cases x with
    | error e => exact h
    | ok id => exact ⟨hlater.1, hlater.2, hlater.3, hlater.4, hlater.5, hlater.6⟩
  | updateCredentialSecret id secret metadata =>
    cases x with
    | error e => exact h
    | ok _ => exact ⟨hlater.1, hlater.2, hlater.3, hlater.4, hlater.5, hlater.6⟩
  | devicePoll client code =>
    cases x with
    | error e => exact h
    | ok answer => exact ⟨hlater.1, hlater.2, hlater.3, hlater.4, hlater.5, hlater.6⟩
  | refreshGrant client r =>
    cases x with
    | error e => exact ⟨hlater.1, hlater.2, hlater.3, hlater.4, hlater.5, hlater.6⟩
    | ok answer => exact ⟨hlater.1, hlater.2, hlater.3, hlater.4, hlater.5, hlater.6⟩

end

/-! ### A whole run -/

namespace Runs

structure Bound (d : Runs) : Prop where
  safe : ∀ t ∈ d.tasks, t.Safe bound fun _ _ => True
  kept : d.world.Kept d.requested
  knows : ∀ t ∈ d.tasks, t.here.Knows d.world d.requested

variable {d d' : Runs}

theorem bound_step {l : RunStep} (h : d.Bound) (hs : d.step l = some d') : d'.Bound := by
  cases l with
  | enter entry =>
    obtain rfl := Option.some_inj.mp hs
    refine ⟨fun t ht => ?_, h.kept, fun t ht => ?_⟩
    · exact of_mem_enter ht h.safe (entry_bound entry rfl)
    · exact of_mem_enter ht h.knows ⟨nofun, nofun, nofun, nofun, nofun, nofun⟩
  | advance i answer =>
    obtain ⟨c, k, here, hi, hx, rfl⟩ := step_advance_cases hs
    obtain ⟨hguard, hsafe⟩ := safe_advance hi h.safe (x := answer c) trivial
    have hknows : here.Knows d.world d.requested := h.knows _ (List.mem_of_getElem? hi)
    refine ⟨hsafe, World.kept_next h.kept hknows hguard hx, fun t ht => ?_⟩
    rcases List.mem_or_eq_of_mem_set ht with ht | rfl
    · exact (h.knows t ht).later (World.later_next h.kept hknows hguard hx)
        (List.subset_append_right _ _)
    · exact Here.knows_next h.kept hknows hguard hx
  | crash i =>
    obtain ⟨t, hi, rfl⟩ := Option.map_eq_some_iff.mp hs
    refine ⟨fun u hu => ?_, h.kept, fun u hu => ?_⟩
    · rcases List.mem_or_eq_of_mem_set hu with hu | rfl
      · exact h.safe u hu
      · trivial
    · rcases List.mem_or_eq_of_mem_set hu with hu | rfl
      · exact h.knows u hu
      · have hknows := h.knows t (List.mem_of_getElem? hi)
        exact ⟨hknows.1, hknows.2, hknows.3, hknows.4, hknows.5, hknows.6⟩
  | revoke id =>
    obtain rfl := Option.some_inj.mp hs
    have hlater := World.Later.delete d.world id
    exact ⟨h.safe, h.kept.later hlater rfl rfl, fun t ht =>
      (h.knows t ht).later hlater fun _ hr => hr⟩

/-- No grant is pending at the start. -/
theorem bound_init {rows : Rows} (hrows : ∀ row ∈ rows, row.type ≠ .xaiDevicePending) :
    (init rows).Bound := by
  refine ⟨nofun, ⟨?_, fun row hrow => ?_, fun row hrow htype => ?_, nofun, List.nodup_nil⟩, nofun⟩
  · rw [init, List.map_map]
    exact rows.nodup
  · exact List.mem_map.mpr ⟨row, hrow, rfl⟩
  · exact absurd htype (hrows row hrow)

/-- **A device code is polled only by the administrator it was given to**, whatever administrators
and the worker do in between, whatever fails, and however often a grant is started anew. -/
theorem grant_bound {rows : Rows} (hrows : ∀ row ∈ rows, row.type ≠ .xaiDevicePending)
    (h : Transition.Reachable step (init rows) d) {i : ℕ} {client : ResolvedXaiClient}
    {deviceCode : String} {k : Except Thrown Answer → Xai Unit} {here : Here}
    (hi : d.tasks[i]? = some ⟨.call (.devicePoll client deviceCode) k, here⟩) :
    ∃ actor, here.actor = some actor ∧ (deviceCode, actor) ∈ d.requested ∧
      ∀ actor', (deviceCode, actor') ∈ d.requested → actor' = actor := by
  have hbound : d.Bound := h.invariant (bound_init hrows) fun _ _ _ _ hb _ hs => bound_step hb hs
  have hmem := List.mem_of_getElem? hi
  obtain ⟨hguard, -⟩ := hbound.safe _ hmem
  obtain ⟨view, p, hview, -, huser, hread, rfl⟩ := hguard
  obtain ⟨actor, hactor, hreq⟩ := (hbound.knows _ hmem).grant view p hview hread
  refine ⟨actor, huser.symm.trans hactor, hreq, fun actor' hreq' => ?_⟩
  exact congrArg Prod.snd (List.inj_on_of_nodup_map hbound.kept.once hreq' hreq rfl)

/-! ### Samples -/

namespace Sample

theorem unlimited : ∀ n ∈ (none : Option ℕ), 0 < n := fun n h => absurd h (Option.not_mem_none n)

/-- A token that does not say when it expires. -/
def token (accessToken refreshToken : String) : TokenResponse :=
  ⟨accessToken, none, some refreshToken, none, unlimited⟩

/-- The tables answer as they stand; the provider gives out one device code. -/
def answering (rows : Rows) : (c : Cmd) → Except Thrown c.Resp
  | .findCredentialByType type => .ok (XaiOAuth.findCredentialByType rows type)
  | .getCredentialSecret id => .ok ((rows.get? id).map Row.secret)
  | .now => .ok 500
  | .refreshGrant .. => .ok { status := 200, token := some (token "a2" "r2") }
  | .deviceAuthorization _ =>
    .ok { status := 200, device := some ⟨"device", "CODE", "https://x.ai", none, 600, 5⟩ }
  | .devicePoll .. => .ok { status := 200, token := some (token "a1" "r1") }
  | .createCredential .. => .ok "c1"
  | .updateCredentialSecret id _ metadata => .ok ((rows.get? id).map fun row => ⟨row.id, metadata⟩)
  | .updateCredentialMetadata .. | .revokeCredential _ | .recordAudit .. => .ok ()

/-- The row of a grant that has been started. -/
def pendingRow : Row :=
  ⟨"c1", .xaiDevicePending, .pending ⟨"device", 5, some 600500⟩, { userId := some "alice" }⟩

def pendingRows : Rows := ⟨[pendingRow], by decide⟩

/-- One administrator starts a grant; another polls, and then the one who has started it. -/
def startAndPoll : List RunStep :=
  .enter (.start (some "alice")) :: List.replicate 6 (.advance 0 (answering Table.empty)) ++
    [.enter (.poll (some "bob")), .advance 1 (answering pendingRows),
      .enter (.poll (some "alice")), .advance 2 (answering pendingRows),
      .advance 2 (answering pendingRows), .advance 2 (answering pendingRows),
      .advance 2 (answering pendingRows)]

end Sample

theorem grant_bound_startAndPoll : ∃ d : Runs, Transition.Reachable step (init Table.empty) d ∧
    ∃ actor, ("device", actor) ∈ d.requested := by
  have hrun : Transition.run step (init Table.empty) Sample.startAndPoll = some _ := rfl
  have hreach := Transition.reach_of_run (Transition.runMeets_true _ _) hrun
  have hnone : ∀ row ∈ (Table.empty : Rows), row.type ≠ .xaiDevicePending :=
    fun row hrow => absurd hrow Table.not_mem_empty
  obtain ⟨actor, -, hreq, -⟩ := grant_bound (i := 2) hnone hreach rfl
  exact ⟨_, hreach, actor, hreq⟩

end Runs

end XaiOAuth
