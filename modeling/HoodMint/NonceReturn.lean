/-
The nonces a fire gives back.

A nonce goes back to the allocator on the assumption that no transaction has used it.  The fire
knows of two transactions: the blob it was given and the one it signs itself.  What has become of
them it learns from the endpoints, and a transaction that was mined and reverted has used its
nonce like any other.

* `returned` — a nonce is given back only while no transaction known to be mined has it, and
  while the fire has sent none of its own at it;
* `Cmd.Aside` — the commands that neither change nor ask what is known of the two;
* `returned_iff` — the fire gives back only such nonces exactly when no endpoint reports one of
  the two as reverted before an endpoint has accepted any transaction of the fire;
* `reverted_returned` — a blob that was mined and reverted: its nonce is given back.
-/
import HoodMint.SignerFrame

namespace MintWorker

open Effect

/-! ### What a fire knows -/

/-- The blob the fire was given, the transaction it has signed with the nonce it signed it at,
whether it has sent that one, whether an endpoint has accepted any, and the nonces of those it
has seen a receipt of. -/
structure ReturnState where
  blob : Option Presigned
  own : Option (Signed × ℕ)
  sent : Bool
  accepted : Bool
  mined : List ℕ
deriving DecidableEq

namespace ReturnState

/-- Nothing yet. -/
def start : ReturnState := ⟨none, none, false, false, []⟩

/-- The nonces of the transactions with a hash. -/
def noncesOf (s : ReturnState) (txHash : String) : List ℕ :=
  ((s.blob.filter fun row => row.presignedTxHash = some txHash).bind
      Presigned.presignedNonce).toList ++
    (s.own.filter fun own => own.1.txHash = txHash).toList.map Prod.snd

/-- A transaction with the nonce is known to be mined, or the fire has sent one. -/
def Consumed (s : ReturnState) (nonce : ℕ) : Prop :=
  nonce ∈ s.mined ∨ s.sent = true ∧ ∃ own ∈ s.own, own.2 = nonce

instance (s : ReturnState) : DecidablePred s.Consumed := fun nonce =>
  (inferInstance : Decidable (nonce ∈ s.mined ∨ s.sent = true ∧ ∃ own ∈ s.own, own.2 = nonce))

end ReturnState

/-- Only the wallet's nonces are given back, and none that is consumed.  The answers are those
of endpoints that report no transaction of the fire as reverted, unless one of them has accepted
a transaction. -/
def returned (address : String) : Monitor signature Thrown ReturnState where
  guard s c :=
    match c with
    | .releaseNonce walletAddress nonce => walletAddress = address ∧ ¬ s.Consumed nonce
    | _ => True
  allowed s c x :=
    match c, x with
    | .getTransactionReceipt _ txHash, .ok (some .reverted) =>
      s.accepted = true ∨ s.noncesOf txHash = []
    | _, _ => True
  next s c x :=
    match c, x with
    | .selectPresigned _, .ok row => { s with blob := row }
    | .signManagedMintTransaction managed _, .ok signed =>
      { s with own := some (signed, managed.nonce) }
    | .raceRawTransaction _ rawTx, answer =>
      { s with
        sent := s.sent || s.own.any fun own => own.1.rawTx = rawTx
        accepted := s.accepted || answer matches .ok (.ok _) }
    | .getTransactionReceipt _ txHash, .ok (some _) =>
      { s with mined := s.noncesOf txHash ++ s.mined }
    | _, _ => s

/-- Neither changes nor asks what is known of the fire's transactions, and gives no nonce
back. -/
def Cmd.Aside : Cmd → Prop
  | .selectPresigned _ | .signManagedMintTransaction .. | .raceRawTransaction ..
  | .getTransactionReceipt .. | .releaseNonce .. => False
  | _ => True

section

variable {α : Type} {p : Worker α} {config : Config} {plan : Plan} {tx : Tx} {wallet : Wallet}
  {rpcUrl address : String} {mode : FireMode} {s : ReturnState} {t : Audit ReturnState}

/-! ### What stands aside -/

abbrev Aside (p : Worker α) : Prop := p.Only (S := signature) Cmd.Aside

theorem aside_ask {c : Cmd} (h : c.Aside) : Aside (ask c) := Prog.Only.issue h

theorem Idle.aside (h : Idle p) : Aside p := by
  refine h.mono fun c hc => ?_
  cases c <;> first | exact trivial | exact hc

theorem aside_clearPresignedTx : Aside (clearPresignedTx plan) :=
  .bind (aside_ask trivial) fun _ => .pure _

theorem aside_releaseMintPlanToArmed : Aside (releaseMintPlanToArmed plan) :=
  .bind (aside_ask trivial) fun _ => .bind (aside_ask trivial) fun _ => .pure _

theorem aside_failPlanAndNotify : Aside (failPlanAndNotify plan) :=
  .bind (aside_ask trivial) fun _ => aside_ask trivial

theorem aside_markMintPlanExecuted : Aside (markMintPlanExecuted plan) :=
  .bind (aside_ask trivial) fun _ => .pure _

theorem aside_prepareLive : Aside (prepareLive config plan tx wallet rpcUrl mode) := by
  refine .bind idle_simulateLive.aside.attempt fun sim => ?_
  refine .bind idle_feesLive.aside.attempt fun fees => ?_
  split
  · exact .throw _
  · exact .throw _
  · exact .bind (aside_ask trivial) fun _ => .bind aside_releaseMintPlanToArmed fun _ => .pure _
  · exact .pure _

/-- Neither signs, sends nor reads the blob, and gives no nonce back. -/
def Cmd.Retains : Cmd → Prop
  | .getTransactionReceipt .. => True
  | c => c.Aside

theorem Cmd.Quiet.retains {c : Cmd} (h : c.Quiet) : c.Retains := by
  cases c <;> first | exact trivial | exact h

theorem Cmd.Aside.retains {c : Cmd} (h : c.Aside) : c.Retains := by
  cases c <;> first | exact trivial | exact h

abbrev Retains (p : Worker α) : Prop := p.Only (S := signature) Cmd.Retains

theorem Quiet.retains (h : Quiet p) : Retains p := h.mono fun _ hc => hc.retains

theorem Aside.retains (h : Aside p) : Retains p := h.mono fun _ hc => hc.retains

theorem retains_settleFast {txHash : String} : Retains (settleFast plan rpcUrl txHash) := by
  have hrecord : Aside (record plan { status := .broadcast, txHash := some txHash }) :=
    aside_ask trivial
  refine .bind hrecord.retains fun _ => .bind aside_clearPresignedTx.retains fun _ => ?_
  refine .bind looks_waitForMintReceipt.quiet.retains fun outcome => ?_
  cases outcome with
  | reverted => exact quiet_settleReverted.retains
  | success => exact quiet_settleExecuted.retains
  | unknown => exact quiet_settleExecuted.retains

/-! ### The stages of a fire -/

namespace ReturnState

/-- All answers were possible ones, and `s` is what is known. -/
def Known (s : ReturnState) (t : Audit ReturnState) : Prop := t.admitted ∧ t.state = s

/-- All answers were possible ones, and an endpoint has accepted a transaction. -/
def Accepted (t : Audit ReturnState) : Prop := t.admitted ∧ t.state.accepted = true

/-- A consumed nonce has been given back. -/
def Spoilt (t : Audit ReturnState) : Prop := ¬ t.admitted ∧ ¬ t.kept

/-- Whatever was not a possible answer has led to that. -/
def Sound (t : Audit ReturnState) : Prop := t.kept → t.admitted

theorem Known.sound (h : s.Known t) : Sound t := fun _ => h.1

theorem Accepted.sound (h : Accepted t) : Sound t := fun _ => h.1

theorem Spoilt.sound (h : Spoilt t) : Sound t := fun hk => absurd hk h.2

end ReturnState

open ReturnState

theorem aside_known (h : Aside p) (hs : s.Known t) :
    p.wp (returned address).audit (fun _ t' => s.Known t') t := by
  refine h.wp_of (fun t c hc hs => ⟨fun _ => ?_, fun x _ => ?_⟩) hs
  · cases c <;> first | exact trivial | exact absurd hc id
  · obtain ⟨hadm, rfl⟩ := hs
    cases c <;> first | exact ⟨⟨hadm, trivial⟩, rfl⟩ | exact absurd hc id

theorem aside_sound (h : Aside p) (hs : s.Known t) :
    p.wp (returned address).audit (fun _ t' => Sound t') t :=
  Prog.wp_mono (aside_known h hs) fun _ _ hs' => hs'.sound

theorem retains_accepted (h : Retains p) (hs : Accepted t) :
    p.wp (returned address).audit (fun _ t' => Accepted t') t := by
  refine h.wp_of (fun t c hc hs => ⟨fun _ => ?_, fun x _ => ?_⟩) hs
  · cases c <;> first | exact trivial | exact absurd hc id
  · obtain ⟨hadm, hacc⟩ := hs
    cases c with
    | getTransactionReceipt url txHash =>
      rcases x with e | _ | _ | _
      · exact ⟨⟨hadm, trivial⟩, hacc⟩
      · exact ⟨⟨hadm, trivial⟩, hacc⟩
      · exact ⟨⟨hadm, trivial⟩, hacc⟩
      · exact ⟨⟨hadm, Or.inl hacc⟩, hacc⟩
    | _ => first | exact ⟨⟨hadm, trivial⟩, hacc⟩ | exact absurd hc id

/-- Once a consumed nonce has been given back, nothing else matters. -/
theorem spoilt_wp (p : Worker α) (h : Spoilt t) :
    p.wp (returned address).audit (fun _ t' => Spoilt t') t := by
  refine (Prog.Only.all p).wp_of (fun t c _ h => ⟨fun hadm => absurd hadm h.1, fun x _ => ?_⟩) h
  exact ⟨fun hadm => h.1 hadm.1, fun hk => h.2 hk.1⟩

/-! ### Asking and giving back -/

/-- What an outcome tells. -/
def ReturnState.Resolved (s : ReturnState) (txHash : String) (t : Audit ReturnState) :
    ReceiptOutcome → Prop
  | .success => t.admitted
  | .unknown => s.Known t
  | .reverted => s.noncesOf txHash = [] ∧ s.Known t ∨ s.noncesOf txHash ≠ [] ∧ ¬ t.admitted ∧
      ∀ nonce ∈ s.noncesOf txHash, t.state.Consumed nonce

theorem resolveTxOutcomeOnce_returned {url txHash : String} (hs : s.Known t)
    (hacc : s.accepted = false) :
    (resolveTxOutcomeOnce url txHash).wp (returned address).audit
      (fun r t' => ∃ outcome, r = .ok outcome ∧ s.Resolved txHash t' outcome) t := by
  obtain ⟨hadm, rfl⟩ := hs
  refine Prog.wp_bind.mpr (Prog.wp_attempt.mpr (Prog.wp_issue.mpr ⟨fun _ => trivial, fun x _ => ?_⟩))
  rcases x with e | _ | _ | _
  · exact ⟨.unknown, rfl, ⟨hadm, trivial⟩, rfl⟩
  · exact ⟨.unknown, rfl, ⟨hadm, trivial⟩, rfl⟩
  · exact ⟨.success, rfl, hadm, trivial⟩
  · refine ⟨.reverted, rfl, ?_⟩
    by_cases hnone : t.state.noncesOf txHash = []
    · refine Or.inl ⟨hnone, ⟨hadm, Or.inr hnone⟩, ?_⟩
      show { t.state with mined := t.state.noncesOf txHash ++ t.state.mined } = t.state
      rw [hnone]
      rfl
    · refine Or.inr ⟨hnone, fun hadm' => ?_, fun nonce hn => Or.inl (List.mem_append_left _ hn)⟩
      rcases hadm'.2 with hacc' | hnone'
      · exact Bool.false_ne_true (hacc.symm.trans hacc')
      · exact hnone hnone'

theorem resolveTxOutcome_returned {txHash : String} (hacc : s.accepted = false)
    (urls : List String) (hs : s.Known t) :
    (resolveTxOutcome urls txHash).wp (returned address).audit
      (fun r t' => ∃ outcome, r = .ok outcome ∧ s.Resolved txHash t' outcome) t := by
  induction urls generalizing t with
  | nil => exact ⟨.unknown, rfl, hs⟩
  | cons url urls ih =>
    refine Prog.wp_bind_of (resolveTxOutcomeOnce_returned hs hacc) ?_ ?_
    · rintro outcome t' ⟨_, ⟨⟩, h⟩
      split
      · exact ⟨outcome, rfl, h⟩
      · next hunknown =>
        obtain rfl := not_not.mp hunknown
        exact ih h
    · rintro e t' ⟨_, h, _⟩
      simp at h

theorem releaseHeldNonce_known (nonce : Option ℕ) (hs : s.Known t)
    (hfree : ∀ n ∈ nonce, ¬ s.Consumed n) :
    (releaseHeldNonce wallet nonce).wp (returned wallet.address).audit (fun _ t' => s.Known t') t := by
  obtain ⟨hadm, rfl⟩ := hs
  cases nonce with
  | none => exact ⟨hadm, rfl⟩
  | some n => exact Prog.wp_issue.mpr ⟨fun _ => ⟨rfl, hfree n rfl⟩, fun x _ => ⟨⟨hadm, trivial⟩, rfl⟩⟩

/-- A consumed nonce is given back only after an answer that was not a possible one. -/
theorem releaseHeldNonce_spoilt {n : ℕ} (hadm : ¬ t.admitted) (hn : t.state.Consumed n) :
    (releaseHeldNonce wallet (some n)).wp (returned wallet.address).audit
      (fun _ t' => Spoilt t') t := by
  refine Prog.wp_issue.mpr ⟨fun h => absurd h hadm, fun x _ => ?_⟩
  exact ⟨fun h => hadm h.1, fun hk => hk.2.2 hn⟩

/-- What is raced is accepted, or may be on its way. -/
theorem raceBroadcast_returned {urls : List String} {rawTx : String} (hs : s.Known t)
    (hacc : s.accepted = false) :
    (raceBroadcast urls rawTx).wp (returned address).audit (fun r t' => match r with
      | .ok _ => Accepted t'
      | .error _ => Known { s with sent := s.sent || s.own.any fun own => own.1.rawTx = rawTx } t')
      t := by
  obtain ⟨hadm, rfl⟩ := hs
  refine Prog.wp_bind.mpr (Prog.wp_issue.mpr ⟨fun _ => trivial, fun x _ => ?_⟩)
  have hstill : t.state.accepted = (t.state.accepted || false) := (Bool.or_false _).symm
  rcases x with e | errors | txHash
  · exact ⟨⟨hadm, trivial⟩, by rw [hstill]; rfl⟩
  · exact ⟨⟨hadm, trivial⟩, by rw [hstill]; rfl⟩
  · exact ⟨⟨hadm, trivial⟩, Bool.or_true _⟩

/-! ### The fast path -/

/-- Before the fire has signed. -/
structure ReturnState.Fresh (s : ReturnState) : Prop where
  own : s.own = none
  sent : s.sent = false
  accepted : s.accepted = false
  mined : s.mined = []

theorem ReturnState.Fresh.not_consumed (h : s.Fresh) (nonce : ℕ) : ¬ s.Consumed nonce := by
  rintro (hmined | ⟨hsent, _⟩)
  · rw [h.mined] at hmined
    exact List.not_mem_nil hmined
  · exact Bool.false_ne_true (h.sent.symm.trans hsent)

/-- The blob's nonce is the one known for its hash. -/
theorem noncesOf_blob {row : Presigned} {txHash : String} (hblob : s.blob = some row)
    (hown : s.own = none) (hhash : row.presignedTxHash = some txHash) :
    s.noncesOf txHash = row.presignedNonce.toList := by
  simp [noncesOf, hblob, hown, Option.filter, hhash]

/-- What the fast path leaves to the live path. -/
abbrev ReturnState.FallsThrough (s : ReturnState) (r : Except Thrown Bool)
    (t : Audit ReturnState) : Prop :=
  Sound t ∧ (r = .ok false → s.Known t ∨ Spoilt t)

theorem fallsThrough_true (h : Sound t) : s.FallsThrough (.ok true) t :=
  ⟨h, fun heq => by simp at heq⟩

theorem fallsThrough_error {e : Thrown} (h : Sound t) : s.FallsThrough (.error e) t :=
  ⟨h, fun heq => by simp at heq⟩

theorem releaseFresh_returned (nonce : Option ℕ) (hs : s.Fresh) (hk : s.Known t) :
    (do releaseHeldNonce wallet nonce; return false : Worker Bool).wp
      (returned wallet.address).audit s.FallsThrough t := by
  refine Prog.wp_bind_of (releaseHeldNonce_known _ hk fun n _ => hs.not_consumed n) ?_ ?_
  · exact fun _ t' hk' => ⟨hk'.sound, fun _ => Or.inl hk'⟩
  · exact fun _ t' hk' => ⟨hk'.sound, fun _ => Or.inl hk'⟩

/-- The nonce of a discarded blob is given back: consumed only when the endpoints have
reported the blob as reverted. -/
theorem releaseBlob_returned {row : Presigned} {outcome : ReceiptOutcome} {txHash : String}
    (hs : s.Fresh) (hblob : s.blob = some row) (hhash : row.presignedTxHash = some txHash)
    (hne : outcome ≠ .success) (h : s.Resolved txHash t outcome) :
    (do releaseHeldNonce wallet row.presignedNonce; return false : Worker Bool).wp
      (returned wallet.address).audit s.FallsThrough t := by
  cases outcome with
  | success => exact absurd rfl hne
  | unknown => exact releaseFresh_returned _ hs h
  | reverted =>
    rw [ReturnState.Resolved, noncesOf_blob hblob hs.own hhash] at h
    rcases h with ⟨_, hk⟩ | ⟨hne, hadm, hconsumed⟩
    · exact releaseFresh_returned _ hs hk
    · cases hnonce : row.presignedNonce with
      | none => exact absurd (congrArg Option.toList hnonce) hne
      | some n =>
        have hn : t.state.Consumed n := hconsumed n (Option.mem_toList.mpr hnonce)
        refine Prog.wp_bind_of (releaseHeldNonce_spoilt hadm hn) ?_ ?_
        · exact fun _ t' h' => ⟨h'.sound, fun _ => Or.inr h'⟩
        · exact fun _ t' h' => ⟨h'.sound, fun _ => Or.inr h'⟩

theorem discardBlob_returned {row : Presigned} {error : Thrown} (hs : s.Fresh)
    (hblob : s.blob = some row) (hk : s.Known t) :
    (discardBlob plan wallet mode row error).wp (returned wallet.address).audit s.FallsThrough t := by
  -- nothing that returns `true`, or fails, reaches the live path
  have herr : ∀ {s' : ReturnState} e t', s'.Known t' → s.FallsThrough (.error e) t' :=
    fun _ _ h => fallsThrough_error h.sound
  have hend : ∀ {p : Worker Unit} {s' : ReturnState} {t' : Audit ReturnState}, Aside p →
      s'.Known t' → (do p; return true : Worker Bool).wp (returned wallet.address).audit
        s.FallsThrough t' := by
    intro p s' t' hp hk'
    exact Prog.wp_bind_of (aside_known hp hk') (fun _ _ h => fallsThrough_true h.sound) herr
  refine Prog.wp_bind_of (aside_known aside_clearPresignedTx hk) (fun _ t₁ h₁ => ?_) herr
  split
  · refine Prog.wp_bind_of (aside_known (aside_ask trivial) h₁) (fun _ t₂ h₂ => ?_) herr
    split
    · exact hend aside_failPlanAndNotify h₂
    · exact hend aside_releaseMintPlanToArmed h₂
  · cases hhash : row.presignedTxHash with
    | none =>
      rw [presignedOutcome, hhash]
      exact releaseFresh_returned _ hs h₁
    | some txHash =>
      rw [presignedOutcome, hhash]
      refine Prog.wp_bind_of (resolveTxOutcome_returned hs.accepted _ h₁) ?_ ?_
      · rintro outcome t₂ ⟨_, ⟨⟩, h₂⟩
        cases outcome with
        | success =>
          have hknown : t₂.state.Known t₂ := ⟨h₂, rfl⟩
          refine Prog.wp_bind_of (aside_known (aside_ask trivial) hknown) ?_ herr
          exact fun _ _ h₃ => hend aside_markMintPlanExecuted h₃
        | reverted => exact releaseBlob_returned hs hblob hhash ReceiptOutcome.noConfusion h₂
        | unknown => exact releaseBlob_returned hs hblob hhash ReceiptOutcome.noConfusion h₂
      · rintro e t₂ ⟨_, h, _⟩
        simp at h

/-- The fire has nothing of its own to send. -/
theorem ReturnState.Fresh.raced (h : s.Fresh) (rawTx : String) :
    { s with sent := s.sent || s.own.any fun own => own.1.rawTx = rawTx } = s := by
  obtain ⟨hown, hsent, _, _⟩ := h
  cases s
  simp_all

theorem raceBlob_returned {rawTx : String} (hs : s.Fresh) (hk : s.Known t) :
    (raceBlob config rpcUrl rawTx).wp (returned address).audit (fun r t' => match r with
      | .ok _ => Accepted t'
      | .error _ => s.Known t') t := by
  refine Prog.wp_bind_of (aside_known idle_resolveBroadcastRpcUrls.aside hk) ?_ fun _ _ h => h
  intro urls t₁ h₁
  refine Prog.wp_mono (raceBroadcast_returned h₁ hs.accepted) fun r t₂ h₂ => ?_
  cases r with
  | ok txHash => exact h₂
  | error e =>
    rw [hs.raced] at h₂
    exact h₂

theorem fireFast_returned {row : Presigned} {rawTx : String} (hs : s.Fresh)
    (hblob : s.blob = some row) (hk : s.Known t) :
    (fireFast config plan wallet rpcUrl mode row rawTx).wp (returned wallet.address).audit
      s.FallsThrough t := by
  refine Prog.wp_bind.mpr (Prog.wp_attempt.mpr (Prog.wp_mono (raceBlob_returned hs hk) ?_))
  intro r t₁ h₁
  cases r with
  | error e => exact discardBlob_returned hs hblob h₁
  | ok txHash =>
    have hsettle : Retains (tryCatch (settleFast plan rpcUrl txHash) fun _ => rescueFast plan) :=
      retains_settleFast.tryCatch fun _ => quiet_rescueFast.retains
    refine Prog.wp_bind_of (retains_accepted hsettle h₁) ?_ ?_
    · exact fun _ _ h => fallsThrough_true h.sound
    · exact fun _ _ h => fallsThrough_error h.sound

/-! ### The live path -/

/-- The fire has signed at the nonce; no endpoint has accepted anything, and no receipt has
been seen. -/
structure ReturnState.Signed (s : ReturnState) (signed : MintWorker.Signed) (nonce : ℕ) : Prop where
  own : s.own = some (signed, nonce)
  accepted : s.accepted = false
  mined : s.mined = []

/-- What follows a failure, once the nonce has been dealt with. -/
theorem aside_giveUp {error : Thrown} : Aside (do
    record plan
      { status := .failed, errorCode := some (error.errorCode "unknown_managed_signing_error") }
    if error.isError && isInsufficientFundsError error.message then failPlanAndNotify plan
    else releaseMintPlanToArmed plan) := by
  refine .bind (aside_ask trivial) fun _ => ?_
  split
  · exact aside_failPlanAndNotify
  · exact aside_releaseMintPlanToArmed

theorem giveUpLive_known {nonce : Option ℕ} {error : Thrown} (hk : s.Known t)
    (hfree : ∀ n ∈ nonce, ¬ s.Consumed n) :
    (giveUpLive plan wallet nonce error).wp (returned wallet.address).audit
      (fun _ t' => Sound t') t := by
  refine Prog.wp_bind_of (releaseHeldNonce_known nonce hk hfree) ?_ fun _ _ h => h.sound
  exact fun _ t₁ h₁ => aside_sound aside_giveUp h₁

/-- The transaction the fire has signed may be on its way: its nonce is given back only when
the endpoints report it as reverted. -/
theorem rescueLive_signed {signed : MintWorker.Signed} {nonce : ℕ} {error : Thrown}
    (hs : s.Signed signed nonce) (hk : s.Known t) :
    (rescueLive plan wallet mode (some signed.txHash) (some nonce) error).wp
      (returned wallet.address).audit (fun _ t' => Sound t') t := by
  have hown : nonce ∈ s.noncesOf signed.txHash := by
    rw [noncesOf, hs.own]
    simp [Option.filter]
  refine Prog.wp_bind_of (resolveTxOutcome_returned hs.accepted _ hk) ?_ ?_
  · rintro outcome t₁ ⟨_, ⟨⟩, h₁⟩
    cases outcome with
    | success =>
      have hknown : t₁.state.Known t₁ := ⟨h₁, rfl⟩
      have hmark : Aside (ignoreErrors (markMintPlanExecuted plan)) :=
        .bind aside_markMintPlanExecuted.attempt fun _ => .pure _
      exact aside_sound hmark hknown
    | unknown => exact aside_sound aside_releaseMintPlanToArmed h₁
    | reverted =>
      rcases h₁ with ⟨hnone, _⟩ | ⟨_, hadm, hconsumed⟩
      · rw [hnone] at hown
        exact absurd hown List.not_mem_nil
      · refine Prog.wp_bind_of (releaseHeldNonce_spoilt hadm (hconsumed nonce hown)) ?_ ?_
        · intro _ t₂ h₂
          exact Prog.wp_mono (spoilt_wp _ h₂) fun _ _ h => h.sound
        · exact fun _ _ h => h.sound
  · rintro e t₁ ⟨_, h, _⟩
    simp at h

/-- After the signature, or without one, the nonce has not been used. -/
theorem signLive_returned {key : String} {nonce gasEstimate : ℕ} {fees : FeeContext}
    (hs : s.Fresh) (hk : s.Known t) :
    (signLive tx key mode nonce gasEstimate fees).wp (returned address).audit
      (fun r t' => match r with
        | .ok signed => ∃ s', ReturnState.Signed s' signed nonce ∧ s'.Known t'
        | .error _ => ∃ s' : ReturnState, s'.Known t' ∧ ¬ s'.Consumed nonce) t := by
  obtain ⟨hadm, rfl⟩ := hk
  refine Prog.wp_bind.mpr (Prog.wp_tryCatch.mpr (Prog.wp_issue.mpr ⟨fun _ => trivial, fun x _ => ?_⟩))
  cases x with
  | error e => exact ⟨t.state, ⟨⟨hadm, trivial⟩, rfl⟩, hs.not_consumed nonce⟩
  | ok signed =>
    let s₁ : ReturnState := { t.state with own := some (signed, nonce) }
    have hfree : ¬ s₁.Consumed nonce := by
      rintro (hmined | ⟨hsent, _⟩)
      · exact hs.not_consumed nonce (Or.inl hmined)
      · exact Bool.false_ne_true (hs.sent.symm.trans hsent)
    have hsigned : s₁.Known ((returned address).audit.next t (.signManagedMintTransaction
        { tx, nonce, maxFeePerGasWei := fees.maxFeePerGasWei
          maxPriorityFeePerGasWei := fees.maxPriorityFeePerGasWei
          gas := gasEstimate * 120 / 100 } key) (.ok signed)) := ⟨⟨hadm, trivial⟩, rfl⟩
    refine Prog.wp_bind_of (aside_known (idle_holdForOpen mode.holdUntilMs).aside hsigned) ?_ ?_
    · exact fun _ t₂ h₂ => ⟨s₁, ⟨rfl, hs.accepted, hs.mined⟩, h₂⟩
    · exact fun _ t₂ h₂ => ⟨s₁, h₂, hfree⟩

theorem sendLive_returned {signed : MintWorker.Signed} {nonce : ℕ} (hs : s.Signed signed nonce)
    (hk : s.Known t) :
    (sendLive config plan rpcUrl mode signed).wp (returned address).audit
      (fun r t' => match r with
        | .ok _ => Accepted t'
        | .error _ => ∃ s', ReturnState.Signed s' signed nonce ∧ s'.Known t') t := by
  have hurls : Aside (liveUrls config rpcUrl mode) := idle_liveUrls.aside
  refine Prog.wp_bind_of (aside_known (aside_ask trivial) hk) ?_ fun _ _ h => ⟨s, hs, h⟩
  intro _ t₁ h₁
  refine Prog.wp_bind_of (aside_known hurls h₁) ?_ fun _ _ h => ⟨s, hs, h⟩
  intro urls t₂ h₂
  refine Prog.wp_mono (raceBroadcast_returned h₂ hs.accepted) fun r t₃ h₃ => ?_
  cases r with
  | ok txHash => exact h₃
  | error e =>
    refine ⟨{ s with sent := _ }, ?_, h₃⟩
    exact ⟨hs.own, hs.accepted, hs.mined⟩

theorem fireLive_returned {key : String} (hs : s.Fresh) (hk : s.Known t) :
    (fireLive config plan tx wallet key rpcUrl mode).wp (returned wallet.address).audit
      (fun _ t' => Sound t') t := by
  have hnone : ∀ {error : Thrown} {t' : Audit ReturnState}, s.Known t' →
      (rescueLive plan wallet mode none none error).wp (returned wallet.address).audit
        (fun _ t' => Sound t') t' :=
    fun hk' => giveUpLive_known hk' fun n hn => absurd hn (Option.not_mem_none n)
  refine Prog.wp_bind.mpr (Prog.wp_attempt.mpr (Prog.wp_mono (aside_known aside_prepareLive hk) ?_))
  intro r t₁ h₁
  rcases r with e | _ | ⟨gasEstimate, fees⟩
  · exact hnone h₁
  · exact h₁.sound
  · have hreserve : Aside (ask (.reserveNonce wallet.address fees.nonce)) := aside_ask trivial
    refine Prog.wp_bind.mpr (Prog.wp_attempt.mpr (Prog.wp_mono (aside_known hreserve h₁) ?_))
    intro r t₂ h₂
    rcases r with e | nonce
    · exact hnone h₂
    · refine Prog.wp_bind.mpr (Prog.wp_attempt.mpr (Prog.wp_mono (signLive_returned hs h₂) ?_))
      intro r t₃ h₃
      rcases r with e | signed
      · obtain ⟨s', hk', hfree⟩ := h₃
        refine giveUpLive_known hk' fun n hn => ?_
        obtain rfl := Option.mem_some_iff.mp hn
        exact hfree
      · obtain ⟨s', hsigned, hk'⟩ := h₃
        refine Prog.wp_bind.mpr (Prog.wp_attempt.mpr ?_)
        refine Prog.wp_mono (sendLive_returned hsigned hk') ?_
        intro r t₄ h₄
        rcases r with e | txHash
        · obtain ⟨s₄, hsigned₄, hk₄⟩ := h₄
          exact rescueLive_signed hsigned₄ hk₄
        · have hsettle : Retains (tryCatch (settleLive plan rpcUrl mode txHash) fun _ =>
              ignoreErrors (markMintPlanExecuted plan)) :=
            quiet_settleLive.retains.tryCatch fun _ =>
              (quiet_ignoreErrors quiet_markMintPlanExecuted).retains
          exact Prog.wp_mono (retains_accepted hsettle h₄) fun _ _ h => h.sound

/-! ### The fire -/

theorem runManagedFire_returned :
    (runManagedFire config plan tx wallet rpcUrl mode).wp (returned wallet.address).audit
      (fun _ t => t.kept → t.admitted) ⟨.start, True, True⟩ := by
  have hstart : Known .start ⟨.start, True, True⟩ := ⟨trivial, rfl⟩
  rw [runManagedFire]
  split
  · exact aside_sound (.bind (aside_ask trivial) fun _ => aside_failPlanAndNotify) hstart
  · next key _ =>
    refine Prog.wp_bind.mpr (Prog.wp_issue.mpr ⟨fun _ => trivial, fun x _ => ?_⟩)
    rcases x with e | fresh
    · exact fun _ => ⟨trivial, trivial⟩
    · have hfresh : ReturnState.Fresh { ReturnState.start with blob := fresh } := ⟨rfl, rfl, rfl, rfl⟩
      have hknown : Known { ReturnState.start with blob := fresh }
          ((returned wallet.address).audit.next ⟨.start, True, True⟩ (.selectPresigned plan.id)
            (.ok fresh)) := ⟨⟨trivial, trivial⟩, rfl⟩
      dsimp only
      split
      · next row rawTx hblob =>
        obtain ⟨hrow, _⟩ := of_blobToFire hblob
        refine Prog.wp_bind_of (fireFast_returned hfresh hrow hknown) ?_ fun _ _ h => h.1
        intro done t₁ h₁
        rcases done with _ | _
        · rcases h₁.2 rfl with hk | hspoilt
          · exact fireLive_returned hfresh hk
          · exact Prog.wp_mono (spoilt_wp _ hspoilt) fun _ _ h => h.sound
        · exact h₁.1
      · exact fireLive_returned hfresh hknown

/-- **Giving nonces back.**  In every run of a fire, whatever the endpoints answer and whatever
fails, no consumed nonce goes back to the allocator while no endpoint reports a transaction of
the fire as reverted before one has accepted a transaction; and a fire that has finished has
given no consumed nonce back exactly when none did. -/
theorem returned_iff (config : Config) (plan : Plan) (tx : Tx) (wallet : Wallet) (rpcUrl : String)
    (mode : FireMode) (tr : List (Event signature Thrown)) (en : Ending signature Thrown Unit)
    (hr : (runManagedFire config plan tx wallet rpcUrl mode).Runs tr en) :
    ((returned wallet.address).Admits .start tr → (returned wallet.address).Keeps .start tr en) ∧
      ∀ r, en = .finished r → ((returned wallet.address).Keeps .start tr en ↔
        (returned wallet.address).Admits .start tr) :=
  Prog.admits_iff_keeps runManagedFire_returned hr

end

/-- The sample environment with a stored blob at nonce 5, which the endpoints reject and of
which they report the given receipt; they report no fees. -/
def Sample.staleBlob (receipt : Option ReceiptStatus) : ℕ → (c : Cmd) → Except Thrown c.Resp
  | _, .selectPresigned _ => .ok (some blob)
  | _, .raceRawTransaction .. => .ok (.error [.error "nonce too low"])
  | _, .getTransactionReceipt .. => .ok receipt
  | _, .fetchFeeContext .. => .error (.error "timeout")
  | _, c => answer c

/-- A blob of which there is no receipt: its nonce is given back, and it is not consumed. -/
theorem returned_iff_staleBlob :
    (returned "0xab").Keeps .start
      ((runManagedFire Sample.config Sample.plan Sample.tx Sample.wallet "rpc"
        Sample.fire.mode).exec (Sample.staleBlob none) 0).1
      (.finished ((runManagedFire Sample.config Sample.plan Sample.tx Sample.wallet "rpc"
        Sample.fire.mode).exec (Sample.staleBlob none) 0).2) := by
  refine (returned_iff Sample.config Sample.plan Sample.tx Sample.wallet "rpc" Sample.fire.mode
    _ _ (Prog.exec_runs (Sample.staleBlob none) _ 0)).1 ?_
  refine Prog.exec_admits (fun s n c => ?_) _ 0 _
  cases c with
  | _ => exact trivial

instance decidableReturned (address : String) (s : ReturnState) (c : Cmd) :
    Decidable ((returned address).guard s c) := by
  induction c using Cmd.casesOn with
  | releaseNonce walletAddress nonce =>
    exact (inferInstance : Decidable (walletAddress = address ∧ ¬ s.Consumed nonce))
  | _ => exact isTrue trivial

/-- **A reverted transaction's nonce is given back.**  The blob was mined and has reverted; the
fire reads that, and gives the nonce it has used back to the allocator. -/
theorem reverted_returned :
    ∃ tr, (runManagedFire Sample.config Sample.plan Sample.tx Sample.wallet "rpc"
        Sample.fire.mode).Runs tr (.finished (.ok ())) ∧
      (returned "0xab").after .start tr = ⟨some Sample.blob, none, false, false, [5]⟩ ∧
      ¬ (returned "0xab").Keeps .start tr (.finished (.ok ()) : Ending signature Thrown Unit) := by
  have hr := Prog.exec_runs (Sample.staleBlob (some .reverted)) (runManagedFire Sample.config
    Sample.plan Sample.tx Sample.wallet "rpc" Sample.fire.mode) 0
  have hdone : ((runManagedFire Sample.config Sample.plan Sample.tx Sample.wallet "rpc"
      Sample.fire.mode).exec (Sample.staleBlob (some .reverted)) 0).2 = .ok () := rfl
  rw [hdone] at hr
  exact ⟨_, hr, by decide, by decide⟩

end MintWorker
