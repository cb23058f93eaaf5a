/-
No re-arming after an acceptance.

The monitor `noRearm` follows a pass and demands that, once an endpoint has returned a
hash for the plan's transaction, the plan is put back to `armed` only when the chain has
reported that transaction as reverted, or when the plan has left `executing` by then, so
that `releaseMintPlanToArmed` leaves it alone.  Any answer may be a failure; only the two
writes that follow an acceptance on the delegated path are held to a class of `Faults`.

* `neverRearms_iff` — the law holds in every pass if and only if neither of these two
  writes fails: the managed-key paths catch every later failure without re-arming;
* `delegated_rearms` — a delegated fire whose transaction was accepted, and whose plan is
  armed again because the hash could not be recorded.
-/
import HoodMint.SignerFrame

namespace MintWorker

open Effect

/-- The hash an endpoint has returned last, on which path, and whether its transaction
has reverted or the plan has left `executing` since. -/
structure RearmState where
  accepted : Option String
  delegated : Bool
  settled : Bool

/-- The plan may be put back to `armed`. -/
def RearmState.MayRearm (s : RearmState) : Prop := s.accepted = none ∨ s.settled = true

/-- Which writes may fail after an acceptance on the delegated path: the row of the
broadcast attempt, the plan's status. -/
structure Faults where
  record : Bool
  mark : Bool

/-- The plan is re-armed only before an acceptance, or after the accepted transaction has
reverted. -/
def noRearm (faults : Faults) : Monitor signature Thrown RearmState where
  guard s c :=
    match c with
    | .releaseMintPlanToArmed .. => s.MayRearm
    | _ => True
  allowed s c x :=
    match c, x with
    | .recordExecutionAttempt _ attempt, .error _ =>
      s.delegated = true → attempt.status = .broadcast → faults.record = true
    | .markMintPlanExecuted _, .error _ => s.delegated = true → faults.mark = true
    | _, _ => True
  next s c x :=
    match c, x with
    | .raceRawTransaction .., .ok (.ok txHash) => ⟨some txHash, false, false⟩
    | .broadcastRawTransaction .., .ok txHash => ⟨some txHash, true, false⟩
    | .getTransactionReceipt _ txHash, .ok (some .reverted) =>
      if s.accepted = some txHash then { s with settled := true } else s
    | .markMintPlanExecuted _, .ok _ => { s with settled := true }
    | .failMintPlanExecution _, .ok _ => { s with settled := true }
    | _, _ => s

/-- Every run of the pass, with failures of the given class, keeps to `noRearm`. -/
def NeverRearms (faults : Faults) (config : Config) : Prop :=
  ∀ tr en, (runMintExecutionPass config).Runs tr en →
    (noRearm faults).Admits ⟨none, false, false⟩ tr →
    (noRearm faults).Keeps ⟨none, false, false⟩ tr en

section

variable {faults : Faults} {config : Config} {plan : Plan} {fire : Fire} {tx : Tx}
  {wallet : Wallet} {mode : FireMode} {rpcUrl txHash : String} {α : Type} {s : RearmState}

/-! ### Before an acceptance -/

namespace RearmState

theorem MayRearm.next {c : Cmd} {x : Except Thrown c.Resp} (h : s.MayRearm) (hc : c.Silent) :
    ((noRearm faults).next s c x).MayRearm := by
  cases c with
  | raceRawTransaction => exact absurd hc id
  | broadcastRawTransaction => exact absurd hc id
  | getTransactionReceipt url txHash =>
    rcases x with e | _ | _ | _
    · exact h
    · exact h
    · exact h
    · simp only [noRearm]
      split
      · exact Or.inr rfl
      · exact h
  | markMintPlanExecuted =>
    rcases x with e | a
    · exact h
    · exact Or.inr rfl
  | failMintPlanExecution =>
    rcases x with e | a
    · exact h
    · exact Or.inr rfl
  | _ => exact h

theorem MayRearm.guard (h : s.MayRearm) (c : Cmd) : (noRearm faults).guard s c := by
  cases c <;> first | exact trivial | exact h

/-- Nothing is sent, and the plan may still be re-armed. -/
theorem MayRearm.wp {p : Worker α} (h : s.MayRearm) (hp : Silent p) :
    p.wp (noRearm faults) (fun _ s' => s'.MayRearm) s :=
  Prog.Only.wp hp (fun _ c _ h => h.guard c) (fun _ _ _ hc h _ => h.next hc) h

end RearmState

theorem noRearm_quietKeeps (faults : Faults) : QuietKeeps (noRearm faults) RearmState.MayRearm fun _ => True where
  guard _ c _ h := h.guard c
  next _ _ _ hc h _ := h.next hc.silent
  ends _ _ := trivial

/-- A race is refused by all endpoints, or accepted by one. -/
theorem raceBroadcast_noRearm {urls : List String} {rawTx : String} (h : s.MayRearm) :
    (raceBroadcast urls rawTx).wp (noRearm faults)
      (fun r s' => match r with
        | .ok txHash => s'.accepted = some txHash
        | .error _ => s'.MayRearm) s := by
  refine Prog.wp_bind.mpr (Prog.wp_issue.mpr ⟨trivial, fun x _ => ?_⟩)
  rcases x with e | errors | txHash
  · exact h
  · exact h
  · exact rfl

/-! ### After an acceptance on the managed-key path -/

/-- The command neither sends nor re-arms. -/
def Cmd.Settles : Cmd → Prop
  | .raceRawTransaction .. | .broadcastRawTransaction .. | .releaseMintPlanToArmed .. => False
  | _ => True

abbrev Settling (p : Worker α) : Prop := p.Only (S := signature) Cmd.Settles

theorem settling_ask {c : Cmd} (h : c.Settles) : Settling (ask c) := Prog.Only.issue h

theorem settling_markMintPlanExecuted : Settling (markMintPlanExecuted plan) :=
  .bind (settling_ask trivial) fun _ => .pure _

theorem settling_clearPresignedTx : Settling (clearPresignedTx plan) :=
  .bind (settling_ask trivial) fun _ => .pure _

theorem settling_settleExecuted : Settling (settleExecuted plan) :=
  .bind settling_markMintPlanExecuted fun _ => settling_ask trivial

/-- A program that neither sends nor re-arms may run at any time, and the accepted hash
stays. -/
theorem settling_wp {p : Worker α} (hp : Settling p) :
    p.wp (noRearm faults) (fun _ s' => s'.accepted = s.accepted) s := by
  refine Prog.Only.wp (I := fun s' : RearmState => s'.accepted = s.accepted) hp ?_ ?_ rfl
  · rintro s' c hc _
    cases c <;> first | exact trivial | exact absurd hc id
  · rintro s' c x hc h _
    cases c with
    | raceRawTransaction => exact absurd hc id
    | broadcastRawTransaction => exact absurd hc id
    | getTransactionReceipt url txHash =>
      rcases x with e | _ | _ | _
      · exact h
      · exact h
      · exact h
      · simp only [noRearm]
        split
        · exact h
        · exact h
    | markMintPlanExecuted => rcases x with e | a <;> exact h
    | failMintPlanExecution => rcases x with e | a <;> exact h
    | _ => exact h

/-- What is caught neither fails nor re-arms. -/
theorem ignoreErrors_noRearm {p : Worker Unit} (hp : Settling p) :
    (ignoreErrors p).wp (noRearm faults) (fun r _ => r = .ok ()) s :=
  Prog.wp_bind.mpr (Prog.wp_attempt.mpr (Prog.wp_mono (settling_wp hp) fun _ _ _ => rfl))

/-- A receipt that is reported reverted settles the accepted transaction. -/
theorem pollMintReceipt_noRearm {deadline : ℤ} (polls : ℕ) (h : s.accepted = some txHash) :
    (pollMintReceipt rpcUrl txHash deadline polls).wp (noRearm faults)
      (fun r s' => r = .ok .reverted → s'.MayRearm) s := by
  induction polls generalizing s with
  | zero => exact fun hr => nomatch hr
  | succ polls ih =>
    have hwait : (do
        let nowMs ← ask .now
        if nowMs ≥ deadline then return .unknown
        ask (.sleep receiptPollMs)
        pollMintReceipt rpcUrl txHash deadline polls : Worker ReceiptOutcome).wp (noRearm faults)
          (fun r s' => r = .ok .reverted → s'.MayRearm) s := by
      refine Prog.wp_bind.mpr (Prog.wp_issue.mpr ⟨trivial, fun x _ => ?_⟩)
      rcases x with e | nowMs
      · exact fun hr => nomatch hr
      · dsimp only
        split
        · exact fun hr => nomatch hr
        · refine Prog.wp_bind.mpr (Prog.wp_issue.mpr ⟨trivial, fun x _ => ?_⟩)
          rcases x with e | _
          · exact fun hr => nomatch hr
          · exact ih h
    refine Prog.wp_bind.mpr (Prog.wp_attempt.mpr (Prog.wp_issue.mpr ⟨trivial, fun x _ => ?_⟩))
    rcases x with e | _ | _ | _
    · exact hwait
    · exact hwait
    · exact fun hr => nomatch hr
    · intro _
      simp only [noRearm]
      rw [if_pos h]
      exact Or.inr rfl

theorem waitForMintReceipt_noRearm (h : s.accepted = some txHash) :
    (waitForMintReceipt rpcUrl txHash).wp (noRearm faults)
      (fun r s' => r = .ok .reverted → s'.MayRearm) s := by
  refine Prog.wp_bind.mpr (Prog.wp_issue.mpr ⟨trivial, fun x _ => ?_⟩)
  rcases x with e | nowMs
  · exact fun hr => nomatch hr
  · exact pollMintReceipt_noRearm _ h

theorem settleFast_noRearm (h : s.accepted = some txHash) :
    (settleFast plan rpcUrl txHash).wp (noRearm faults) (fun _ _ => True) s := by
  refine Prog.wp_bind_of (settling_wp (settling_ask trivial)) ?_ fun _ _ _ => trivial
  intro _ s₁ h₁
  refine Prog.wp_bind_of (settling_wp settling_clearPresignedTx) ?_ fun _ _ _ => trivial
  intro _ s₂ h₂
  refine Prog.wp_bind_of (waitForMintReceipt_noRearm (h₂.trans (h₁.trans h))) ?_
    fun _ _ _ => trivial
  intro outcome s₃ h₃
  cases outcome with
  | reverted => exact Prog.wp_mono ((h₃ rfl).wp quiet_settleReverted.silent) fun _ _ _ => trivial
  | success => exact Prog.wp_mono (settling_wp settling_settleExecuted) fun _ _ _ => trivial
  | unknown => exact Prog.wp_mono (settling_wp settling_settleExecuted) fun _ _ _ => trivial

theorem settleLive_noRearm (h : s.accepted = some txHash) :
    (settleLive plan rpcUrl mode txHash).wp (noRearm faults) (fun _ _ => True) s := by
  refine Prog.wp_bind_of (waitForMintReceipt_noRearm h) ?_ fun _ _ _ => trivial
  intro outcome s₁ h₁
  cases outcome with
  | reverted =>
    have hs : Quiet (do
        let errorCode ← revertCode mode.onChainStartMs
        settleReverted plan errorCode) := .bind (idle_revertCode _).quiet fun _ => quiet_settleReverted
    exact Prog.wp_mono ((h₁ rfl).wp hs.silent) fun _ _ _ => trivial
  | success => exact Prog.wp_mono (settling_wp settling_settleExecuted) fun _ _ _ => trivial
  | unknown => exact Prog.wp_mono (settling_wp settling_settleExecuted) fun _ _ _ => trivial

/-! ### The paths -/

/-- The pre-signed path: it ends the fire, or hands the plan on unaccepted. -/
theorem fireFast_noRearm {row : Presigned} {rawTx : String} (h : s.MayRearm) :
    (fireFast config plan wallet rpcUrl mode row rawTx).wp (noRearm faults)
      (fun r s' => r = .ok true ∨ s'.MayRearm) s := by
  have hrace : (raceBlob config rpcUrl rawTx).wp (noRearm faults)
      (fun r s' => match r with
        | .ok txHash => s'.accepted = some txHash
        | .error _ => s'.MayRearm) s := by
    refine Prog.wp_bind_of (h.wp idle_resolveBroadcastRpcUrls.quiet.silent) ?_
      fun _ _ h => h
    intro urls s₁ h₁
    exact raceBroadcast_noRearm h₁
  refine Prog.wp_bind.mpr (Prog.wp_attempt.mpr (Prog.wp_mono hrace ?_))
  rintro (e | txHash) s₁ h₁
  · exact Prog.wp_mono (h₁.wp clerical_discardBlob.silent) fun _ _ h => Or.inr h
  · have hrescue : ∀ s', (rescueFast plan).wp (noRearm faults) (fun r _ => r = .ok ()) s' :=
      fun s' => Prog.wp_bind_of (ignoreErrors_noRearm settling_clearPresignedTx)
        (fun _ _ _ => ignoreErrors_noRearm settling_markMintPlanExecuted) fun _ _ h => nomatch h
    have hsettle : (tryCatch (settleFast plan rpcUrl txHash) fun _ => rescueFast plan).wp
        (noRearm faults) (fun r _ => r = .ok ()) s₁ :=
      Prog.wp_tryCatch_of (settleFast_noRearm h₁) (fun _ _ _ => rfl) fun _ s' _ => hrescue s'
    exact Prog.wp_bind_of hsettle (fun _ _ _ => Or.inl rfl) fun _ _ h => nomatch h

/-- The live path ends the fire, or gives up before an acceptance. -/
theorem fireLive_noRearm {key : String} (h : s.MayRearm) :
    (fireLive config plan tx wallet key rpcUrl mode).wp (noRearm faults)
      (EndsIn RearmState.MayRearm fun _ => True) s := by
  have hrescue : ∀ {hash nonce e s'}, RearmState.MayRearm s' →
      (rescueLive plan wallet mode hash nonce e).wp (noRearm faults)
        (EndsIn RearmState.MayRearm fun _ => True) s' :=
    fun h => Prog.wp_mono (h.wp clerical_rescueLive.silent)
      fun r _ h => (noRearm_quietKeeps faults).endsIn r h
  refine Prog.wp_bind_of (h.wp quiet_prepareLive.silent.attempt) ?_ fun _ _ h => h
  rintro (e | _ | ⟨gasEstimate, fees⟩) s₁ h₁
  · exact hrescue h₁
  · trivial
  · refine Prog.wp_bind_of (h₁.wp
      (silent_ask (c := .reserveNonce wallet.address fees.nonce) trivial).attempt) ?_
      fun _ _ h => h
    rintro (e | nonce) s₂ h₂
    · exact hrescue h₂
    · refine Prog.wp_bind_of (h₂.wp silent_signLive.attempt) ?_ fun _ _ h => h
      rintro (e | signed) s₃ h₃
      · exact hrescue h₃
      · have hsend : (sendLive config plan rpcUrl mode signed).wp (noRearm faults)
            (fun r s' => match r with
              | .ok txHash => s'.accepted = some txHash
              | .error _ => s'.MayRearm) s₃ := by
          refine Prog.wp_bind_of (h₃.wp (silent_ask trivial)) ?_ fun _ _ h => h
          intro _ s₄ h₄
          refine Prog.wp_bind_of (h₄.wp idle_liveUrls.quiet.silent) ?_ fun _ _ h => h
          intro urls s₅ h₅
          exact raceBroadcast_noRearm h₅
        refine Prog.wp_bind.mpr (Prog.wp_attempt.mpr (Prog.wp_mono hsend ?_))
        rintro (e | txHash) s₄ h₄
        · exact hrescue h₄
        · refine Prog.wp_tryCatch_of (settleLive_noRearm h₄) (fun _ _ _ => trivial) ?_
          intro e s₅ _
          refine Prog.wp_mono (ignoreErrors_noRearm settling_markMintPlanExecuted) ?_
          rintro _ s₆ rfl
          trivial

/-- The managed-key path. -/
theorem runManagedFire_noRearm (h : s.MayRearm) :
    (runManagedFire config plan tx wallet rpcUrl mode).wp (noRearm faults)
      (EndsIn RearmState.MayRearm fun _ => True) s := by
  rw [runManagedFire]
  cases wallet.encryptedSigningKey with
  | none =>
    exact (noRearm_quietKeeps faults).wp_endsIn
      (.bind (quiet_record nofun) fun _ => quiet_failPlanAndNotify) h
  | some key =>
    refine Prog.wp_bind_of (h.wp (silent_ask trivial)) ?_ fun _ _ h => h
    intro fresh s₁ h₁
    cases blobToFire mode fresh with
    | none => exact fireLive_noRearm h₁
    | some blob =>
      refine Prog.wp_bind_of (fireFast_noRearm h₁) ?_ fun _ _ h => h.resolve_left nofun
      rintro (_ | _) s₂ h₂
      · exact fireLive_noRearm (h₂.resolve_left nofun)
      · trivial

/-- The delegated path from the send on, when neither of the two writes fails. -/
theorem sendDelegated_noRearm {rawTx : String} (hrecord : faults.record = false)
    (hmark : faults.mark = false) (h : s.MayRearm) :
    (sendDelegated plan rpcUrl rawTx).wp (noRearm faults) (fun _ s' => s'.MayRearm) s := by
  refine Prog.wp_bind.mpr (Prog.wp_issue.mpr ⟨trivial, fun x _ => ?_⟩)
  rcases x with e | txHash
  · exact h
  · refine Prog.wp_bind.mpr (Prog.wp_issue.mpr ⟨trivial, fun x hx => ?_⟩)
    rcases x with e | _
    · exact absurd (hrecord.symm.trans (hx rfl rfl)) Bool.noConfusion
    · refine Prog.wp_bind.mpr (Prog.wp_bind.mpr (Prog.wp_issue.mpr ⟨trivial, fun x hx => ?_⟩))
      rcases x with e | marked
      · exact absurd (hmark.symm.trans (hx rfl)) Bool.noConfusion
      · exact RearmState.MayRearm.wp (Or.inr rfl) (silent_ask trivial)

theorem runDelegatedFire_noRearm {signer : Option Signer} (hrecord : faults.record = false)
    (hmark : faults.mark = false) (h : s.MayRearm) :
    (runDelegatedFire plan tx signer rpcUrl).wp (noRearm faults) (fun _ s' => s'.MayRearm) s := by
  refine runDelegatedFire_cases
    (P := fun p => p.wp (noRearm faults) (fun _ s' => s'.MayRearm) s) ?_ ?_
  · exact h.wp clerical_failed.silent
  · intro row executorAddress credentialId _ _ _
    refine Prog.wp_tryCatch_of (R := fun _ s' => s'.MayRearm) ?_ (fun _ _ h => h)
      fun _ _ h => h.wp quiet_rescueDelegated.silent
    refine Prog.wp_bind_of (h.wp (silent_ask trivial)) ?_ fun _ _ h => h
    rintro (_ | sessionKeyHex) s₁ h₁
    · exact h₁.wp (.bind (silent_ask trivial) fun _ => quiet_failPlanAndNotify.silent)
    · refine Prog.wp_bind_of (h₁.wp (silent_ask trivial)) ?_ fun _ _ h => h
      intro operator s₂ h₂
      refine Prog.wp_bind_of (h₂.wp (silent_ask trivial)) ?_ fun _ _ h => h
      rintro (revertReason | gasEstimate) s₃ h₃
      · exact h₃.wp (.bind (silent_ask trivial) fun _ => quiet_releaseMintPlanToArmed.silent)
      · refine Prog.wp_bind_of (h₃.wp (silent_ask trivial)) ?_ fun _ _ h => h
        intro fees s₄ h₄
        refine Prog.wp_bind_of (h₄.wp (silent_ask trivial)) ?_ fun _ _ h => h
        intro signed s₅ h₅
        exact sendDelegated_noRearm hrecord hmark h₅

theorem runServerFire_noRearm (hrecord : faults.record = false) (hmark : faults.mark = false)
    (h : s.MayRearm) :
    (runServerFire config plan fire tx).wp (noRearm faults)
      (EndsIn RearmState.MayRearm fun _ => True) s := by
  rw [runServerFire]
  split
  · exact runManagedFire_noRearm h
  · exact Prog.wp_mono (runDelegatedFire_noRearm hrecord hmark h)
      fun r _ h => (noRearm_quietKeeps faults).endsIn r h

/-- The idempotency gate ends the pass before anything is sent, or lets it go on. -/
theorem idempotencyGate_noRearm {fireUrls : List String} {rest : Worker String}
    (hrest : ∀ s', RearmState.MayRearm s' →
      rest.wp (noRearm faults) (EndsIn RearmState.MayRearm fun _ => True) s')
    (h : s.MayRearm) :
    (idempotencyGate plan fireUrls rest).wp (noRearm faults)
      (EndsIn RearmState.MayRearm fun _ => True) s := by
  have hlatest : Silent (latestBroadcastAttempt plan) := by
    refine .bind (silent_ask trivial) fun row => ?_
    split
    · exact .pure _
    · exact .pure _
  refine Prog.wp_bind_of (h.wp hlatest) ?_ fun _ _ h => h
  rintro (_ | ⟨txHash, attemptAt⟩) s₁ h₁
  · exact hrest s₁ h₁
  · refine Prog.wp_bind_of (h₁.wp (looks_resolveTxOutcome _).quiet.silent) ?_ fun _ _ h => h
    intro outcome s₂ h₂
    cases outcome with
    | success =>
      exact (noRearm_quietKeeps faults).wp_endsIn (.bind quiet_markMintPlanExecuted fun _ => .pure _) h₂
    | reverted => exact hrest s₂ h₂
    | unknown =>
      refine Prog.wp_bind_of (h₂.wp (silent_ask trivial)) ?_ fun _ _ h => h
      intro nowMs s₃ h₃
      split
      · exact (noRearm_quietKeeps faults).wp_endsIn (.bind quiet_releaseMintPlanToArmed fun _ => .pure _) h₃
      · exact hrest s₃ h₃

/-- Every pass keeps to the monitor when neither of the two writes fails. -/
theorem neverRearms_of_noFaults (hrecord : faults.record = false) (hmark : faults.mark = false) :
    NeverRearms faults config := by
  intro tr en hr ha
  suffices hw : (runMintExecutionPass config).wp (noRearm faults)
      (EndsIn RearmState.MayRearm fun _ => True) ⟨none, false, false⟩ from
    (Prog.sound hw hr ha).1
  refine (noRearm_quietKeeps faults).runMintExecutionPass (P := fun _ => True)
    (fun _ _ _ _ _ _ _ => trivial) ?_ (Or.inl rfl)
  intro plan s₁ _ h₁
  refine (noRearm_quietKeeps faults).firePlan (U := fun _ => True) (fun s' h' => ?_) ?_ h₁
  · exact Prog.wp_mono (h'.wp idle_resolveBroadcastRpcUrls.quiet.silent)
      fun _ _ h => ⟨h, fun _ _ => trivial⟩
  · intro registryUrls rpcUrl nearFire pre project wallet s' _ h'
    refine idempotencyGate_noRearm (fun s'' h'' => ?_) h'
    exact (noRearm_quietKeeps faults).fireClaimed
      (fun fire tx s' h' => runServerFire_noRearm hrecord hmark h') h''

end

/-! ### A failing write -/

/-- A delegated fire whose transaction is accepted; then either the hash cannot be
recorded, or the plan cannot be marked executed. -/
def Sample.writeFails (recording : Bool) : ℕ → (c : Cmd) → Except Thrown c.Resp
  | _, .claimArmedMintPlan .. => .ok (some { Sample.plan with signerId := some "s" })
  | _, .recordExecutionAttempt _ attempt =>
    if recording ∧ attempt.status = .broadcast then .error (.error "connection lost") else .ok ()
  | _, .markMintPlanExecuted _ =>
    if recording then .ok true else .error (.error "connection lost")
  | _, c => answer c

instance (s : RearmState) : Decidable s.MayRearm := inferInstanceAs (Decidable (_ ∨ _))

instance (faults : Faults) (s : RearmState) (c : Cmd) : Decidable ((noRearm faults).guard s c) := by
  induction c using Cmd.casesOn <;>
    first | exact isTrue trivial | exact inferInstanceAs (Decidable (_ ∨ _))

/-- The sample's failing write is one of the class. -/
theorem writeFails_allowed {faults : Faults} {recording : Bool}
    (h : (if recording then faults.record else faults.mark) = true) (s : RearmState) (n : ℕ)
    (c : Cmd) : (noRearm faults).allowed s c (Sample.writeFails recording n c) := by
  cases c with
  | recordExecutionAttempt planId attempt =>
    show (noRearm faults).allowed s _ (ite _ _ _)
    split
    · next hf =>
      rw [if_pos hf.1] at h
      exact fun _ _ => h
    · trivial
  | markMintPlanExecuted planId =>
    show (noRearm faults).allowed s _ (ite _ _ _)
    split
    · trivial
    · next hf =>
      rw [if_neg hf] at h
      exact fun _ => h
  | _ => trivial

/-- **No re-arming after an acceptance.**  Whatever fails otherwise, no pass puts a plan
back to `armed` after an endpoint has returned its transaction's hash, the chain not
having reported that transaction as reverted, if and only if, on the delegated path,
neither the row of the broadcast nor the plan's status fails to be written. -/
theorem neverRearms_iff (faults : Faults) :
    (∀ config, NeverRearms faults config) ↔ faults.record = false ∧ faults.mark = false := by
  constructor
  · intro h
    by_contra hne
    obtain ⟨recording, hfault⟩ :
        ∃ recording : Bool, (if recording then faults.record else faults.mark) = true := by
      rcases Bool.eq_false_or_eq_true faults.record with hr | hr
      · exact ⟨true, hr⟩
      · rcases Bool.eq_false_or_eq_true faults.mark with hm | hm
        · exact ⟨false, hm⟩
        · exact absurd ⟨hr, hm⟩ hne
    have hkeeps := h Sample.config _ _ (Prog.exec_runs (Sample.writeFails recording) _ 0)
      (Prog.exec_admits (writeFails_allowed hfault) _ 0 _)
    have hbreaks : ∀ recording record mark, ¬ (noRearm ⟨record, mark⟩).Keeps ⟨none, false, false⟩
        ((runMintExecutionPass Sample.config).exec (Sample.writeFails recording) 0).1
        (.finished ((runMintExecutionPass Sample.config).exec (Sample.writeFails recording) 0).2) := by
      decide
    exact hbreaks recording faults.record faults.mark hkeeps
  · rintro ⟨hrecord, hmark⟩ config
    exact neverRearms_of_noFaults hrecord hmark

/-- **The delegated path re-arms.**  An endpoint has accepted the transaction; the hash
cannot be recorded, and the pass ends with the plan armed and nothing recorded of it. -/
theorem delegated_rearms :
    ∃ tr, (runMintExecutionPass Sample.config).Runs tr
        (.finished (.ok ⟨0, true, some "ready_for_delegated_signature", some "p"⟩)) ∧
      ((noRearm ⟨true, false⟩).after ⟨none, false, false⟩ tr).accepted = some "hash" ∧
      ¬ (noRearm ⟨true, false⟩).Keeps ⟨none, false, false⟩ tr
        (.finished (.ok ⟨0, true, some "ready_for_delegated_signature", some "p"⟩) :
          Ending signature Thrown MintExecutionSummary) := by
  have hr := Prog.exec_runs (Sample.writeFails true) (runMintExecutionPass Sample.config) 0
  have hdone : ((runMintExecutionPass Sample.config).exec (Sample.writeFails true) 0).2 =
      .ok ⟨0, true, some "ready_for_delegated_signature", some "p"⟩ := rfl
  rw [hdone] at hr
  exact ⟨_, hr, by decide, by decide⟩

end MintWorker
