/-
The session key a fire signs with.

`sessionKeys` follows one pass of the fire path: the signer rows it has read, and the credential it
has opened.  It demands that a pass signs for an executor only with the session key of a row that
it has read as active.

* `runDelegatedFire_keys` — the fire of a chosen signer opens that signer's own credential;
* `firePass_keys` — the pass keeps to it, whatever it is answered.
-/
import HoodMint.PolicyPass
import HoodMint.SignerFrame

namespace MintWorker

open Effect

/-- The signers a pass has read; the credential it has opened, with its secret; and the signers
that had been revoked when the pass began. -/
structure KeysRead where
  rows : List Signer
  key : Option (String × String)
  revokedBefore : List String

/-- The row is an active executor's, and names the credential. -/
def Signer.Lends (s : Signer) (credentialId : String) : Prop :=
  s.status = .active ∧ s.scheme = .customExecutor ∧ s.sessionKeyCredentialId = some credentialId

/-- One pass and the session key it signs with. -/
def sessionKeys : Monitor signature Thrown KeysRead where
  guard t c :=
    match c with
    | .signExecutorTransaction _ sessionKeyHex =>
      ∃ s ∈ t.rows, ∃ credentialId, s.Lends credentialId ∧ t.key = some (credentialId, sessionKeyHex)
    | _ => True
  allowed _ _ _ := True
  next t c x :=
    match c, x with
    | .selectSigner _, .ok (some s) => { t with rows := s :: t.rows }
    | .getCredentialSecret id, .ok (some secret) => { t with key := some (id, secret) }
    | _, _ => t

section

variable {α : Type} {plan : Plan} {config : Config} {wallet : Wallet} {tx : Tx} {rpcUrl : String}
  {t : KeysRead} {P : KeysRead → Prop} {s : Signer}

/-- What reading a signer and opening a credential keep, every command but a signature keeps. -/
theorem keys_maintains {C : Cmd → Prop} (hC : ∀ tx key, ¬ C (.signExecutorTransaction tx key))
    (hrow : ∀ t s, P t → P { t with rows := s :: t.rows })
    (hkey : ∀ t key, P t → P { t with key := some key }) : sessionKeys.Maintains C P := by
  intro t c hc h
  cases c with
  | signExecutorTransaction tx key => exact absurd hc (hC tx key)
  | selectSigner id =>
    refine ⟨trivial, ?_⟩
    rintro (e | _ | s) _
    · exact h
    · exact h
    · exact hrow t s h
  | getCredentialSecret id =>
    refine ⟨trivial, ?_⟩
    rintro (e | _ | secret) _
    · exact h
    · exact h
    · exact hkey t _ h
  | _ => exact ⟨trivial, fun _ _ => h⟩

theorem clerical_keys {p : Worker α} (hp : Clerical p) :
    p.wp sessionKeys (fun _ _ => True) t :=
  hp.wp_of (keys_maintains (fun _ _ h => h) (fun _ _ _ => trivial) fun _ _ _ => trivial) trivial

/-- What is established of a result, whatever the state. -/
theorem endsIn_keys {p : Worker α} (hp : p.wp sessionKeys (fun _ _ => True) t) :
    p.wp sessionKeys (EndsIn (fun _ => True) fun _ => True) t := by
  refine Prog.wp_mono hp ?_
  rintro (e | a) _ _
  · trivial
  · trivial

/-! ### The stages -/

/-- The delegated signer of a choice is one that the pass has read as an active executor. -/
def ChosenFrom (choice : SignerChoice) (t : KeysRead) : Prop :=
  ∀ s ∈ choice.delegated, s ∈ t.rows ∧ s.status = .active ∧ s.scheme = .customExecutor

/-- The stages of a pass. -/
def keyStages : Stages KeysRead :=
  ⟨fun _ => True, fun _ _ => True, fun _ _ => True, ChosenFrom, fun _ => True, fun _ => True⟩

theorem resolveSigner_keys :
    (resolveSigner plan wallet).wp sessionKeys keyStages.Resolved t := by
  have hnone : ∀ t', ChosenFrom (signerChoice plan wallet none) t' := fun t' s hs =>
    absurd (delegated_signerChoice hs).1 (Option.not_mem_none _)
  rw [resolveSigner]
  split
  · exact hnone t
  · refine Prog.wp_bind.mpr (Prog.wp_issue.mpr ⟨trivial, ?_⟩)
    rintro (e | _ | row) _
    · trivial
    · exact hnone t
    · intro s hs
      obtain ⟨hrow, hactive, hscheme, _⟩ := delegated_signerChoice hs
      obtain rfl := Option.mem_some_iff.mp hrow
      exact ⟨List.mem_cons_self, hactive, hscheme⟩

theorem keys_passKeeps : PassKeeps sessionKeys config plan keyStages := by
  have hsteady : ∀ tx key, ¬ Cmd.Steady plan.id (.signExecutorTransaction tx key) := fun _ _ h => h
  have hany : sessionKeys.Maintains (Cmd.Steady plan.id) fun _ => True :=
    keys_maintains hsteady (fun _ _ _ => trivial) fun _ _ _ => trivial
  exact
    { begun := hany, loaded := fun _ => hany, failed := hany
      chosen := fun choice => keys_maintains hsteady
        (fun t row h s hs => ⟨List.mem_cons_of_mem row (h s hs).1, (h s hs).2⟩) fun _ _ h => h
      failed_of_begun := fun _ _ => trivial, failed_of_loaded := fun _ _ _ => trivial
      failed_of_gated := fun _ _ _ => trivial, failed_of_chosen := fun _ _ _ => trivial
      ended_of_failed := fun _ _ => trivial
      load := fun t _ => Prog.wp_mono (clerical_keys idle_loadPlan.quiet.clerical)
        fun r _ _ => by cases r <;> trivial
      resolve := fun _ _ _ => resolveSigner_keys
      release := fun _ _ => endsIn_keys (clerical_keys quiet_releaseMintPlanToArmed.clerical)
      fail := fun _ _ => endsIn_keys (clerical_keys quiet_failPlanAndNotify.clerical)
      prompt := fun _ _ _ _ _ _ => endsIn_keys (clerical_keys
        (.bind (clerical_ask trivial) fun _ => clerical_ask trivial)) }

/-! ### The signers on the server -/

/-- The wallet's own key is not a session key. -/
theorem runManagedFire_keys {mode : FireMode} :
    (runManagedFire config plan tx wallet rpcUrl mode).wp sessionKeys
      (EndsIn (fun _ => True) fun _ => True) t := by
  have hany : ∀ C : Cmd → Prop, (∀ tx key, ¬ C (.signExecutorTransaction tx key)) →
      sessionKeys.Maintains C fun _ => True := fun C hC =>
    keys_maintains hC (fun _ _ _ => trivial) fun _ _ _ => trivial
  have hkeeps : ServerKeeps sessionKeys plan tx none (fun _ => True) (fun _ => True)
      fun _ _ => True :=
    { works := hany _ fun _ _ h => h
      holds := fun _ => hany _ fun _ _ h => h
      works_of_holds := fun _ _ _ => trivial
      ends := fun _ _ => trivial
      release := fun _ _ => endsIn_keys (clerical_keys quiet_releaseMintPlanToArmed.clerical)
      blob := fun _ _ => Prog.wp_issue.mpr ⟨trivial, fun _ _ => ⟨trivial, fun _ _ _ _ => trivial⟩⟩
      sign := fun _ _ _ _ _ =>
        Prog.wp_issue.mpr ⟨trivial, fun _ _ => ⟨trivial, fun _ _ => trivial⟩⟩
      signDelegated := fun _ _ _ hsome => absurd hsome Bool.false_ne_true
      race := fun _ _ _ _ => Prog.wp_issue.mpr ⟨trivial, fun _ _ => trivial⟩
      broadcast := fun _ _ _ _ => Prog.wp_issue.mpr ⟨trivial, fun _ _ => trivial⟩ }
  exact hkeeps.runManagedFire trivial

/-- A signature is made with the secret of the credential that the chosen row names. -/
theorem fireDelegated_keys {executorAddress credentialId : String} (hs : s ∈ t.rows)
    (hlends : s.Lends credentialId) :
    (fireDelegated plan tx rpcUrl executorAddress credentialId).wp sessionKeys
      (fun _ _ => True) t := by
  refine Prog.wp_issue_bind trivial ?_ fun _ _ => trivial
  rintro (_ | sessionKeyHex) _
  · exact clerical_keys clerical_failed
  · refine Prog.wp_issue_bind trivial (fun operator _ => ?_) fun _ _ => trivial
    refine Prog.wp_issue_bind trivial ?_ fun _ _ => trivial
    rintro (revertReason | gasEstimate) _
    · exact clerical_keys (.bind (clerical_ask trivial) fun _ =>
        quiet_releaseMintPlanToArmed.clerical)
    · refine Prog.wp_issue_bind trivial (fun fees _ => ?_) fun _ _ => trivial
      refine Prog.wp_issue_bind ⟨s, hs, credentialId, hlends, rfl⟩ (fun signed _ => ?_)
        fun _ _ => trivial
      refine Prog.wp_issue_bind trivial (fun txHash _ => ?_) fun _ _ => trivial
      exact clerical_keys (.bind (clerical_ask trivial) fun _ =>
        .bind quiet_markMintPlanExecuted.clerical fun _ => clerical_ask trivial)

theorem runDelegatedFire_keys {signer : Option Signer}
    (hsigner : ∀ s ∈ signer, s ∈ t.rows ∧ s.status = .active ∧ s.scheme = .customExecutor) :
    (runDelegatedFire plan tx signer rpcUrl).wp sessionKeys (fun _ _ => True) t := by
  refine runDelegatedFire_cases (P := fun p => p.wp sessionKeys (fun _ _ => True) t) ?_ ?_
  · exact clerical_keys clerical_failed
  · intro row executorAddress credentialId hrow _ hcredential
    obtain ⟨hmem, hactive, hscheme⟩ := hsigner row hrow
    exact Prog.wp_tryCatch_of (R := fun _ _ => True)
      (fireDelegated_keys hmem ⟨hactive, hscheme, hcredential⟩) (fun _ _ _ => trivial)
      fun _ _ _ => clerical_keys quiet_rescueDelegated.clerical

/-! ### The pass -/

theorem firePlan_keys :
    (firePlan config plan).wp sessionKeys (EndsIn (fun _ => True) fun _ => True) t := by
  have hkeeps : PassKeeps sessionKeys config plan keyStages := keys_passKeeps
  refine hkeeps.firePlan (U := fun _ => True) (fun t₁ _ => ?_) ?_ trivial
  · exact Prog.wp_mono (clerical_keys idle_resolveBroadcastRpcUrls.quiet.clerical)
      fun _ _ _ => ⟨trivial, fun _ _ => trivial⟩
  · intro registryUrls rpcUrl nearFire pre project wallet t₁ _ _
    refine hkeeps.idempotencyGate (P := fun _ => True) (keys_maintains (fun _ _ h => h)
      (fun _ _ _ => trivial) fun _ _ _ => trivial) (fun _ _ => trivial)
      (fun _ _ => endsIn_keys (clerical_keys quiet_markMintPlanExecuted.clerical))
      (fun t₂ _ => ?_) trivial
    refine hkeeps.fireClaimed (fun fire tx t₃ _ _ hchosen => ?_) trivial
    rw [runServerFire]
    split
    · exact runManagedFire_keys
    · exact endsIn_keys (runDelegatedFire_keys hchosen)

/-- **The fire pass** signs with the session key of a row it has read as active, or with none. -/
theorem firePass_keys : (firePass config).wp sessionKeys (fun _ _ => True) t := by
  refine Prog.wp_bind_of (R := fun _ _ => True) ?_ (fun _ _ _ => trivial) fun _ _ _ => trivial
  refine Prog.wp_issue_bind trivial (fun now _ => ?_) fun _ _ => trivial
  refine Prog.wp_issue_bind trivial (fun expired _ => ?_) fun _ _ => trivial
  refine Prog.wp_issue_bind trivial ?_ fun _ _ => trivial
  rintro (_ | plan) _
  · trivial
  · exact Prog.wp_bind_of firePlan_keys (fun _ _ _ => trivial) fun _ _ _ => trivial

end

end MintWorker
