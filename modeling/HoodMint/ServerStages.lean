/-
The stages of a server-side fire.

Whatever a signer on the server does, it releases its plan to `armed` at the very end only:
between the claim and that statement it may sign, send, record, purge and end the plan, in
any order and with any failures.

* `Cmd.Working` — what a signer issues beside its signatures and sends; of the plans it
  touches its own only;
* `ServerKeeps` — what a monitor has to grant for a signer to keep to it.  A signer signs the
  transaction it is handed, and sends what it has signed or has read of its plan's blob;
* `ServerKeeps.runServerFire` — with that, both signers do.
-/
import HoodMint.PassStages

namespace MintWorker

open Effect

/-- Neither claims nor releases a plan nor prompts the owner, neither signs nor sends, and
touches no plan but its own. -/
def Cmd.Working (planId : String) : Cmd → Prop
  | .claimArmedMintPlan .. | .releaseMintPlanToArmed .. | .expireStaleMintPlans _
  | .selectLatestBroadcast _ | .armedManagedPlansForPresign _ | .underfundedRecheckAt _
  | .selectPresigned _ | .savePresignedTx .. | .signManagedMintTransaction ..
  | .signExecutorTransaction .. | .raceRawTransaction .. | .broadcastRawTransaction .. => False
  | .markMintPlanExecuted id | .failMintPlanExecution id | .clearPresignedTx id => id = planId
  | .recordExecutionAttempt id attempt => id = planId ∧ attempt.status ≠ .awaitingSignature
  | _ => True

/-- The program issues such commands only. -/
abbrev Working {α : Type} (plan : Plan) (p : Worker α) : Prop :=
  p.Only (S := signature) (Cmd.Working plan.id)

/-- What a monitor grants to a signer: `I` while it works, `K rawTx` while it may send the raw
transaction, and `J` when it has ended. -/
structure ServerKeeps {σ : Type} (M : Monitor signature Thrown σ) (plan : Plan) (tx : Tx)
    (signer : Option Signer) (I J : σ → Prop) (K : String → σ → Prop) : Prop where
  works : M.Maintains (Cmd.Working plan.id) I
  holds : ∀ rawTx, M.Maintains (Cmd.Working plan.id) (K rawTx)
  works_of_holds : ∀ rawTx s, K rawTx s → I s
  ends : ∀ s, I s → J s
  release : ∀ s, I s → (releaseMintPlanToArmed plan).wp M (EndsIn I J) s
  blob : ∀ s, I s → (ask (.selectPresigned plan.id)).wp M (fun r s' => I s' ∧
    ∀ row rawTx, r = .ok (some row) → row.presignedRawTx = some rawTx → K rawTx s') s
  sign : ∀ managed key s, managed.tx = tx → I s →
    (ask (.signManagedMintTransaction managed key)).wp M (fun r s' => I s' ∧
      ∀ signed, r = .ok signed → K signed.rawTx s') s
  signDelegated : ∀ executor key s, signer.isSome → executor.inner = tx → I s →
    (ask (.signExecutorTransaction executor key)).wp M (fun r s' => I s' ∧
      ∀ signed, r = .ok signed → K signed.rawTx s') s
  race : ∀ urls rawTx s, K rawTx s →
    (ask (.raceRawTransaction urls rawTx)).wp M (fun _ s' => I s') s
  broadcast : ∀ url rawTx s, K rawTx s →
    (ask (.broadcastRawTransaction url rawTx)).wp M (fun _ s' => I s') s

/-- The pre-signed path has ended the fire, or hands it on. -/
def FastEnd {σ : Type} (I J : σ → Prop) : Except Thrown Bool → σ → Prop
  | .ok true, s => J s
  | _, s => I s

/-- The live path has released the plan, or may sign. -/
def LiveReady {σ α : Type} (I J : σ → Prop) : Except Thrown (Option α) → σ → Prop
  | .ok none, s => J s
  | _, s => I s

section

variable {α β : Type} {p : Worker α} {plan : Plan} {config : Config} {tx : Tx} {wallet : Wallet}
  {mode : FireMode} {rpcUrl txHash : String}

/-! ### Working programs -/

theorem Cmd.Looks.working {c : Cmd} {planId : String} (h : c.Looks) : c.Working planId := by
  cases c <;> first | exact trivial | exact absurd h id

theorem Looks.working (h : Looks p) : Working plan p := h.mono fun _ hc => hc.working

theorem Idle.working (h : Idle p) : Working plan p := h.looks.working

theorem working_ask {c : Cmd} (h : c.Working plan.id) : Working plan (ask c) := Prog.Only.issue h

theorem working_record {attempt : Attempt} (h : attempt.status ≠ .awaitingSignature) :
    Working plan (record plan attempt) :=
  Prog.Only.issue ⟨rfl, h⟩

theorem working_markMintPlanExecuted : Working plan (markMintPlanExecuted plan) :=
  .bind (working_ask rfl) fun _ => .pure _

theorem working_clearPresignedTx : Working plan (clearPresignedTx plan) :=
  .bind (working_ask rfl) fun _ => .pure _

theorem working_failPlanAndNotify : Working plan (failPlanAndNotify plan) :=
  .bind (working_ask rfl) fun _ => working_ask trivial

theorem working_ignoreErrors {p : Worker Unit} (h : Working plan p) :
    Working plan (ignoreErrors p) :=
  .bind h.attempt fun _ => .pure _

theorem working_settleExecuted : Working plan (settleExecuted plan) :=
  .bind working_markMintPlanExecuted fun _ => working_ask trivial

theorem working_rescueFast : Working plan (rescueFast plan) :=
  .bind (working_ignoreErrors working_clearPresignedTx) fun _ =>
    working_ignoreErrors working_markMintPlanExecuted

theorem working_releaseHeldNonce : ∀ nonce, Working plan (releaseHeldNonce wallet nonce)
  | some _ => working_ask trivial
  | none => .pure _

/-! ### The paths -/

variable {σ : Type} {M : Monitor signature Thrown σ} {I J : σ → Prop} {K : String → σ → Prop}
  {s : σ} {signer : Option Signer}

/-- A program that ends the fire, as the last thing the pre-signed path does. -/
theorem wp_fastEnd {p : Worker Unit} (hp : p.wp M (EndsIn I J) s) :
    (do p; return true : Worker Bool).wp M (FastEnd I J) s :=
  Prog.wp_bind_of hp (fun _ _ hs => hs) fun _ _ hs => hs

/-- What may fail, with what is known of its result, and what follows in both cases. -/
theorem wp_attempt_of {R : Except Thrown α → σ → Prop} {f : Except Thrown α → Worker β}
    {Q : Except Thrown β → σ → Prop} (hp : p.wp M R s) (hf : ∀ r s', R r s' → (f r).wp M Q s') :
    (do f (← p.attempt)).wp M Q s :=
  Prog.wp_bind.mpr (Prog.wp_attempt.mpr (Prog.wp_mono hp hf))

namespace ServerKeeps

variable (h : ServerKeeps M plan tx signer I J K)
include h

theorem wp (hp : Working plan p) (hs : I s) : p.wp M (EndsIn I J) s := by
  refine Prog.wp_mono (hp.wp_of h.works hs) ?_
  rintro (e | a) s' hs'
  · exact hs'
  · exact h.ends s' hs'

/-- A working part, and the rest. -/
theorem wp_bind {f : α → Worker β} {Q : Except Thrown β → σ → Prop} (hp : Working plan p)
    (herr : ∀ e s', I s' → Q (.error e) s') (hf : ∀ a s', I s' → (f a).wp M Q s') (hs : I s) :
    (p >>= f).wp M Q s :=
  Prog.wp_bind_of (hp.wp_of h.works hs) hf herr

/-- A working part that may fail, and what follows in both cases. -/
theorem wp_attempt {f : Except Thrown α → Worker β} {Q : Except Thrown β → σ → Prop}
    (hp : Working plan p) (hf : ∀ r s', I s' → (f r).wp M Q s') (hs : I s) :
    (do f (← p.attempt)).wp M Q s := by
  exact wp_attempt_of (hp.wp_of h.works hs) hf

/-! ### Signing and sending -/

theorem signLive {key : String} {nonce gasEstimate : ℕ} {fees : FeeContext} (hs : I s) :
    (signLive tx key mode nonce gasEstimate fees).wp M
      (fun r s' => I s' ∧ ∀ signed, r = .ok signed → K signed.rawTx s') s := by
  have hsign : ∀ managed : ManagedTx, managed.tx = tx →
      (signWithManagedKeySealed managed key).wp M
        (fun r s' => I s' ∧ ∀ signed, r = .ok signed → K signed.rawTx s') s := by
    intro managed htx
    refine Prog.wp_tryCatch_of (h.sign managed key s htx hs) (fun _ _ hs' => hs') ?_
    exact fun _ s' hs' => ⟨hs'.1, nofun⟩
  refine Prog.wp_bind_of (hsign _ rfl) ?_ ?_
  · intro signed s₁ h₁
    have hhold := h.holds signed.rawTx
    refine Prog.wp_bind_of ((idle_holdForOpen _).working.wp_of hhold (h₁.2 signed rfl)) ?_ ?_
    · intro _ s₂ h₂
      refine ⟨h.works_of_holds _ s₂ h₂, ?_⟩
      rintro _ ⟨⟩
      exact h₂
    · exact fun _ s₂ h₂ => ⟨h.works_of_holds _ s₂ h₂, nofun⟩
  · exact fun _ s₁ h₁ => ⟨h₁.1, nofun⟩

theorem raceBroadcast {urls : List String} {rawTx : String} (hs : K rawTx s) :
    (raceBroadcast urls rawTx).wp M (fun _ s' => I s') s := by
  refine Prog.wp_bind_of (h.race urls rawTx s hs) ?_ fun _ _ hs' => hs'
  rintro (errors | txHash) s₁ h₁
  · exact h₁
  · exact h₁

theorem raceBlob {rawTx : String} (hs : K rawTx s) :
    (raceBlob config rpcUrl rawTx).wp M (fun _ s' => I s') s :=
  Prog.wp_bind_of (idle_resolveBroadcastRpcUrls.working.wp_of (h.holds rawTx) hs)
    (fun _ _ hs' => h.raceBroadcast hs') fun _ s' hs' => h.works_of_holds _ s' hs'

theorem sendLive {signed : Signed} (hs : K signed.rawTx s) :
    (sendLive config plan rpcUrl mode signed).wp M (fun _ s' => I s') s := by
  have hhold := h.holds signed.rawTx
  have hrecord : Working plan
      (record plan { status := .broadcast, txHash := some signed.txHash }) := working_record nofun
  refine Prog.wp_bind_of (hrecord.wp_of hhold hs) (fun _ s₁ h₁ => ?_)
    fun _ s' hs' => h.works_of_holds _ s' hs'
  exact Prog.wp_bind_of (idle_liveUrls.working.wp_of hhold h₁)
    (fun _ _ h₂ => h.raceBroadcast h₂) fun _ s' hs' => h.works_of_holds _ s' hs'

theorem sendDelegated {rawTx : String} (hs : K rawTx s) :
    (sendDelegated plan rpcUrl rawTx).wp M (EndsIn I J) s := by
  refine Prog.wp_bind_of (h.broadcast _ rawTx s hs) (fun txHash s₁ h₁ => ?_) fun _ _ hs' => hs'
  exact h.wp (.bind (working_record nofun) fun _ => .bind working_markMintPlanExecuted fun _ =>
    working_ask trivial) h₁

/-! ### After a send -/

theorem settleReverted {errorCode : String} (hs : I s) :
    (settleReverted plan errorCode).wp M (EndsIn I J) s := by
  refine h.wp_bind (working_record nofun) (fun _ _ hs' => hs') (fun _ s₁ h₁ => ?_) hs
  refine h.wp_bind (working_ask trivial) (fun _ _ hs' => hs') (fun reverts s₂ h₂ => ?_) h₁
  split
  · exact h.wp working_failPlanAndNotify h₂
  · exact h.release s₂ h₂

theorem settleFast (hs : I s) : (settleFast plan rpcUrl txHash).wp M (EndsIn I J) s := by
  refine h.wp_bind (working_record nofun) (fun _ _ hs' => hs') (fun _ s₁ h₁ => ?_) hs
  refine h.wp_bind working_clearPresignedTx (fun _ _ hs' => hs') (fun _ s₂ h₂ => ?_) h₁
  refine h.wp_bind looks_waitForMintReceipt.working (fun _ _ hs' => hs') (fun outcome s₃ h₃ => ?_) h₂
  cases outcome with
  | reverted => exact h.settleReverted h₃
  | success => exact h.wp working_settleExecuted h₃
  | unknown => exact h.wp working_settleExecuted h₃

theorem settleLive (hs : I s) : (settleLive plan rpcUrl mode txHash).wp M (EndsIn I J) s := by
  refine h.wp_bind looks_waitForMintReceipt.working (fun _ _ hs' => hs') (fun outcome s₁ h₁ => ?_) hs
  cases outcome with
  | reverted =>
    exact h.wp_bind (idle_revertCode _).working (fun _ _ hs' => hs')
      (fun _ s₂ h₂ => h.settleReverted h₂) h₁
  | success => exact h.wp working_settleExecuted h₁
  | unknown => exact h.wp working_settleExecuted h₁

theorem discardBlob {row : Presigned} {error : Thrown} (hs : I s) :
    (discardBlob plan wallet mode row error).wp M (FastEnd I J) s := by
  refine h.wp_bind working_clearPresignedTx (fun _ _ hs' => hs') (fun _ s₁ h₁ => ?_) hs
  split
  · refine h.wp_bind (working_record nofun) (fun _ _ hs' => hs') (fun _ s₂ h₂ => ?_) h₁
    split
    · exact wp_fastEnd (h.wp working_failPlanAndNotify h₂)
    · exact wp_fastEnd (h.release s₂ h₂)
  · refine h.wp_bind looks_presignedOutcome.working (fun _ _ hs' => hs') (fun outcome s₂ h₂ => ?_) h₁
    have hback : (do releaseHeldNonce wallet row.presignedNonce; return false : Worker Bool).wp M
        (FastEnd I J) s₂ :=
      h.wp_bind (working_releaseHeldNonce _) (fun _ _ hs' => hs') (fun _ _ hs' => hs') h₂
    cases outcome with
    | success =>
      refine h.wp_bind (working_record nofun) (fun _ _ hs' => hs') (fun _ s₃ h₃ => ?_) h₂
      exact wp_fastEnd (h.wp working_markMintPlanExecuted h₃)
    | reverted => exact hback
    | unknown => exact hback

theorem fireFast {row : Presigned} {rawTx : String} (hs : K rawTx s) :
    (fireFast config plan wallet rpcUrl mode row rawTx).wp M (FastEnd I J) s := by
  refine wp_attempt_of (h.raceBlob hs) ?_
  rintro (e | txHash) s₁ h₁
  · exact h.discardBlob h₁
  · refine wp_fastEnd (Prog.wp_tryCatch_of (h.settleFast h₁) (fun _ _ hs => hs) ?_)
    exact fun _ s₂ h₂ => h.wp working_rescueFast h₂

theorem prepareLive (hs : I s) :
    (prepareLive config plan tx wallet rpcUrl mode).wp M (LiveReady I J) s := by
  refine h.wp_attempt idle_simulateLive.working (fun sim s₁ h₁ => ?_) hs
  refine h.wp_attempt idle_feesLive.working (fun fees s₂ h₂ => ?_) h₁
  split
  · exact h₂
  · exact h₂
  · refine h.wp_bind (working_record nofun) (fun _ _ hs' => hs') (fun _ s₃ h₃ => ?_) h₂
    exact Prog.wp_bind_of (h.release s₃ h₃) (fun _ _ hs => hs) fun _ _ hs => hs
  · exact h₂

theorem giveUpLive {nonce : Option ℕ} {error : Thrown} (hs : I s) :
    (giveUpLive plan wallet nonce error).wp M (EndsIn I J) s := by
  refine h.wp_bind (working_releaseHeldNonce _) (fun _ _ hs' => hs') (fun _ s₁ h₁ => ?_) hs
  refine h.wp_bind (working_record nofun) (fun _ _ hs' => hs') (fun _ s₂ h₂ => ?_) h₁
  split
  · exact h.wp working_failPlanAndNotify h₂
  · exact h.release s₂ h₂

theorem rescueLive {signedTxHash : Option String} {nonce : Option ℕ} {error : Thrown} (hs : I s) :
    (rescueLive plan wallet mode signedTxHash nonce error).wp M (EndsIn I J) s := by
  rcases signedTxHash with _ | txHash
  · exact h.giveUpLive hs
  · refine h.wp_bind (looks_resolveTxOutcome _).working (fun _ _ hs' => hs')
      (fun outcome s₁ h₁ => ?_) hs
    cases outcome with
    | success => exact h.wp (working_ignoreErrors working_markMintPlanExecuted) h₁
    | reverted => exact h.giveUpLive h₁
    | unknown => exact h.release s₁ h₁

theorem fireLive {key : String} (hs : I s) :
    (fireLive config plan tx wallet key rpcUrl mode).wp M (EndsIn I J) s := by
  refine Prog.wp_bind.mpr (Prog.wp_attempt.mpr (Prog.wp_mono (h.prepareLive hs) ?_))
  rintro (e | _ | ⟨gasEstimate, fees⟩) s₁ h₁
  · exact h.rescueLive h₁
  · exact h₁
  · refine h.wp_attempt (working_ask trivial) ?_ h₁
    rintro (e | nonce) s₂ h₂
    · exact h.rescueLive h₂
    · refine wp_attempt_of (h.signLive h₂) ?_
      rintro (e | signed) s₃ ⟨h₃, hsigned⟩
      · exact h.rescueLive h₃
      · refine wp_attempt_of (h.sendLive (hsigned signed rfl)) ?_
        rintro (e | txHash) s₄ h₄
        · exact h.rescueLive h₄
        · refine Prog.wp_tryCatch_of (h.settleLive h₄) (fun _ _ hs => hs) ?_
          exact fun _ s₅ h₅ => h.wp (working_ignoreErrors working_markMintPlanExecuted) h₅

theorem runManagedFire (hs : I s) :
    (runManagedFire config plan tx wallet rpcUrl mode).wp M (EndsIn I J) s := by
  rw [MintWorker.runManagedFire]
  split
  · exact h.wp (.bind (working_record nofun) fun _ => working_failPlanAndNotify) hs
  · refine Prog.wp_bind_of (h.blob s hs) ?_ fun _ _ hs' => hs'.1
    rintro fresh s₁ ⟨h₁, hblob⟩
    split
    · next row rawTx hfire =>
      obtain ⟨rfl, hraw⟩ := of_blobToFire hfire
      refine Prog.wp_bind_of (h.fireFast (hblob _ rawTx rfl hraw)) ?_ fun _ _ hs' => hs'
      rintro (_ | _) s₂ h₂
      · exact h.fireLive h₂
      · exact h₂
    · exact h.fireLive h₁

theorem fireDelegated {executorAddress credentialId : String} (hsigner : signer.isSome)
    (hs : I s) :
    (fireDelegated plan tx rpcUrl executorAddress credentialId).wp M (EndsIn I J) s := by
  refine h.wp_bind (working_ask trivial) (fun _ _ hs' => hs') ?_ hs
  rintro (_ | sessionKeyHex) s₁ h₁
  · exact h.wp (.bind (working_record nofun) fun _ => working_failPlanAndNotify) h₁
  · refine h.wp_bind (working_ask trivial) (fun _ _ hs' => hs') (fun operator s₂ h₂ => ?_) h₁
    refine h.wp_bind (working_ask trivial) (fun _ _ hs' => hs') ?_ h₂
    rintro (revertReason | gasEstimate) s₃ h₃
    · exact h.wp_bind (working_record nofun) (fun _ _ hs' => hs') (fun _ s₄ h₄ => h.release s₄ h₄) h₃
    · refine h.wp_bind (working_ask trivial) (fun _ _ hs' => hs') (fun fees s₄ h₄ => ?_) h₃
      refine Prog.wp_bind_of (h.signDelegated _ _ s₄ hsigner rfl h₄) ?_ fun _ _ hs' => hs'.1
      exact fun signed s₅ h₅ => h.sendDelegated (h₅.2 signed rfl)

theorem runDelegatedFire (hs : I s) :
    (runDelegatedFire plan tx signer rpcUrl).wp M (EndsIn I J) s := by
  refine runDelegatedFire_cases (P := fun p => p.wp M (EndsIn I J) s) ?_ ?_
  · exact h.wp (.bind (working_record nofun) fun _ => working_failPlanAndNotify) hs
  · rintro row executorAddress credentialId rfl _ _
    refine Prog.wp_tryCatch_of (h.fireDelegated rfl hs) (fun _ _ hs => hs) fun e s₁ h₁ => ?_
    exact h.wp_bind (working_record nofun) (fun _ _ hs' => hs') (fun _ s₂ h₂ => h.release s₂ h₂) h₁

end ServerKeeps

/-- The server-side signer of a fire. -/
theorem ServerKeeps.runServerFire {fire : Fire}
    (h : ServerKeeps M plan tx fire.signer.delegated I J K) (hs : I s) :
    (runServerFire config plan fire tx).wp M (EndsIn I J) s := by
  rw [MintWorker.runServerFire]
  split
  · exact h.runManagedFire hs
  · exact h.runDelegatedFire hs

end

end MintWorker
