/-
The parts of the server-side signers.

Most of `runManagedFire` and `runDelegatedFire` is made of `Quiet` commands.  What settles
a fire may also record a broadcast and give a nonce back: it is `Clerical`.  Only the two
sends hand a transaction to an endpoint: everything else is `Silent`.  The delegated path
has no race and no wallet key: it is `Delegated`.
-/
import HoodMint.PassFrame

namespace MintWorker

open Effect

/-- Neither takes a nonce or a blob, nor signs, nor sends. -/
def Cmd.Clerical : Cmd → Prop
  | .reserveNonce .. | .selectPresigned _ | .broadcastRawTransaction .. | .raceRawTransaction ..
  | .signManagedMintTransaction .. | .signExecutorTransaction .. => False
  | _ => True

/-- Hands nothing to an endpoint. -/
def Cmd.Silent : Cmd → Prop
  | .raceRawTransaction .. | .broadcastRawTransaction .. => False
  | _ => True

/-- Neither races, nor builds, nor has to do with a wallet's key, nonces or blobs. -/
def Cmd.Delegated : Cmd → Prop
  | .raceRawTransaction .. | .signManagedMintTransaction .. | .selectPresigned _
  | .reserveNonce .. | .releaseNonce .. | .buildSelfServedPublicMint ..
  | .buildOpenSeaMintTx _ | .burstBuildOpenSeaMintTx .. => False
  | _ => True

section

variable {α : Type} {p : Worker α}

abbrev Clerical (p : Worker α) : Prop := p.Only (S := signature) Cmd.Clerical

abbrev Silent (p : Worker α) : Prop := p.Only (S := signature) Cmd.Silent

theorem Cmd.Quiet.silent {c : Cmd} (h : c.Quiet) : c.Silent := by
  cases c <;> first | exact trivial | exact h

theorem clerical_ask {c : Cmd} (h : c.Clerical) : Clerical (ask c) := Prog.Only.issue h

theorem silent_ask {c : Cmd} (h : c.Silent) : Silent (ask c) := Prog.Only.issue h

theorem Quiet.clerical (h : Quiet p) : Clerical p :=
  h.mono fun c hc => by cases c <;> first | exact trivial | exact hc

theorem Quiet.silent (h : Quiet p) : Silent p := h.mono fun _ hc => hc.silent

theorem Clerical.silent (h : Clerical p) : Silent p :=
  h.mono fun c hc => by cases c <;> first | exact trivial | exact hc

end

section

variable {config : Config} {plan : Plan} {tx : Tx} {wallet : Wallet} {mode : FireMode}
  {rpcUrl txHash : String}

/-! ### After the chain has answered -/

theorem quiet_settleReverted {errorCode : String} : Quiet (settleReverted plan errorCode) := by
  refine .bind (quiet_record nofun) fun _ => .bind (quiet_ask trivial) fun reverts => ?_
  split
  · exact quiet_failPlanAndNotify
  · exact quiet_releaseMintPlanToArmed

theorem quiet_settleExecuted : Quiet (settleExecuted plan) :=
  .bind quiet_markMintPlanExecuted fun _ => quiet_ask trivial

theorem clerical_settleFast : Clerical (settleFast plan rpcUrl txHash) := by
  refine .bind (clerical_ask trivial) fun _ => .bind quiet_clearPresignedTx.clerical
    fun _ => .bind looks_waitForMintReceipt.quiet.clerical fun outcome => ?_
  cases outcome with
  | reverted => exact quiet_settleReverted.clerical
  | success => exact quiet_settleExecuted.clerical
  | unknown => exact quiet_settleExecuted.clerical

theorem quiet_rescueFast : Quiet (rescueFast plan) :=
  .bind (quiet_ignoreErrors quiet_clearPresignedTx) fun _ =>
    quiet_ignoreErrors quiet_markMintPlanExecuted

theorem quiet_settleLive : Quiet (settleLive plan rpcUrl mode txHash) := by
  refine .bind looks_waitForMintReceipt.quiet fun outcome => ?_
  cases outcome with
  | reverted => exact .bind (idle_revertCode _).quiet fun _ => quiet_settleReverted
  | success => exact quiet_settleExecuted
  | unknown => exact quiet_settleExecuted

/-! ### After a failure -/

theorem clerical_releaseHeldNonce : ∀ nonce, Clerical (releaseHeldNonce wallet nonce)
  | some _ => clerical_ask trivial
  | none => .pure _

theorem clerical_discardBlob {row : Presigned} {error : Thrown} :
    Clerical (discardBlob plan wallet mode row error) := by
  refine .bind quiet_clearPresignedTx.clerical fun _ => ?_
  split
  · refine .bind (clerical_ask trivial) fun _ => ?_
    split
    · exact .bind quiet_failPlanAndNotify.clerical fun _ => .pure _
    · exact .bind quiet_releaseMintPlanToArmed.clerical fun _ => .pure _
  · refine .bind looks_presignedOutcome.quiet.clerical fun outcome => ?_
    cases outcome with
    | success =>
      exact .bind (clerical_ask trivial) fun _ =>
        .bind quiet_markMintPlanExecuted.clerical fun _ => .pure _
    | reverted => exact .bind (clerical_releaseHeldNonce _) fun _ => .pure _
    | unknown => exact .bind (clerical_releaseHeldNonce _) fun _ => .pure _

theorem clerical_giveUpLive {nonce : Option ℕ} {error : Thrown} :
    Clerical (giveUpLive plan wallet nonce error) := by
  refine .bind (clerical_releaseHeldNonce _) fun _ => .bind (clerical_ask trivial) fun _ => ?_
  split
  · exact quiet_failPlanAndNotify.clerical
  · exact quiet_releaseMintPlanToArmed.clerical

theorem clerical_rescueLive {signedTxHash : Option String} {nonce : Option ℕ} {error : Thrown} :
    Clerical (rescueLive plan wallet mode signedTxHash nonce error) := by
  rcases signedTxHash with _ | txHash
  · exact clerical_giveUpLive
  · refine .bind (looks_resolveTxOutcome _).quiet.clerical fun outcome => ?_
    cases outcome with
    | success => exact (quiet_ignoreErrors quiet_markMintPlanExecuted).clerical
    | reverted => exact clerical_giveUpLive
    | unknown => exact quiet_releaseMintPlanToArmed.clerical

/-- A fire that cannot be attempted. -/
theorem clerical_failed {code : String} :
    Clerical (do
      record plan { status := .failed, errorCode := some code }
      failPlanAndNotify plan : Worker Unit) :=
  .bind (clerical_ask trivial) fun _ => quiet_failPlanAndNotify.clerical

/-! ### The delegated path -/

theorem delegated_failPlanAndNotify :
    (failPlanAndNotify plan).Only (S := signature) Cmd.Delegated :=
  .bind (.issue trivial) fun _ => .issue trivial

theorem delegated_releaseMintPlanToArmed :
    (releaseMintPlanToArmed plan).Only (S := signature) Cmd.Delegated :=
  .bind (.issue trivial) fun _ => .bind (.issue trivial) fun _ => .pure _

theorem delegated_sendDelegated {rawTx : String} :
    (sendDelegated plan rpcUrl rawTx).Only (S := signature) Cmd.Delegated :=
  .bind (.issue trivial) fun _ => .bind (.issue trivial) fun _ =>
    .bind (.bind (.issue trivial) fun _ => .pure _) fun _ => .issue trivial

theorem delegated_runDelegatedFire {signer : Option Signer} :
    (runDelegatedFire plan tx signer rpcUrl).Only (S := signature) Cmd.Delegated := by
  refine runDelegatedFire_cases (P := fun p => p.Only (S := signature) Cmd.Delegated) ?_ ?_
  · exact .bind (.issue trivial) fun _ => delegated_failPlanAndNotify
  · intro row executorAddress credentialId _ _ _
    refine Prog.Only.tryCatch ?_ fun _ =>
      .bind (.issue trivial) fun _ => delegated_releaseMintPlanToArmed
    refine .bind (.issue trivial) ?_
    rintro (_ | sessionKeyHex)
    · exact .bind (.issue trivial) fun _ => delegated_failPlanAndNotify
    · refine .bind (.issue trivial) fun operator => .bind (.issue trivial) ?_
      rintro (revertReason | gasEstimate)
      · exact .bind (.issue trivial) fun _ => delegated_releaseMintPlanToArmed
      · exact .bind (.issue trivial) fun _ => .bind (.issue trivial) fun _ =>
          delegated_sendDelegated

theorem quiet_rescueDelegated {error : Thrown} : Quiet (rescueDelegated plan error) :=
  .bind (quiet_record nofun) fun _ => quiet_releaseMintPlanToArmed

/-! ### Before the send -/

theorem quiet_prepareLive : Quiet (prepareLive config plan tx wallet rpcUrl mode) := by
  refine .bind idle_simulateLive.quiet.attempt fun sim =>
    .bind idle_feesLive.quiet.attempt fun fees => ?_
  split
  · exact .throw _
  · exact .throw _
  · exact .bind (quiet_record nofun) fun _ => .bind quiet_releaseMintPlanToArmed fun _ => .pure _
  · exact .pure _

theorem silent_signLive {key : String} {nonce gasEstimate : ℕ} {fees : FeeContext} :
    Silent (signLive tx key mode nonce gasEstimate fees) := by
  have hsign : ∀ managed, Silent (signWithManagedKeySealed managed key) := fun managed =>
    (silent_ask (c := .signManagedMintTransaction managed key) trivial).tryCatch fun _ => .throw _
  exact .bind (hsign _) fun _ => .bind (idle_holdForOpen _).quiet.silent fun _ => .pure _

end

end MintWorker
