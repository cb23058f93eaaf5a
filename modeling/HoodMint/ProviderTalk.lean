/-
What a pass hears from the mint provider.

* `Talk` — what the mint endpoint has said last, what has been read of the contract since, and
  what has become of the plan;
* `provider` — the monitor: the stage is not self-served, every reading shows supply left, and
  once the endpoint has spoken the rest of the fire works; the endpoint answers what it likes;
* `Talk.Survives`, `Talk.Spared` — that the plan is armed again or has sent a transaction, and
  that the `catch` block lets the last refusal pass;
* `Wordless` — what never asks the mint endpoint: all of a pass but the building of calldata.
-/
import HoodMint.SignerFrame

namespace MintWorker

open Effect

/-! ### What is heard -/

/-- What the mint endpoint said last. -/
inductive Word
  | silent
  | refused (error : Thrown)
  | built (tx : Tx)
deriving DecidableEq

/-- What a pass has heard, and what it has done to the plan. -/
structure Talk where
  plan : Option Plan
  signer : Option Signer
  word : Word
  /-- A reading of the contract was obtained. -/
  seen : Bool
  /-- And one since the last word. -/
  reread : Bool
  stageStart : Option ℤ
  /-- The clock, when it was first read after the last word. -/
  clock : Option ℤ
  failed : Bool
  rearmed : Bool
  sent : Bool

namespace Talk

def start : Talk := ⟨none, none, .silent, false, false, none, none, false, false, false⟩

/-- Calldata is there. -/
def Built (s : Talk) : Prop := ∃ tx, s.word = .built tx

instance (s : Talk) : Decidable s.Built :=
  match h : s.word with
  | .built tx => isTrue ⟨tx, h⟩
  | .silent => isFalse fun hbuilt => by simp [Built, h] at hbuilt
  | .refused _ => isFalse fun hbuilt => by simp [Built, h] at hbuilt

/-- An answer of the mint endpoint; the first calldata is the last word. -/
def hear (s : Talk) (x : Except Thrown Tx) : Talk :=
  if s.Built then s
  else
    { s with
      word := match x with
        | .ok tx => .built tx
        | .error error => .refused error
      reread := false
      clock := none }

theorem hear_of_built {s : Talk} (h : s.Built) (x : Except Thrown Tx) : s.hear x = s := if_pos h

theorem hear_ok {s : Talk} (h : ¬ s.Built) (tx : Tx) :
    s.hear (.ok tx) = { s with word := .built tx, reread := false, clock := none } := if_neg h

theorem hear_error {s : Talk} (h : ¬ s.Built) (error : Thrown) :
    s.hear (.error error) = { s with word := .refused error, reread := false, clock := none } :=
  if_neg h

/-- One answer further. -/
def step (s : Talk) : (c : Cmd) → Except Thrown c.Resp → Talk
  | .claimArmedMintPlan .., .ok plan => { s with plan }
  | .selectSigner _, .ok signer => { s with signer }
  | .selectStageStart _, .ok stageStart => { s with stageStart }
  | .readMintStats .., .ok _ => if s.Built then s else { s with seen := true, reread := true }
  | .buildOpenSeaMintTx _, x => s.hear x
  | .burstBuildOpenSeaMintTx .., x => s.hear x
  | .now, .ok nowMs => { s with clock := s.clock.or (some nowMs) }
  | .failMintPlanExecution _, .ok found => { s with failed := found }
  | .releaseMintPlanToArmed .., .ok found => { s with rearmed := found }
  | .broadcastRawTransaction .., .ok _ => { s with sent := true }
  | .raceRawTransaction .., .ok (.ok _) => { s with sent := true }
  | _, _ => s

end Talk

/-! ### What is assumed of the answers -/

/-- The signer can fire the plan on the server. -/
structure Signer.CanFire (plan : Plan) (signer : Signer) : Prop where
  ceiling : ∀ ceilingWei ∈ signer.onchainSpendCeilingWei, plan.perPlanCeilingWei ≤ ceilingWei
  scheme : signer.scheme ≠ .eip7702SafeZodiac
  executor : signer.scheme = .customExecutor →
    signer.delegateContractAddress.isSome ∧ signer.sessionKeyCredentialId.isSome

/-- The policy has nothing against the transaction. -/
structure Tx.Affordable (plan : Plan) (signer : Option Signer) (tx : Tx) : Prop where
  window : plan.armedUntil.isSome
  ceiling : 0 < plan.perPlanCeilingWei
  value : tx.valueWei ≤ plan.perPlanCeilingWei
  signer : ∀ row ∈ signer, row.status = .active → row.CanFire plan

/-- A command that works: rows are found, a race is won, nothing has reverted.  Readings, receipts
and the mint endpoint may fail. -/
def Cmd.Works : (c : Cmd) → Except Thrown c.Resp → Prop
  | .failMintPlanExecution _, .ok found => found = true
  | .releaseMintPlanToArmed .., .ok found => found = true
  | .getCredentialSecret _, .ok secret => secret.isSome
  | .raceRawTransaction .., .ok won => ∃ txHash, won = .ok txHash
  | .getTransactionReceipt .., .ok status => status ≠ some .reverted
  | .getTransactionReceipt .., .error _ => True
  | .readMintStats .., .error _ => True
  | .buildOpenSeaMintTx _, .error _ => True
  | .burstBuildOpenSeaMintTx .., .error _ => True
  | _, .ok _ => True
  | _, .error _ => False

/-- The answers of the environment.  While the mint endpoint is silent anything may fail; once it
has spoken, only its own answers and the readings of the contract are in doubt. -/
def Talk.Expects (s : Talk) : (c : Cmd) → Except Thrown c.Resp → Prop
  | .now, .ok nowMs => s.Built → ∀ plan ∈ s.plan, ∀ armedUntil ∈ plan.armedUntil, nowMs < armedUntil
  | .now, .error _ => False
  | .buildSelfServedPublicMint .., .ok answer => answer = .notSelfServable
  | .readMintStats .., .ok stats => stats.currentTotalSupply < stats.maxSupply
  | .buildOpenSeaMintTx _, .ok tx => ∀ plan ∈ s.plan, tx.Affordable plan s.signer
  | .burstBuildOpenSeaMintTx .., .ok tx => ∀ plan ∈ s.plan, tx.Affordable plan s.signer
  | c, x => s.word ≠ .silent → c.Works x

/-- A pass, and what the mint endpoint tells it. -/
def provider : Monitor signature Thrown Talk where
  guard _ _ := True
  allowed s c x := s.Expects c x
  next s c x := s.step c x

/-! ### The property -/

/-- The message that the `catch` block reads. -/
def Thrown.passMessage (error : Thrown) : String :=
  if error.isError then error.message else "unknown_error"

namespace Talk

/-- The instant the plan aims at, as last read. -/
def targetMs (s : Talk) : Option ℤ :=
  s.plan.bind fun plan =>
    match plan.fireAt, plan.stageId with
    | some fireAt, _ => some fireAt
    | none, none => none
    | none, some _ => s.stageStart

/-- The plan is not failed: it is armed again, or a transaction was sent. -/
def Survives (s : Talk) : Prop := s.failed = false ∧ (s.rearmed = true ∨ s.sent = true)

/-- The clock, not the contract, decides, and it is early. -/
def Early (s : Talk) : Prop :=
  ∃ target ∈ s.targetMs, ∃ nowMs ∈ s.clock, nowMs < target + mintedOutClockLagGraceMs

/-- The `catch` block lets the refusal pass. -/
def Spares (s : Talk) (error : Thrown) : Prop :=
  if isMintedOutError error.passMessage then s.reread = true ∨ s.Early
  else isInsufficientFundsError error.passMessage = false ∧
    ¬ (isProvider4xx error.passMessage ∧ isPerWalletLimitError error.passMessage)

/-- The last word, if it is a refusal, is let pass. -/
def Spared (s : Talk) : Prop := ∀ error, s.word = .refused error → s.Spares error

/-- The mint endpoint was asked, and a reading of the contract was obtained. -/
def Asked (s : Talk) : Prop := s.word ≠ .silent ∧ s.seen = true

instance (s : Talk) : Decidable s.Asked :=
  (inferInstance : Decidable (s.word ≠ .silent ∧ s.seen = true))

/-- A pass that has asked leaves the plan alive exactly when the last refusal is spared. -/
def Ended (s : Talk) : Prop := s.Asked → (s.Survives ↔ s.Spared)

/-- The endpoint was silent, or has given calldata of which nothing is claimed. -/
def Moot (s : Talk) : Prop := s.word = .silent ∨ s.Built ∧ s.seen = false

theorem Moot.ended {s : Talk} (h : s.Moot) : s.Ended := by
  rintro ⟨hword, hseen⟩
  rcases h with hsilent | ⟨-, hunseen⟩
  · exact absurd hsilent hword
  · exact absurd (hunseen.symm.trans hseen) Bool.false_ne_true

end Talk

/-! ### Programs that do not ask -/

/-- Not a question to the mint endpoint. -/
def Cmd.Wordless : Cmd → Prop
  | .buildOpenSeaMintTx _ | .burstBuildOpenSeaMintTx .. => False
  | _ => True

section

variable {α : Type} {p : Worker α} {config : Config} {plan : Plan} {tx : Tx} {wallet : Wallet}
  {mode : FireMode} {rpcUrl txHash : String}

abbrev Wordless (p : Worker α) : Prop := p.Only (S := signature) Cmd.Wordless

theorem wordless_ask {c : Cmd} (h : c.Wordless) : Wordless (ask c) := Prog.Only.issue h

theorem only_failover {C : Cmd → Prop} {fn : String → Worker α}
    (h : ∀ url, (fn url).Only (S := signature) C) (last : Thrown) (urls : List String) :
    (failover fn last urls).Only (S := signature) C := by
  induction urls generalizing last with
  | nil => exact .throw _
  | cons url urls ih =>
    refine .bind (h url).attempt ?_
    rintro (e | a)
    · exact ih e
    · exact .pure a

theorem only_resolveTxOutcome {C : Cmd → Prop} (h : ∀ url, C (.getTransactionReceipt url txHash))
    (urls : List String) : (resolveTxOutcome urls txHash).Only (S := signature) C := by
  induction urls with
  | nil => exact .pure _
  | cons url urls ih =>
    have hreceipt : (ask (.getTransactionReceipt url txHash)).Only (S := signature) C :=
      .issue (h url)
    have honce : (resolveTxOutcomeOnce url txHash).Only (S := signature) C := by
      refine .bind hreceipt.attempt fun answer => ?_
      split
      · exact .pure _
      · exact .pure _
    refine .bind honce fun outcome => ?_
    split
    · exact .pure _
    · exact ih

theorem wordless_fireTargetMs : Wordless (fireTargetMs plan) := by
  rw [fireTargetMs]
  split
  · exact .pure _
  · exact .pure _
  · exact wordless_ask trivial

theorem wordless_readStats {urls : List String} {contract minter : String} :
    Wordless (readStats urls contract minter) := by
  have hread : ∀ url, Wordless (ask (.readMintStats url contract minter)) :=
    fun _ => wordless_ask trivial
  refine .bind (only_failover hread _ urls).attempt ?_
  rintro (e | stats)
  · exact .pure _
  · exact .pure _

theorem wordless_releaseMintPlanToArmed : Wordless (releaseMintPlanToArmed plan) :=
  .bind (wordless_ask trivial) fun _ => .bind (wordless_ask trivial) fun _ => .pure _

theorem wordless_markMintPlanExecuted : Wordless (markMintPlanExecuted plan) :=
  .bind (wordless_ask trivial) fun _ => .pure _

theorem wordless_clearPresignedTx : Wordless (clearPresignedTx plan) :=
  .bind (wordless_ask trivial) fun _ => .pure _

theorem wordless_failPlanAndNotify : Wordless (failPlanAndNotify plan) :=
  .bind (wordless_ask trivial) fun _ => wordless_ask trivial

theorem wordless_ignoreErrors {p : Worker Unit} (h : Wordless p) : Wordless (ignoreErrors p) :=
  .bind h.attempt fun _ => .pure _

theorem wordless_failPass {errorCode outcome : String} :
    Wordless (failPass plan errorCode outcome) :=
  .bind (wordless_ask trivial) fun _ => .bind wordless_failPlanAndNotify fun _ => .pure _

theorem wordless_rescuePass {urls : List String} {target : StatsTarget} {error : Thrown} :
    Wordless (rescuePass plan urls target error) := by
  rw [rescuePass]
  generalize (if error.isError then error.message else "unknown_error") = message
  have hsettle : ∀ targetMs supply, Wordless (do
      let nowMs ← ask .now
      if mintedOutIsTerminal nowMs targetMs supply then
        failPass plan (slice200 ("minted_out: " ++ message)) "minted_out"
      else
        record plan
          { status := .failed, errorCode := some (slice200 ("minted_out_pre_open: " ++ message)) }
        releaseMintPlanToArmed plan
        return "minted_out_pre_open" : Worker String) := by
    intro targetMs supply
    refine .bind (wordless_ask trivial) fun nowMs => ?_
    split
    · exact wordless_failPass
    · exact .bind (wordless_ask trivial) fun _ =>
        .bind wordless_releaseMintPlanToArmed fun _ => .pure _
  split
  · refine .bind wordless_fireTargetMs fun targetMs => ?_
    rcases target with _ | ⟨contract, minter⟩
    · exact hsettle targetMs none
    · dsimp only
      split
      · exact hsettle targetMs none
      · exact .bind wordless_readStats fun supply => hsettle targetMs supply
  · split
    · exact wordless_failPass
    · split
      · exact wordless_failPass
      · split
        · exact wordless_failPass
        · exact .bind (wordless_ask trivial) fun _ =>
            .bind (wordless_ignoreErrors wordless_releaseMintPlanToArmed) fun _ => .pure _

theorem wordless_waitForMintReceipt : Wordless (waitForMintReceipt rpcUrl txHash) := by
  refine .bind (wordless_ask trivial) fun nowMs => ?_
  generalize nowMs + receiptTimeoutMs = deadline
  generalize 18 = polls
  induction polls with
  | zero => exact .pure _
  | succ polls ih =>
    refine .bind (wordless_ask (c := .getTransactionReceipt rpcUrl txHash) trivial).attempt ?_
    intro answer
    split
    · exact .pure _
    · refine .bind (wordless_ask trivial) fun _ => ?_
      split
      · exact .pure _
      · exact .bind (wordless_ask trivial) fun _ => ih

/-! ### The fire does not ask -/

theorem wordless_resolveBroadcastRpcUrls {chainId : ℕ} {fallback : Option String} :
    Wordless (resolveBroadcastRpcUrls chainId fallback) :=
  .bind (wordless_ask trivial) fun _ => .pure _

theorem wordless_raceBroadcast {urls : List String} {rawTx : String} :
    Wordless (raceBroadcast urls rawTx) := by
  refine .bind (wordless_ask trivial) ?_
  rintro (errors | txHash)
  · exact .throw _
  · exact .pure _

theorem wordless_settleReverted {errorCode : String} :
    Wordless (settleReverted plan errorCode) := by
  refine .bind (wordless_ask trivial) fun _ => .bind (wordless_ask trivial) fun reverts => ?_
  split
  · exact wordless_failPlanAndNotify
  · exact wordless_releaseMintPlanToArmed

theorem wordless_settleExecuted : Wordless (settleExecuted plan) :=
  .bind wordless_markMintPlanExecuted fun _ => wordless_ask trivial

theorem wordless_settleFast : Wordless (settleFast plan rpcUrl txHash) := by
  refine .bind (wordless_ask trivial) fun _ => .bind wordless_clearPresignedTx fun _ =>
    .bind wordless_waitForMintReceipt fun outcome => ?_
  split
  · exact wordless_settleReverted
  · exact wordless_settleExecuted

theorem wordless_revertCode : ∀ onChainStartMs, Wordless (revertCode onChainStartMs)
  | none => .pure _
  | some _ => .bind (wordless_ask trivial) fun _ => .pure _

theorem wordless_settleLive : Wordless (settleLive plan rpcUrl mode txHash) := by
  refine .bind wordless_waitForMintReceipt fun outcome => ?_
  split
  · exact .bind (wordless_revertCode _) fun _ => wordless_settleReverted
  · exact wordless_settleExecuted

theorem wordless_releaseHeldNonce : ∀ nonce, Wordless (releaseHeldNonce wallet nonce)
  | some _ => wordless_ask trivial
  | none => .pure _

theorem wordless_giveUpLive {nonce : Option ℕ} {error : Thrown} :
    Wordless (giveUpLive plan wallet nonce error) := by
  refine .bind (wordless_releaseHeldNonce _) fun _ => .bind (wordless_ask trivial) fun _ => ?_
  split
  · exact wordless_failPlanAndNotify
  · exact wordless_releaseMintPlanToArmed

theorem wordless_rescueLive {signedTxHash : Option String} {nonce : Option ℕ} {error : Thrown} :
    Wordless (rescueLive plan wallet mode signedTxHash nonce error) := by
  cases signedTxHash with
  | none => exact wordless_giveUpLive
  | some txHash =>
    refine .bind (only_resolveTxOutcome (fun _ => trivial) _) fun outcome => ?_
    cases outcome with
    | success => exact wordless_ignoreErrors wordless_markMintPlanExecuted
    | reverted => exact wordless_giveUpLive
    | unknown => exact wordless_releaseMintPlanToArmed

theorem wordless_discardBlob {row : Presigned} {error : Thrown} :
    Wordless (discardBlob plan wallet mode row error) := by
  refine .bind wordless_clearPresignedTx fun _ => ?_
  split
  · refine .bind (wordless_ask trivial) fun _ => ?_
    split
    · exact .bind wordless_failPlanAndNotify fun _ => .pure _
    · exact .bind wordless_releaseMintPlanToArmed fun _ => .pure _
  · have houtcome : Wordless (presignedOutcome mode.fireUrls row) := by
      rw [presignedOutcome]
      split
      · exact only_resolveTxOutcome (fun _ => trivial) _
      · exact .pure _
    refine .bind houtcome fun outcome => ?_
    split
    · exact .bind (wordless_ask trivial) fun _ =>
        .bind wordless_markMintPlanExecuted fun _ => .pure _
    · exact .bind (wordless_releaseHeldNonce _) fun _ => .pure _

theorem wordless_fireFast {row : Presigned} {rawTx : String} :
    Wordless (fireFast config plan wallet rpcUrl mode row rawTx) := by
  have hrace : Wordless (raceBlob config rpcUrl rawTx) :=
    .bind wordless_resolveBroadcastRpcUrls fun _ => wordless_raceBroadcast
  refine .bind hrace.attempt ?_
  rintro (e | txHash)
  · exact wordless_discardBlob
  · refine .bind (wordless_settleFast.tryCatch fun _ => ?_) fun _ => .pure _
    exact .bind (wordless_ignoreErrors wordless_clearPresignedTx) fun _ =>
      wordless_ignoreErrors wordless_markMintPlanExecuted

theorem wordless_prepareLive : Wordless (prepareLive config plan tx wallet rpcUrl mode) := by
  have hsimulate : Wordless (simulateLive config tx wallet rpcUrl mode) := by
    rw [simulateLive]
    split
    · exact .pure _
    · exact wordless_ask trivial
  have hfees : Wordless (feesLive wallet mode) := by
    rw [feesLive]
    split
    · exact .pure _
    · have hfetch : ∀ url, Wordless (ask (.fetchFeeContext url wallet.address)) :=
        fun _ => wordless_ask trivial
      exact only_failover hfetch _ _
  refine .bind hsimulate.attempt fun sim => .bind hfees.attempt fun fees => ?_
  split
  · exact .throw _
  · exact .throw _
  · exact .bind (wordless_ask trivial) fun _ =>
      .bind wordless_releaseMintPlanToArmed fun _ => .pure _
  · exact .pure _

theorem wordless_holdForOpen : ∀ holdUntilMs, Wordless (holdForOpen holdUntilMs)
  | none => .pure _
  | some _ => by
    refine .bind (wordless_ask trivial) fun _ => ?_
    split
    · exact wordless_ask trivial
    · exact .pure _

theorem wordless_signLive {key : String} {nonce gasEstimate : ℕ} {fees : FeeContext} :
    Wordless (signLive tx key mode nonce gasEstimate fees) := by
  have hsign : ∀ managed, Wordless (signWithManagedKeySealed managed key) := fun managed =>
    (wordless_ask (c := .signManagedMintTransaction managed key) trivial).tryCatch
      fun _ => .throw _
  exact .bind (hsign _) fun _ => .bind (wordless_holdForOpen _) fun _ => .pure _

theorem wordless_sendLive {signed : Signed} :
    Wordless (sendLive config plan rpcUrl mode signed) := by
  refine .bind (wordless_ask trivial) fun _ => .bind ?_ fun _ => wordless_raceBroadcast
  rw [liveUrls]
  split
  · exact .pure _
  · exact wordless_resolveBroadcastRpcUrls

theorem wordless_fireLive {key : String} :
    Wordless (fireLive config plan tx wallet key rpcUrl mode) := by
  refine .bind wordless_prepareLive.attempt ?_
  rintro (e | _ | ⟨gasEstimate, fees⟩)
  · exact wordless_rescueLive
  · exact .pure _
  · refine .bind (wordless_ask (c := .reserveNonce wallet.address fees.nonce) trivial).attempt ?_
    rintro (e | nonce)
    · exact wordless_rescueLive
    · refine .bind wordless_signLive.attempt ?_
      rintro (e | signed)
      · exact wordless_rescueLive
      · refine .bind wordless_sendLive.attempt ?_
        rintro (e | txHash)
        · exact wordless_rescueLive
        · exact wordless_settleLive.tryCatch fun _ =>
            wordless_ignoreErrors wordless_markMintPlanExecuted

theorem wordless_runManagedFire :
    Wordless (runManagedFire config plan tx wallet rpcUrl mode) := by
  rw [runManagedFire]
  split
  · exact .bind (wordless_ask trivial) fun _ => wordless_failPlanAndNotify
  · refine .bind (wordless_ask trivial) fun fresh => ?_
    split
    · refine .bind wordless_fireFast fun done => ?_
      split
      · exact .pure _
      · exact wordless_fireLive
    · exact wordless_fireLive

theorem wordless_runDelegatedFire {signer : Option Signer} :
    Wordless (runDelegatedFire plan tx signer rpcUrl) :=
  delegated_runDelegatedFire.mono fun c hc => by
    cases c <;> first | exact trivial | exact absurd hc id

theorem wordless_settleOutcome {fire : Fire} (outcome : PipelineOutcome) :
    Wordless (settleOutcome config plan fire outcome) := by
  cases outcome with
  | blockedSimulation =>
    exact .bind (wordless_ask trivial) fun _ => wordless_releaseMintPlanToArmed
  | shadowWouldFire => exact .bind (wordless_ask trivial) fun _ => wordless_releaseMintPlanToArmed
  | blockedPolicy => exact .bind (wordless_ask trivial) fun _ => wordless_failPlanAndNotify
  | blockedSchemeNotImplemented =>
    exact .bind (wordless_ask trivial) fun _ => wordless_failPlanAndNotify
  | readyForBrowserSignature => exact .bind (wordless_ask trivial) fun _ => wordless_ask trivial
  | readyForDelegatedSignature =>
    rw [settleOutcome, runServerFire]
    split
    · exact wordless_runManagedFire
    · exact wordless_runDelegatedFire

theorem wordless_firePipeline {fire : Fire} : Wordless (firePipeline config plan fire tx) := by
  have hsimulate : Wordless (pipelineSimulate config fire tx) := by
    rw [pipelineSimulate]
    split
    · exact .pure _
    · exact wordless_ask trivial
  refine .bind ?_ fun outcome => .bind (wordless_settleOutcome outcome) fun _ => .pure _
  refine .bind (wordless_ask trivial) fun nowMs => ?_
  split
  · exact .pure _
  · refine .bind hsimulate ?_
    rintro (reason | gasEstimate)
    · exact .pure _
    · dsimp only
      split
      · exact .pure _
      · split
        · exact .pure _
        · split
          · exact .pure _
          · exact .pure _

end

end MintWorker
