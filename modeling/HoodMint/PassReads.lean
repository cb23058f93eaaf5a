/-
What the passes only read.

A command is `Idle` when it asks for the time, for rows the passes never write, for an RPC
read or for a transaction to mint with; it `Looks` when it may also ask for a receipt.  Most
of a pass between two writes is made of such commands, whatever a monitor makes of the rest.
What a pre-sign pass asks about a plan before it takes a nonce `Surveys`.
-/
import HoodMint.PresignPass

namespace MintWorker

open Effect

/-- Reads the clock, rows no pass writes, an endpoint or a mint provider. -/
def Cmd.Idle : Cmd → Prop
  | .now | .sleep _ | .listRpcEndpoints _ | .selectProject _ | .selectWallet _ | .selectSigner _
  | .selectStageStart _ | .selectClockOffset | .stageCapsForProject _ | .fetchFeeContext ..
  | .readMintStats .. | .simulateTransaction .. | .buildSelfServedPublicMint ..
  | .buildOpenSeaMintTx _ | .burstBuildOpenSeaMintTx .. => True
  | _ => False

/-- Idle, or asks for a receipt. -/
def Cmd.Looks : Cmd → Prop
  | .getTransactionReceipt .. => True
  | c => c.Idle

section

variable {α : Type} {p : Worker α} {plan : Plan} {config : Config} {wallet : Wallet}
  {mode : FireMode} {rpcUrl txHash : String}

abbrev Idle (p : Worker α) : Prop := p.Only (S := signature) Cmd.Idle

abbrev Looks (p : Worker α) : Prop := p.Only (S := signature) Cmd.Looks

theorem Cmd.Idle.looks {c : Cmd} (h : c.Idle) : c.Looks := by
  cases c <;> first | exact h | exact trivial

theorem Idle.looks (h : Idle p) : Looks p := h.mono fun _ hc => hc.looks

theorem idle_ask {c : Cmd} (h : c.Idle) : Idle (ask c) := Prog.Only.issue h

theorem looks_ask {c : Cmd} (h : c.Looks) : Looks (ask c) := Prog.Only.issue h

/-! ### Endpoints -/

theorem idle_failover {fn : String → Worker α} (h : ∀ url, Idle (fn url)) (last : Thrown) :
    ∀ urls, Idle (failover fn last urls)
  | [] => .throw _
  | url :: urls => by
    rw [failover]
    refine .bind (h url).attempt ?_
    rintro (e | a)
    · exact idle_failover h e urls
    · exact .pure a

theorem idle_withRpcFailover {urls : List String} {fn : String → Worker α}
    (h : ∀ url, Idle (fn url)) : Idle (withRpcFailover urls fn) :=
  idle_failover h _ urls

theorem idle_resolveBroadcastRpcUrls {chainId : ℕ} {fallback : Option String} :
    Idle (resolveBroadcastRpcUrls chainId fallback) :=
  .bind (idle_ask trivial) fun _ => .pure _

theorem idle_readStats {urls : List String} {contract minter : String} :
    Idle (readStats urls contract minter) := by
  refine .bind (idle_withRpcFailover fun url =>
    idle_ask (c := .readMintStats url contract minter) trivial).attempt ?_
  rintro (e | stats)
  · exact .pure _
  · exact .pure _

theorem idle_prefetch {fireUrls : List String} {nearFire : Bool} {wallet : Option Wallet}
    {target : StatsTarget} : Idle (prefetch fireUrls nearFire wallet target) := by
  rcases wallet with _ | ⟨_, address, _ | key⟩
  · exact .pure _
  · exact .pure _
  · rw [prefetch]
    split
    · refine .bind (idle_withRpcFailover fun url =>
        idle_ask (c := .fetchFeeContext url address) trivial).attempt fun fees => ?_
      split
      · exact .bind idle_readStats fun _ => .pure _
      · exact .pure _
    · exact .pure _

/-! ### Receipts -/

theorem looks_resolveTxOutcomeOnce : Looks (resolveTxOutcomeOnce rpcUrl txHash) := by
  refine .bind (looks_ask (c := .getTransactionReceipt rpcUrl txHash) trivial).attempt ?_
  rintro (e | _ | status)
  · exact .pure _
  · exact .pure _
  · exact .pure _

theorem looks_resolveTxOutcome : ∀ urls, Looks (resolveTxOutcome urls txHash)
  | [] => .pure _
  | url :: urls => by
    refine .bind looks_resolveTxOutcomeOnce fun outcome => ?_
    split
    · exact .pure _
    · exact looks_resolveTxOutcome urls

theorem looks_pollMintReceipt {deadline : ℤ} (polls : ℕ) :
    Looks (pollMintReceipt rpcUrl txHash deadline polls) := by
  induction polls with
  | zero => exact .pure _
  | succ polls ih =>
    have hwait : Looks (do
        let nowMs ← ask .now
        if nowMs ≥ deadline then return .unknown
        ask (.sleep receiptPollMs)
        pollMintReceipt rpcUrl txHash deadline polls) := by
      refine .bind (looks_ask trivial) fun nowMs => ?_
      split
      · exact .pure _
      · exact .bind (looks_ask trivial) fun _ => ih
    refine .bind (looks_ask (c := .getTransactionReceipt rpcUrl txHash) trivial).attempt ?_
    rintro (e | _ | status)
    · exact hwait
    · exact hwait
    · exact .pure _

theorem looks_waitForMintReceipt : Looks (waitForMintReceipt rpcUrl txHash) :=
  .bind (looks_ask trivial) fun _ => looks_pollMintReceipt _

theorem looks_presignedOutcome {urls : List String} {row : Presigned} :
    Looks (presignedOutcome urls row) := by
  rw [presignedOutcome]
  split
  · exact looks_resolveTxOutcome _
  · exact .pure _

/-! ### The plan and its rows -/

theorem idle_fireTargetMs : Idle (fireTargetMs plan) := by
  rw [fireTargetMs]
  split
  · exact .pure _
  · exact .pure _
  · exact idle_ask trivial

theorem idle_isNearFireInstant : Idle (isNearFireInstant plan) := by
  refine .bind idle_fireTargetMs ?_
  rintro (_ | target)
  · exact .pure _
  · exact .bind (idle_ask trivial) fun _ => .pure _

theorem idle_loadPlan : Idle (loadPlan plan) :=
  .bind (idle_ask trivial) fun _ => .bind (idle_ask trivial) fun _ => .pure _

theorem idle_resolveSigner : Idle (resolveSigner plan wallet) := by
  rw [resolveSigner]
  split
  · exact .pure _
  · exact .bind (idle_ask trivial) fun _ => .pure _

/-! ### The pipeline -/

theorem idle_pipelineSimulate {fire : Fire} {tx : Tx} : Idle (pipelineSimulate config fire tx) := by
  rw [pipelineSimulate]
  split
  · exact .pure _
  · exact idle_ask trivial

/-! ### Before and after a send -/

theorem idle_simulateLive {tx : Tx} : Idle (simulateLive config tx wallet rpcUrl mode) := by
  rw [simulateLive]
  split
  · exact .pure _
  · exact idle_ask trivial

theorem idle_feesLive : Idle (feesLive wallet mode) := by
  rw [feesLive]
  split
  · exact .pure _
  · exact idle_withRpcFailover fun url => idle_ask trivial

theorem idle_holdForOpen : ∀ holdUntilMs, Idle (holdForOpen holdUntilMs)
  | none => .pure _
  | some _ => by
    refine .bind (idle_ask trivial) fun _ => ?_
    split
    · exact idle_ask trivial
    · exact .pure _

theorem idle_liveUrls : Idle (liveUrls config rpcUrl mode) := by
  rw [liveUrls]
  split
  · exact .pure _
  · exact idle_resolveBroadcastRpcUrls

theorem idle_revertCode : ∀ start, Idle (revertCode start)
  | none => .pure _
  | some _ => .bind (idle_ask trivial) fun _ => .pure _

end

/-! ### Before a signature in advance -/

/-- Asks what to sign in advance, and whether the wallet can pay for it. -/
def Cmd.Surveys : Cmd → Prop
  | .now | .claimlessPlanProject _ | .selectProject _ | .buildOpenSeaMintTx _
  | .fetchNativeBalance .. | .fetchErc20Funding .. | .recordWalletBalance .. => True
  | _ => False

section

variable {α : Type} {config : Config} {candidate : PresignCandidate} {tx : Tx} {rpcUrl : String}

abbrev Surveys (p : Worker α) : Prop := p.Only (S := signature) Cmd.Surveys

theorem surveys_ask {c : Cmd} (h : c.Surveys) : Surveys (ask c) := Prog.Only.issue h

theorem surveys_readErc20Price : Surveys (readErc20Price rpcUrl candidate tx) := by
  rw [readErc20Price]
  split
  · refine .bind (.attempt (surveys_ask trivial)) ?_
    rintro (e | funding)
    · exact .pure _
    · exact .pure _
  · exact .pure _

theorem surveys_assessPresignFunding {maxFeePerGasWei : ℕ} :
    Surveys (assessPresignFunding config rpcUrl candidate tx maxFeePerGasWei) := by
  refine .bind (surveys_ask trivial) fun balance => ?_
  refine .bind (.bind (.attempt (surveys_ask trivial)) fun _ => .pure _) fun _ => ?_
  exact .bind surveys_readErc20Price fun _ => .pure _

theorem surveys_freshPresignTx : Surveys (freshPresignTx candidate) := by
  rw [freshPresignTx]
  split
  · exact .bind (surveys_ask trivial) fun _ => .pure _
  · exact .pure _

theorem surveys_presignCalldata : ∀ cached, Surveys (presignCalldata candidate cached)
  | some _ => .pure _
  | none => by
    refine .bind (surveys_ask trivial) fun _ => .bind (surveys_ask trivial) fun project => ?_
    split
    · exact .bind (surveys_ask trivial) fun _ => .pure _
    · exact .pure _

end

end MintWorker
