/-
The stages of a pass.

A pass that has claimed a plan goes through the idempotency gate, chooses its signer, and
hands a transaction on; whatever fails before is caught at the end.  `Stages` says what a
monitor's state is known to be at each stage, `PassKeeps` what a monitor has to grant for a
pass to keep to it, and the theorems below carry that through the code of the pass:

* `PassKeeps.fireClaimed_of` — from the gate on: what the server-side signers meet, the rest of
  the `try` block meets.  A signer is handed only what the policy has `Passed`, and what the
  pass `Makes`; `PassKeeps.fireClaimed` forgets the second;
* `PassKeeps.firePlan_of`, `PassKeeps.firePlan` — what the gate meets, the pass meets.
-/
import HoodMint.PassReads

namespace MintWorker

open Effect

/-- `I` if the program has failed, `J` if it has returned. -/
def EndsIn {σ α : Type} (I J : σ → Prop) : Except Thrown α → σ → Prop
  | .error _, s => I s
  | .ok _, s => J s

/-- What is known when the plan is claimed, when its wallet has been read, when the gate has
let it through, when the signer is chosen, when an exception is to be rescued, and when the
pass has ended. -/
structure Stages (σ : Type) where
  begun : σ → Prop
  loaded : Option Wallet → σ → Prop
  gated : Option Wallet → σ → Prop
  chosen : SignerChoice → σ → Prop
  failed : σ → Prop
  ended : σ → Prop

/-- The wallet has been read, or an exception is under way. -/
def Stages.Loaded {σ : Type} (S : Stages σ) :
    Except Thrown (Option Project × Option Wallet) → σ → Prop
  | .error _, s => S.failed s
  | .ok (_, wallet), s => S.loaded wallet s

/-- The signer is chosen, or an exception is under way. -/
def Stages.Resolved {σ : Type} (S : Stages σ) : Except Thrown SignerChoice → σ → Prop
  | .error _, s => S.failed s
  | .ok choice, s => S.chosen choice s

/-- Idle, or records an attempt of the plan that is no broadcast and no prompt. -/
def Cmd.Steady (planId : String) : Cmd → Prop
  | .recordExecutionAttempt id attempt =>
    id = planId ∧ attempt.status ≠ .broadcast ∧ attempt.status ≠ .awaitingSignature
  | c => c.Idle

/-- Looks, or reads the newest broadcast. -/
def Cmd.Gates : Cmd → Prop
  | .selectLatestBroadcast _ => True
  | c => c.Looks

/-- What the pipeline has established of a transaction it hands on. -/
structure Passed (config : Config) (plan : Plan) (choice : SignerChoice) (tx : Tx) : Prop where
  live : config.liveExecutionEnabled = true
  value : tx.valueWei ≤ plan.perPlanCeilingWei
  ceiling : plan.perPlanCeilingWei ≤ choice.ceilingWei

/-- Record the prompt, and tell the clients. -/
def promptOwner (plan : Plan) (signRequest : Tx) : Worker Unit := do
  record plan { status := .awaitingSignature, pendingTx := some signRequest }
  ask (.publishEvent "execution.awaiting_signature" plan.projectId)

/-- What a monitor grants to the pass of a plan. -/
structure PassKeeps {σ : Type} (M : Monitor signature Thrown σ) (config : Config) (plan : Plan)
    (S : Stages σ) : Prop where
  begun : M.Maintains (Cmd.Steady plan.id) S.begun
  loaded : ∀ wallet, M.Maintains (Cmd.Steady plan.id) (S.loaded wallet)
  chosen : ∀ choice, M.Maintains (Cmd.Steady plan.id) (S.chosen choice)
  failed : M.Maintains (Cmd.Steady plan.id) S.failed
  failed_of_begun : ∀ s, S.begun s → S.failed s
  failed_of_loaded : ∀ wallet s, S.loaded wallet s → S.failed s
  failed_of_gated : ∀ wallet s, S.gated wallet s → S.failed s
  failed_of_chosen : ∀ choice s, S.chosen choice s → S.failed s
  ended_of_failed : ∀ s, S.failed s → S.ended s
  load : ∀ s, S.begun s → (loadPlan plan).wp M S.Loaded s
  resolve : ∀ wallet s, S.gated (some wallet) s → (resolveSigner plan wallet).wp M S.Resolved s
  release : ∀ s, S.failed s →
    (releaseMintPlanToArmed plan).wp M (EndsIn S.failed S.ended) s
  fail : ∀ s, S.failed s → (failPlanAndNotify plan).wp M (EndsIn S.failed S.ended) s
  prompt : ∀ choice tx s, Passed config plan choice tx → choice.scheme = .browserWallet →
    S.chosen choice s → (promptOwner plan tx).wp M (EndsIn S.failed S.ended) s

/-- Every transaction that the pass can mint with on a chain is in `Q`: the cached one, and what
the providers build. -/
structure Makes {σ : Type} (M : Monitor signature Thrown σ) (P : σ → Prop) (Q : Tx → Prop)
    (plan : Plan) (chainId : ℕ) : Prop where
  cached : ∀ tx ∈ plan.cachedTx, Q tx
  selfServed : ∀ s urls stageId contract minter quantity minterIfNotPayer tx a b c d, P s →
    M.allowed s (.buildSelfServedPublicMint urls stageId contract minter quantity chainId
      minterIfNotPayer) (.ok (.built tx a b c d)) → Q tx
  paced : ∀ s target tx, target.chainId = chainId → P s →
    M.allowed s (.buildOpenSeaMintTx target) (.ok tx) → Q tx
  burst : ∀ s target maxMs cadenceMs tx, target.chainId = chainId → P s →
    M.allowed s (.burstBuildOpenSeaMintTx target maxMs cadenceMs) (.ok tx) → Q tx

section

variable {σ α β : Type} {M : Monitor signature Thrown σ} {S : Stages σ} {s : σ} {plan : Plan}
  {config : Config} {fireUrls : List String} {wallet : Wallet} {P : σ → Prop} {Q : Tx → Prop}

/-! ### Steady programs -/

/-- The program issues steady commands only. -/
abbrev Steady (plan : Plan) (p : Worker α) : Prop := p.Only (S := signature) (Cmd.Steady plan.id)

theorem Cmd.Idle.steady {c : Cmd} {planId : String} (h : c.Idle) : c.Steady planId := by
  cases c <;> first | exact h | exact absurd h id

theorem Idle.steady {p : Worker α} (h : Idle p) : Steady plan p := h.mono fun _ hc => hc.steady

theorem steady_ask {c : Cmd} (h : c.Idle) : Steady plan (ask c) := (idle_ask h).steady

/-- A note of something that went wrong. -/
theorem steady_record {attempt : Attempt} (hb : attempt.status ≠ .broadcast)
    (hp : attempt.status ≠ .awaitingSignature) : Steady plan (record plan attempt) :=
  Prog.Only.issue ⟨rfl, hb, hp⟩

/-! ### The pipeline -/

/-- What the policy accepts is within the plan's ceiling, and that within the signer's. -/
theorem ceilings_of_canFire {check : MintPlanFireCheck} {now : ℤ}
    (h : canFireMintPlan check now = .ok ()) :
    check.perPlanCeilingWei ≤ check.signerCeilingWei ∧
      check.spentWei + check.txValueWei ≤ check.perPlanCeilingWei := by
  rw [canFireMintPlan] at h
  split at h
  · exact absurd h nofun
  · split at h
    · exact absurd h nofun
    · split at h
      · exact absurd h nofun
      · split at h
        · exact absurd h nofun
        · split at h
          · exact absurd h nofun
          · next hsigner =>
            split at h
            · exact absurd h nofun
            · split at h
              · exact absurd h nofun
              · next hvalue => exact ⟨not_lt.mp hsigner, not_lt.mp hvalue⟩

/-- What the pipeline says of the transaction an outcome hands on, and of the signer's scheme. -/
def PipelineOutcome.Hands (Q : Tx → Prop) (scheme : SignerScheme) : PipelineOutcome → Prop
  | .readyForBrowserSignature tx => Q tx ∧ scheme = .browserWallet
  | .readyForDelegatedSignature tx _ => Q tx ∧ scheme ≠ .browserWallet
  | _ => True

/-- The pipeline hands on its own transaction, when the policy accepts it and live execution
is enabled: to the owner's wallet, or else to a signer on the server. -/
theorem runExecutionPipeline_wp {check : MintPlanFireCheck} {scheme : SignerScheme} {tx : Tx}
    {live : Bool} {simulate : Worker SimulateResult} (hP : M.Maintains Cmd.Idle P)
    (hsimulate : Idle simulate) (hs : P s) :
    (runExecutionPipeline check scheme tx live simulate).wp M
      (fun r s' => P s' ∧ ∀ outcome, r = .ok outcome → outcome.Hands (fun tx' =>
        tx' = tx ∧ live = true ∧ ∃ now, canFireMintPlan check now = .ok ()) scheme) s := by
  refine Prog.wp_bind_of ((idle_ask (c := .now) trivial).wp_of hP hs) ?_ fun e s' h => ⟨h, Prog.of_error⟩
  intro now s₁ h₁
  split
  · exact ⟨h₁, by rintro _ ⟨⟩; trivial⟩
  · next hfire =>
    refine Prog.wp_bind_of (hsimulate.wp_of hP h₁) ?_ fun e s' h => ⟨h, Prog.of_error⟩
    rintro (reason | gasEstimate) s₂ h₂
    · exact ⟨h₂, by rintro _ ⟨⟩; trivial⟩
    · dsimp only
      split
      · exact ⟨h₂, by rintro _ ⟨⟩; trivial⟩
      · next hlive =>
        have hlive : live = true := by simpa using hlive
        split
        · exact ⟨h₂, by rintro _ ⟨⟩; trivial⟩
        · split
          · next hscheme => exact ⟨h₂, by rintro _ ⟨⟩; exact ⟨⟨rfl, hlive, now, hfire⟩, hscheme⟩⟩
          · next hscheme => exact ⟨h₂, by rintro _ ⟨⟩; exact ⟨⟨rfl, hlive, now, hfire⟩, hscheme⟩⟩

/-! ### The gates -/

namespace PassKeeps

/-- A steady part, and the rest. -/
theorem wp_bind {p : Worker α} {f : α → Worker β} (hp : Steady plan p)
    (hP : M.Maintains (Cmd.Steady plan.id) P) (hfailed : ∀ s, P s → S.failed s)
    (hf : ∀ a s', P s' → (f a).wp M (EndsIn S.failed S.ended) s') (hs : P s) :
    (p >>= f).wp M (EndsIn S.failed S.ended) s :=
  Prog.wp_bind_of (hp.wp_of hP hs) hf fun _ s' hs' => hfailed s' hs'

/-- A program that ends well may be followed by a plain return. -/
theorem wp_return {p : Worker α} {b : β} (hp : p.wp M (EndsIn S.failed S.ended) s) :
    (do let _ ← p; return b : Worker β).wp M (EndsIn S.failed S.ended) s :=
  Prog.wp_bind_of hp (fun _ _ hs => hs) fun _ _ hs => hs

variable (h : PassKeeps M config plan S)
include h

/-- What went wrong is noted, and then `rest`. -/
theorem noted {attempt : Attempt} {rest : Worker α} (hb : attempt.status ≠ .broadcast)
    (hp : attempt.status ≠ .awaitingSignature)
    (hrest : ∀ s', S.failed s' → rest.wp M (EndsIn S.failed S.ended) s') (hs : S.failed s) :
    (do record plan attempt; rest).wp M (EndsIn S.failed S.ended) s :=
  wp_bind (steady_record hb hp) h.failed (fun _ hs => hs) (fun _ s' hs' => hrest s' hs') hs

/-- A failure that is ignored ends the program. -/
theorem ignored {p : Worker Unit} (hp : p.wp M (EndsIn S.failed S.ended) s) :
    (ignoreErrors p).wp M (fun r s' => r = .ok () ∧ S.ended s') s := by
  refine Prog.wp_bind.mpr (Prog.wp_attempt.mpr (Prog.wp_mono hp ?_))
  rintro (e | a) s' hs'
  · exact ⟨rfl, h.ended_of_failed s' hs'⟩
  · exact ⟨rfl, hs'⟩

theorem failPass {errorCode outcome : String} (hs : S.failed s) :
    (failPass plan errorCode outcome).wp M (EndsIn S.failed S.ended) s :=
  h.noted nofun nofun (fun s' hs' => wp_return (h.fail s' hs')) hs

theorem recordPass {outcome : String} (hs : S.failed s) :
    (recordPass plan outcome).wp M (EndsIn S.failed S.ended) s :=
  h.noted nofun nofun (fun s' hs' => h.ended_of_failed s' hs') hs

theorem releasePass {outcome : String} (hs : S.failed s) :
    (do releaseMintPlanToArmed plan; return outcome : Worker String).wp M
      (EndsIn S.failed S.ended) s :=
  wp_return (h.release s hs)

section

variable (hP : M.Maintains (Cmd.Steady plan.id) P) (hfailed : ∀ s, P s → S.failed s)
include hP hfailed

theorem selfServedBuilt {tx : Tx} {onChainStartMs onChainEndMs : ℤ}
    {rest : Option SelfServedFire → Worker String} (htx : Q tx)
    (hrest : ∀ a s', (∀ fire ∈ a, Q fire.tx) → P s' →
      (rest a).wp M (EndsIn S.failed S.ended) s') (hs : P s) :
    (selfServedBuilt config plan tx onChainStartMs onChainEndMs rest).wp M
      (EndsIn S.failed S.ended) s := by
  refine wp_bind (steady_ask trivial) hP hfailed ?_ hs
  intro _ s₁ h₁
  refine wp_bind idle_fireTargetMs.steady hP hfailed (fun _ s₂ h₂ => ?_) h₁
  refine wp_bind (steady_ask trivial) hP hfailed (fun nowMs s₃ h₃ => ?_) h₂
  split
  · exact h.failPass (hfailed s₃ h₃)
  · refine wp_bind (steady_ask trivial) hP hfailed (fun nowMs s₄ h₄ => ?_) h₃
    split
    · exact h.releasePass (hfailed s₄ h₄)
    · refine hrest _ s₄ (fun fire hfire => ?_) h₄
      obtain rfl := Option.mem_some_iff.mp hfire
      exact htx

theorem selfServedGate {project : Project} {scheme : SignerScheme}
    {rest : Option SelfServedFire → Worker String} (hmakes : Makes M P Q plan project.chainId)
    (hrest : ∀ a s', (∀ fire ∈ a, Q fire.tx) → P s' →
      (rest a).wp M (EndsIn S.failed S.ended) s') (hs : P s) :
    (selfServedGate config plan fireUrls project wallet scheme rest).wp M
      (EndsIn S.failed S.ended) s := by
  have hnone : ∀ fire ∈ (none : Option SelfServedFire), Q fire.tx := fun fire hfire =>
    absurd hfire (Option.not_mem_none fire)
  obtain ⟨hguard, hnext⟩ := hP s (.buildSelfServedPublicMint fireUrls plan.stageId
    project.contractAddress wallet.address plan.quantity project.chainId
    (if scheme = .customExecutor then some wallet.address else none)) trivial hs
  refine Prog.wp_issue_bind hguard (fun answer hanswer => ?_) fun e he => hfailed _ (hnext _ he)
  have h₁ := hnext _ hanswer
  cases answer with
  | soldOut => exact h.failPass (hfailed _ h₁)
  | allowanceExhausted => exact h.failPass (hfailed _ h₁)
  | readFailed =>
    exact wp_bind (steady_record nofun nofun) hP hfailed (fun _ s₂ h₂ => hrest _ s₂ hnone h₂) h₁
  | notSelfServable => exact hrest _ _ hnone h₁
  | built tx onChainStartMs onChainEndMs requestedQuantity quantity =>
    have htx := hmakes.selfServed s _ _ _ _ _ _ tx _ _ _ _ hs hanswer
    dsimp only
    split
    · refine wp_bind (steady_record nofun nofun) hP hfailed (fun _ s₂ h₂ => ?_) h₁
      exact h.selfServedBuilt hP hfailed htx hrest h₂
    · exact h.selfServedBuilt hP hfailed htx hrest h₁

theorem precheckGate {selfServed : Option SelfServedFire} {stats : Option (Option MintStats)}
    {rest : ℕ → Worker String}
    (hrest : ∀ a s', P s' → (rest a).wp M (EndsIn S.failed S.ended) s') (hs : P s) :
    (precheckGate plan selfServed stats rest).wp M (EndsIn S.failed S.ended) s := by
  rcases selfServed with _ | selfServed
  · rcases stats with _ | _ | stats
    · exact hrest _ s hs
    · exact hrest _ s hs
    · rw [MintWorker.precheckGate]
      split
      -- no stage, no caps to ask for
      all_goals
        refine wp_bind (by first | exact .pure _ | exact steady_ask trivial) hP hfailed
          (fun caps s' h' => ?_) hs
        dsimp only
        split
        · exact h.failPass (hfailed s' h')
        · exact h.failPass (hfailed s' h')
        · exact hrest _ s' h'
  · exact hrest _ s hs

end

/-! ### The calldata -/

omit h in
theorem buildMintTx {nearFire : Bool} {deadline : ℤ} {target : MintTarget}
    (hP : M.Maintains (Cmd.Steady plan.id) P) (hmakes : Makes M P Q plan target.chainId)
    (hs : P s) : (buildMintTx config nearFire deadline target).wp M
      (fun r s' => P s' ∧ ∀ tx, r = .ok tx → Q tx) s := by
  rw [MintWorker.buildMintTx]
  split
  · refine Prog.wp_bind_of ((steady_ask (c := .now) trivial).wp_of hP hs) (fun nowMs s₁ h₁ => ?_)
      fun _ _ h' => ⟨h', Prog.of_error⟩
    obtain ⟨hguard, hnext⟩ := hP s₁ (.burstBuildOpenSeaMintTx target (max 0 (deadline - nowMs))
      config.mintSignatureBurstCadenceMs) trivial h₁
    refine Prog.wp_issue.mpr ⟨hguard, fun x hx => ⟨hnext x hx, ?_⟩⟩
    rintro tx rfl
    exact hmakes.burst s₁ target _ _ tx rfl h₁ hx
  · obtain ⟨hguard, hnext⟩ := hP s (.buildOpenSeaMintTx target) trivial hs
    refine Prog.wp_issue.mpr ⟨hguard, fun x hx => ⟨hnext x hx, ?_⟩⟩
    rintro tx rfl
    exact hmakes.paced s target tx rfl hs hx

omit h in
theorem buildDescending {build : ℕ → Worker Tx}
    (hbuild : ∀ quantity s, P s →
      (build quantity).wp M (fun r s' => P s' ∧ ∀ tx, r = .ok tx → Q tx) s) (hs : P s) :
    ∀ quantity, (buildDescending build quantity).wp M
      (fun r s' => P s' ∧ ∀ tx, r = .ok tx → Q tx) s := by
  intro quantity
  induction quantity generalizing s with
  | zero => exact ⟨hs, Prog.of_error⟩
  | succ quantity ih =>
    refine Prog.wp_bind.mpr (Prog.wp_attempt.mpr (Prog.wp_mono (hbuild (quantity + 1) s hs) ?_))
    rintro (error | tx) s₁ ⟨h₁, htx⟩
    · dsimp only
      split
      · exact ⟨h₁, Prog.of_error⟩
      · exact ih h₁
    · exact ⟨h₁, htx⟩

omit h in
/-- The transaction to mint with is one that the pass makes. -/
theorem calldata {nearFire : Bool} {slug : String} {chainId quantity : ℕ}
    {selfServed : Option SelfServedFire} (hP : M.Maintains (Cmd.Steady plan.id) P)
    (hmakes : Makes M P Q plan chainId) (hself : ∀ fire ∈ selfServed, Q fire.tx) (hs : P s) :
    (calldata config plan nearFire slug chainId wallet selfServed quantity).wp M
      (fun r s' => P s' ∧ ∀ tx, r = .ok tx → Q tx) s := by
  refine Prog.wp_bind_of ((steady_ask (c := .now) trivial).wp_of hP hs) (fun nowMs s₁ h₁ => ?_)
    fun _ _ h' => ⟨h', Prog.of_error⟩
  rcases selfServed with _ | selfServed
  · dsimp only
    split
    · next tx hfresh =>
      refine ⟨h₁, ?_⟩
      rintro _ ⟨⟩
      refine hmakes.cached tx ?_
      rw [freshCachedTx] at hfresh
      split at hfresh
      · split at hfresh
        · exact hfresh
        · exact absurd hfresh.symm (Option.some_ne_none tx)
      · exact absurd hfresh.symm (Option.some_ne_none tx)
    · refine Prog.wp_bind_of ((steady_ask (c := .now) trivial).wp_of hP h₁)
        (fun startMs s₂ h₂ => ?_) fun _ _ h' => ⟨h', Prog.of_error⟩
      exact buildDescending (fun quantity s₃ h₃ => buildMintTx hP hmakes h₃) h₂ quantity
  · refine ⟨h₁, ?_⟩
    rintro _ ⟨⟩
    exact hself selfServed rfl

/-! ### The idempotency gate -/

/-- The gate either ends the pass or lets it through to the rest. -/
theorem idempotencyGate {rest : Worker String} (hP : M.Maintains Cmd.Gates P)
    (hfailed : ∀ s, P s → S.failed s)
    (hexecuted : ∀ s, P s → (markMintPlanExecuted plan).wp M (EndsIn S.failed S.ended) s)
    (hrest : ∀ s', P s' → rest.wp M (EndsIn S.failed S.ended) s') (hs : P s) :
    (MintWorker.idempotencyGate plan fireUrls rest).wp M (EndsIn S.failed S.ended) s := by
  have hread : (latestBroadcastAttempt plan).Only (S := signature) Cmd.Gates := by
    refine .bind (Prog.Only.issue trivial) fun row => ?_
    split
    · exact .pure _
    · exact .pure _
  refine Prog.wp_bind_of (hread.wp_of hP hs) ?_ fun _ s' hs' => hfailed s' hs'
  rintro (_ | ⟨txHash, attemptAt⟩) s₁ h₁
  · exact hrest s₁ h₁
  · have hlook : (resolveTxOutcome fireUrls txHash).Only (S := signature) Cmd.Gates :=
      (looks_resolveTxOutcome fireUrls).mono fun c hc => by
        cases c <;> first | exact trivial | exact hc
    refine Prog.wp_bind_of (hlook.wp_of hP h₁) ?_ fun _ s' hs' => hfailed s' hs'
    intro outcome s₂ h₂
    cases outcome with
    | success => exact wp_return (hexecuted s₂ h₂)
    | reverted => exact hrest s₂ h₂
    | unknown =>
      obtain ⟨hguard, hnext⟩ := hP s₂ .now trivial h₂
      refine Prog.wp_issue_bind hguard (fun nowMs hx => ?_) fun e he => hfailed _ (hnext _ he)
      split
      · exact h.releasePass (hfailed _ (hnext _ hx))
      · exact hrest _ (hnext _ hx)

/-! ### From the gate on -/

/-- What the server-side signer of a fire meets, the pipeline meets. -/
theorem firePipeline {fire : Fire} {tx : Tx}
    (hserver : ∀ s', Passed config plan fire.signer tx → fire.signer.scheme ≠ .browserWallet →
      S.chosen fire.signer s' → (runServerFire config plan fire tx).wp M (EndsIn S.failed S.ended) s')
    (hs : S.chosen fire.signer s) :
    (firePipeline config plan fire tx).wp M (EndsIn S.failed S.ended) s := by
  have hchosen := h.chosen fire.signer
  have hfailed := h.failed_of_chosen fire.signer
  refine Prog.wp_bind_of (runExecutionPipeline_wp (hchosen.mono fun _ hc => hc.steady)
    idle_pipelineSimulate hs) ?_ fun _ s' hs' => hfailed s' hs'.1
  rintro outcome s₁ ⟨h₁, hands⟩
  have hpassed : ∀ tx', (tx' = tx ∧ config.liveExecutionEnabled = true ∧
      ∃ now, canFireMintPlan
        { status := .armed, armedUntil := plan.armedUntil
          signerCeilingWei := fire.signer.ceilingWei
          perPlanCeilingWei := plan.perPlanCeilingWei, spentWei := 0
          txValueWei := tx.valueWei } now = .ok ()) → Passed config plan fire.signer tx' := by
    rintro _ ⟨rfl, hlive, now, hfire⟩
    obtain ⟨hceiling, hvalue⟩ := ceilings_of_canFire hfire
    exact ⟨hlive, (Nat.zero_add _).symm.trans_le hvalue, hceiling⟩
  have hsettle : (settleOutcome config plan fire outcome).wp M (EndsIn S.failed S.ended) s₁ := by
    have hf := hfailed s₁ h₁
    have hands := hands outcome rfl
    cases outcome with
    | blockedSimulation => exact h.noted nofun nofun h.release hf
    | shadowWouldFire => exact h.noted nofun nofun h.release hf
    | blockedPolicy => exact h.noted nofun nofun h.fail hf
    | blockedSchemeNotImplemented => exact h.noted nofun nofun h.fail hf
    | readyForBrowserSignature tx' =>
      exact h.prompt fire.signer tx' s₁ (hpassed tx' hands.1) hands.2 h₁
    | readyForDelegatedSignature tx' gasEstimate =>
      obtain rfl := hands.1.1
      exact hserver s₁ (hpassed tx' hands.1) hands.2 h₁
  exact wp_return hsettle

theorem fireClaimed_of {rpcUrl : String} {nearFire : Bool} {pre : Prefetch}
    {project : Option Project} {wallet : Option Wallet}
    (hmakes : ∀ choice, ∀ p ∈ project, Makes M (S.chosen choice) Q plan p.chainId)
    (hserver : ∀ fire tx s', Q tx → Passed config plan fire.signer tx →
      fire.signer.scheme ≠ .browserWallet → fire.rpcUrl = rpcUrl → fire.fireUrls = fireUrls →
      S.chosen fire.signer s' →
      (runServerFire config plan fire tx).wp M (EndsIn S.failed S.ended) s')
    (hs : S.gated wallet s) :
    (fireClaimed config plan fireUrls rpcUrl nearFire pre project wallet).wp M
      (EndsIn S.failed S.ended) s := by
  have hf := h.failed_of_gated wallet s hs
  rcases project with _ | project
  · exact h.recordPass hf
  · rcases wallet with _ | wallet
    · exact h.recordPass hf
    · rw [MintWorker.fireClaimed]
      split
      · exact h.recordPass hf
      · refine Prog.wp_bind_of (h.resolve wallet s hs) ?_ fun _ _ hs' => hs'
        intro signer s₁ h₁
        have hchosen := h.chosen signer
        have hfailed := h.failed_of_chosen signer
        have hmakes := hmakes signer project rfl
        refine h.selfServedGate hchosen hfailed hmakes (fun selfServed s₂ hself h₂ => ?_) h₁
        refine h.precheckGate hchosen hfailed (fun quantity s₃ h₃ => ?_) h₂
        refine Prog.wp_bind_of (calldata hchosen hmakes hself h₃) (fun tx s₄ h₄ => ?_)
          fun _ s' hs' => hfailed s' hs'.1
        exact h.firePipeline (fun s' hpassed hscheme hs' =>
          hserver _ tx s' (h₄.2 tx rfl) hpassed hscheme rfl rfl hs') h₄.1

theorem fireClaimed {rpcUrl : String} {nearFire : Bool} {pre : Prefetch}
    {project : Option Project} {wallet : Option Wallet}
    (hserver : ∀ fire tx s', Passed config plan fire.signer tx →
      fire.signer.scheme ≠ .browserWallet → S.chosen fire.signer s' →
      (runServerFire config plan fire tx).wp M (EndsIn S.failed S.ended) s')
    (hs : S.gated wallet s) :
    (fireClaimed config plan fireUrls rpcUrl nearFire pre project wallet).wp M
      (EndsIn S.failed S.ended) s :=
  h.fireClaimed_of (Q := fun _ => True)
    (fun _ _ _ => ⟨fun _ _ => trivial, fun _ _ _ _ _ _ _ _ _ _ _ _ _ _ => trivial,
      fun _ _ _ _ _ _ => trivial, fun _ _ _ _ _ _ _ _ => trivial⟩)
    (fun fire tx s' _ hpassed hscheme _ _ hs' => hserver fire tx s' hpassed hscheme hs') hs

/-! ### The catch block -/

theorem rescueMintedOut {urls : List String} {target : StatsTarget} {message : String}
    (hs : S.failed s) :
    (rescueMintedOut plan urls target message).wp M (EndsIn S.failed S.ended) s := by
  have hself : ∀ s, S.failed s → S.failed s := fun _ hs => hs
  have hrest : ∀ targetMs supply s', S.failed s' → (do
      let nowMs ← ask .now
      if mintedOutIsTerminal nowMs targetMs supply then
        MintWorker.failPass plan (slice200 ("minted_out: " ++ message)) "minted_out"
      else
        record plan
          { status := .failed, errorCode := some (slice200 ("minted_out_pre_open: " ++ message)) }
        releaseMintPlanToArmed plan
        return "minted_out_pre_open" : Worker String).wp M (EndsIn S.failed S.ended) s' := by
    intro targetMs supply s' hs'
    refine wp_bind (steady_ask trivial) h.failed hself (fun nowMs s₁ h₁ => ?_) hs'
    split
    · exact h.failPass h₁
    · exact h.noted nofun nofun (fun s₂ h₂ => h.releasePass h₂) h₁
  refine wp_bind idle_fireTargetMs.steady h.failed hself (fun targetMs s₁ h₁ => ?_) hs
  rcases target with _ | ⟨contract, minter⟩
  · exact hrest targetMs none s₁ h₁
  · dsimp only
    split
    · exact hrest targetMs none s₁ h₁
    · exact wp_bind idle_readStats.steady h.failed hself (fun supply s₂ h₂ => hrest _ supply s₂ h₂)
        h₁

theorem rescuePass {urls : List String} {target : StatsTarget} {error : Thrown}
    (hs : S.failed s) :
    (rescuePass plan urls target error).wp M (EndsIn S.failed S.ended) s := by
  rw [MintWorker.rescuePass]
  generalize (if error.isError then error.message else "unknown_error") = message
  split
  · exact h.rescueMintedOut hs
  · split
    · exact h.failPass hs
    · split
      · exact h.failPass hs
      · split
        · exact h.failPass hs
        -- the release may fail, and is not tried again
        · refine h.noted nofun nofun (fun s' hs' => ?_) hs
          exact Prog.wp_bind_of (h.ignored (h.release s' hs')) (fun _ _ hs => hs.2)
            fun _ _ hs => nomatch hs.1

/-- What the gate meets, the pass meets.  `U` is what is known of the registry's endpoints, `L`
of the project. -/
theorem firePlan_of {U : List String → Prop} {L : Option Project → Prop}
    (hurls : ∀ s', S.begun s' →
      (resolveBroadcastRpcUrls config.robinhoodChainId config.rpcUrl).wp M
        (fun r s'' => S.begun s'' ∧ ∀ urls, r = .ok urls → U urls) s')
    (hload : ∀ s', S.begun s' → (loadPlan plan).wp M
      (fun r _ => ∀ project wallet, r = .ok (project, wallet) → L project) s')
    (hgate : ∀ registryUrls rpcUrl nearFire pre project wallet s', U registryUrls → L project →
      rpcUrl ∈ mintRpcUrls config registryUrls → S.loaded wallet s' →
      (MintWorker.idempotencyGate plan (mintRpcUrls config registryUrls)
        (MintWorker.fireClaimed config plan (mintRpcUrls config registryUrls) rpcUrl nearFire pre
          project wallet)).wp M (EndsIn S.failed S.ended) s')
    (hs : S.begun s) : (firePlan config plan).wp M (EndsIn S.failed S.ended) s := by
  have hrescue : ∀ {urls target e s'}, S.failed s' →
      (MintWorker.rescuePass plan urls target e).wp M (EndsIn S.failed S.ended) s' :=
    fun hs' => h.rescuePass hs'
  refine Prog.wp_bind.mpr (Prog.wp_attempt.mpr (Prog.wp_mono (hurls s hs) ?_))
  rintro (e | registryUrls) s₁ ⟨h₁, hU⟩
  · exact hrescue (h.failed_of_begun s₁ h₁)
  · have hU := hU registryUrls rfl
    dsimp only
    split
    · exact Prog.wp_tryCatch_of (h.recordPass (h.failed_of_begun s₁ h₁)) (fun _ _ h => h)
        fun _ _ h => hrescue h
    · next rpcUrl urls hfire =>
      have hmem : rpcUrl ∈ mintRpcUrls config registryUrls := hfire ▸ List.mem_cons_self
      rw [← hfire]
      refine Prog.wp_bind.mpr (Prog.wp_attempt.mpr
        (Prog.wp_mono (Prog.wp_and (h.load s₁ h₁) (hload s₁ h₁)) ?_))
      rintro (e | ⟨project, wallet⟩) s₂ ⟨h₂, hL⟩
      · exact hrescue h₂
      · have hloaded := h.loaded wallet
        have hfailed := h.failed_of_loaded wallet
        refine Prog.wp_tryCatch_of (R := EndsIn S.failed S.ended) ?_ (fun _ _ h => h)
          fun _ _ h => hrescue h
        refine wp_bind idle_isNearFireInstant.steady hloaded hfailed
          (fun nearFire s₃ h₃ => ?_) h₂
        refine wp_bind idle_prefetch.steady hloaded hfailed (fun pre s₄ h₄ => ?_) h₃
        exact hgate registryUrls _ _ _ _ _ s₄ hU (hL project wallet rfl) hmem h₄

theorem firePlan {U : List String → Prop}
    (hurls : ∀ s', S.begun s' →
      (resolveBroadcastRpcUrls config.robinhoodChainId config.rpcUrl).wp M
        (fun r s'' => S.begun s'' ∧ ∀ urls, r = .ok urls → U urls) s')
    (hgate : ∀ registryUrls rpcUrl nearFire pre project wallet s', U registryUrls →
      S.loaded wallet s' → (MintWorker.idempotencyGate plan (mintRpcUrls config registryUrls)
        (MintWorker.fireClaimed config plan (mintRpcUrls config registryUrls) rpcUrl nearFire pre
          project wallet)).wp M (EndsIn S.failed S.ended) s')
    (hs : S.begun s) : (firePlan config plan).wp M (EndsIn S.failed S.ended) s := by
  refine h.firePlan_of (L := fun _ => True) hurls (fun s' hs' => ?_) ?_ hs
  · exact Prog.wp_mono (h.load s' hs') fun _ _ _ _ _ _ => trivial
  · exact fun registryUrls rpcUrl nearFire pre project wallet s' hU _ _ hs' =>
      hgate registryUrls rpcUrl nearFire pre project wallet s' hU hs'

end PassKeeps

end

end MintWorker
