/-
What a pass knows of the ceilings it works under.

`policyLocal` follows one pass: the plan it is at, the ceilings it has read, the signers it has
read for that plan, and the raw transactions it has in hand for it.  It demands that a pass
signs, sends and opens keys only while live execution is enabled; that what it signs or prompts
the owner for is within the plan's ceiling, and the plan's ceiling within the executor's; and
that it sends and stores only what it has in hand.

* `firePass_policy`, `presignPass_policy` — the passes keep to it, whatever they are answered.
-/
import HoodMint.MintRuns
import HoodMint.ServerStages

namespace MintWorker

open Effect

/-- The plan a pass is at, the ceilings of the plans it has read, the signers it has read for
the plan, and the raw transactions signed for it that the pass may send. -/
structure PolicyState where
  plan : Option String
  ceilings : List (String × ℕ)
  signers : List Signer
  inHand : List String

/-- The signer is an executor whose recorded ceiling, when there is one, covers the plan's. -/
def Signer.Covers (s : Signer) (ceilingWei : ℕ) : Prop :=
  s.status = .active ∧ s.scheme = .customExecutor ∧ ∀ w ∈ s.onchainSpendCeilingWei, ceilingWei ≤ w

namespace PolicyState

/-- Before a claim. -/
def idle : PolicyState := ⟨none, [], [], []⟩

/-- The pass is at this plan, and has read this ceiling of it. -/
def At (t : PolicyState) (planId : String) (ceilingWei : ℕ) : Prop :=
  t.plan = some planId ∧ (planId, ceilingWei) ∈ t.ceilings

/-- The value is within the ceiling of the plan the pass is at. -/
def Within (t : PolicyState) (valueWei : ℕ) : Prop :=
  ∃ planId ceilingWei, t.At planId ceilingWei ∧ valueWei ≤ ceilingWei

/-- And an executor the pass has read covers that ceiling. -/
def WithinExecutor (t : PolicyState) (valueWei : ℕ) : Prop :=
  ∃ planId ceilingWei, t.At planId ceilingWei ∧ valueWei ≤ ceilingWei ∧
    ∃ s ∈ t.signers, s.Covers ceilingWei

end PolicyState

/-- One pass and its ceilings. -/
def policyLocal (live : Bool) : Monitor signature Thrown PolicyState where
  guard t c :=
    match c with
    | .openWalletKey _ | .getCredentialSecret _ | .operatorAddress _ => live = true
    | .signManagedMintTransaction tx _ => live = true ∧ t.Within tx.tx.valueWei
    | .signExecutorTransaction tx _ => live = true ∧ t.WithinExecutor tx.inner.valueWei
    | .raceRawTransaction _ rawTx => live = true ∧ rawTx ∈ t.inHand
    | .broadcastRawTransaction _ rawTx => live = true ∧ rawTx ∈ t.inHand
    | .selectPresigned planId => ∃ ceilingWei, t.At planId ceilingWei
    | .savePresignedTx planId rawTx _ _ => t.plan = some planId ∧ rawTx ∈ t.inHand
    | .recordExecutionAttempt planId attempt => attempt.status = .awaitingSignature →
        t.plan = some planId ∧ ∀ tx ∈ attempt.pendingTx, t.Within tx.valueWei
    | _ => True
  allowed _ _ _ := True
  next t c x :=
    match c, x with
    | .claimArmedMintPlan .., .ok (some plan) =>
      ⟨some plan.id, (plan.id, plan.perPlanCeilingWei) :: t.ceilings, [], []⟩
    | .armedManagedPlansForPresign _, .ok plans =>
      { t with ceilings := plans.map (fun c => (c.planId, c.perPlanCeilingWei)) ++ t.ceilings }
    | .underfundedRecheckAt planId, .ok _ => { t with plan := some planId, inHand := [] }
    | .selectSigner _, .ok (some signer) => { t with signers := signer :: t.signers }
    | .selectPresigned _, .ok (some row) =>
      { t with inHand := row.presignedRawTx.toList ++ t.inHand }
    | .signManagedMintTransaction .., .ok signed => { t with inHand := signed.rawTx :: t.inHand }
    | .signExecutorTransaction .., .ok signed => { t with inHand := signed.rawTx :: t.inHand }
    | _, _ => t

/-- Commands the policy has nothing to say of, or that need live execution at most. -/
def Cmd.Sober (live : Bool) : Cmd → Prop
  | .claimArmedMintPlan .. | .armedManagedPlansForPresign _ | .underfundedRecheckAt _
  | .selectPresigned _ | .savePresignedTx .. | .signManagedMintTransaction ..
  | .signExecutorTransaction .. | .raceRawTransaction .. | .broadcastRawTransaction .. => False
  | .openWalletKey _ | .getCredentialSecret _ | .operatorAddress _ => live = true
  | .recordExecutionAttempt _ attempt => attempt.status ≠ .awaitingSignature
  | _ => True

section

variable {live : Bool} {α β : Type} {plan : Plan} {config : Config} {wallet : Wallet} {tx : Tx}
  {t : PolicyState} {P : PolicyState → Prop} {planId : String}

/-- Such a command adds a signer to what has been read, at most. -/
theorem sober_maintains (hP : ∀ t signer, P t → P { t with signers := signer :: t.signers }) :
    (policyLocal live).Maintains (Cmd.Sober live) P := by
  intro t c hc h
  cases c with
  | selectSigner =>
    refine ⟨trivial, ?_⟩
    rintro (e | _ | signer) _
    · exact h
    · exact h
    · exact hP t signer h
  | recordExecutionAttempt id attempt => exact ⟨fun hs => absurd hs hc, fun _ _ => h⟩
  | openWalletKey => exact ⟨hc, fun _ _ => h⟩
  | getCredentialSecret => exact ⟨hc, fun _ _ => h⟩
  | operatorAddress => exact ⟨hc, fun _ _ => h⟩
  | _ => first | exact absurd hc id | exact ⟨trivial, fun _ _ => h⟩

abbrev Sober (live : Bool) (p : Worker α) : Prop := p.Only (S := signature) (Cmd.Sober live)

theorem sober_ask {c : Cmd} (h : c.Sober live) : Sober live (ask c) := Prog.Only.issue h

theorem Cmd.Steady.sober {c : Cmd} (h : c.Steady planId) : c.Sober live := by
  cases c <;> first | exact trivial | exact h.2.2 | exact absurd h id

theorem Cmd.Working.sober {c : Cmd} (hlive : live = true) (h : c.Working planId) :
    c.Sober live := by
  cases c <;> first | exact trivial | exact hlive | exact h.2 | exact absurd h id

theorem Cmd.Surveys.sober {c : Cmd} (h : c.Surveys) : c.Sober live := by
  cases c <;> first | exact trivial | exact absurd h id

/-! ### The stages -/

/-- The stages of a pass over the plan. -/
def policyStages (plan : Plan) : Stages PolicyState where
  begun t := t.At plan.id plan.perPlanCeilingWei
  loaded _ t := t.At plan.id plan.perPlanCeilingWei
  gated _ t := t.At plan.id plan.perPlanCeilingWei
  chosen choice t := t.At plan.id plan.perPlanCeilingWei ∧ ∀ s ∈ choice.delegated, s ∈ t.signers ∧
    s.status = .active ∧ s.scheme = .customExecutor ∧
    choice.ceilingWei = s.onchainSpendCeilingWei.getD plan.perPlanCeilingWei
  failed t := t.At plan.id plan.perPlanCeilingWei
  ended _ := True

/-- The signer a row stands for, and where its ceiling comes from. -/
theorem delegated_signerChoice {row : Option Signer} {s : Signer}
    (h : s ∈ (signerChoice plan wallet row).delegated) :
    s ∈ row ∧ s.status = .active ∧ s.scheme = .customExecutor ∧
      (signerChoice plan wallet row).ceilingWei =
        s.onchainSpendCeilingWei.getD plan.perPlanCeilingWei := by
  cases hrow : row.filter fun s => s.status = .active with
  | none =>
    have hnone : (signerChoice plan wallet row).delegated = none := by
      simp only [signerChoice, hrow]
      split
      · rfl
      · rfl
    rw [hnone] at h
    exact absurd h (Option.not_mem_none _)
  | some s' =>
    obtain ⟨hmem, hactive⟩ := Option.filter_eq_some_iff.mp hrow
    have hdelegated : (signerChoice plan wallet row).delegated =
        if s'.scheme = .customExecutor then some s' else none := by
      simp only [signerChoice, hrow]
      split
      · rfl
      · rfl
    have hceiling : (signerChoice plan wallet row).ceilingWei =
        s'.onchainSpendCeilingWei.getD plan.perPlanCeilingWei := by
      simp only [signerChoice, hrow]
      split
      · rfl
      · rfl
    rw [hdelegated] at h
    split at h
    · next hscheme =>
      obtain rfl := Option.mem_some_iff.mp h
      exact ⟨hmem, of_decide_eq_true hactive, hscheme, hceiling⟩
    · exact absurd h (Option.not_mem_none _)

theorem resolveSigner_policy (h : t.At plan.id plan.perPlanCeilingWei) :
    (resolveSigner plan wallet).wp (policyLocal live) (policyStages plan).Resolved t := by
  have hnone : ∀ t' : PolicyState, t'.At plan.id plan.perPlanCeilingWei →
      (policyStages plan).chosen (signerChoice plan wallet none) t' := by
    intro t' h'
    refine ⟨h', fun s hs => ?_⟩
    exact absurd (delegated_signerChoice hs).1 (Option.not_mem_none _)
  rw [resolveSigner]
  split
  · exact hnone t h
  · refine Prog.wp_bind.mpr (Prog.wp_issue.mpr ⟨trivial, ?_⟩)
    rintro (e | _ | signer) _
    · exact h
    · exact hnone t h
    · refine ⟨h, fun s hs => ?_⟩
      obtain ⟨hrow, hactive, hscheme, hceiling⟩ := delegated_signerChoice hs
      obtain rfl := Option.mem_some_iff.mp hrow
      exact ⟨List.mem_cons_self, hactive, hscheme, hceiling⟩

theorem release_policy (h : t.At plan.id plan.perPlanCeilingWei) :
    (releaseMintPlanToArmed plan).wp (policyLocal live)
      (EndsIn (fun t => t.At plan.id plan.perPlanCeilingWei) fun _ => True) t := by
  refine Prog.wp_bind.mpr (Prog.wp_issue.mpr ⟨trivial, ?_⟩)
  rintro (e | now) _
  · exact h
  · refine Prog.wp_bind.mpr (Prog.wp_issue.mpr ⟨trivial, ?_⟩)
    rintro (e | found) _
    · exact h
    · exact trivial

theorem fail_policy (h : t.At plan.id plan.perPlanCeilingWei) :
    (failPlanAndNotify plan).wp (policyLocal live)
      (EndsIn (fun t => t.At plan.id plan.perPlanCeilingWei) fun _ => True) t := by
  refine Prog.wp_bind.mpr (Prog.wp_issue.mpr ⟨trivial, ?_⟩)
  rintro (e | found) _
  · exact h
  · refine Prog.wp_issue.mpr ⟨trivial, ?_⟩
    rintro (e | _) _
    · exact h
    · exact trivial

theorem promptOwner_policy (hvalue : tx.valueWei ≤ plan.perPlanCeilingWei)
    (h : t.At plan.id plan.perPlanCeilingWei) :
    (promptOwner plan tx).wp (policyLocal live)
      (EndsIn (fun t => t.At plan.id plan.perPlanCeilingWei) fun _ => True) t := by
  have hguard : ∀ tx' ∈ some tx, t.Within tx'.valueWei := by
    intro tx' htx
    obtain rfl := Option.mem_some_iff.mp htx
    exact ⟨plan.id, plan.perPlanCeilingWei, h, hvalue⟩
  refine Prog.wp_bind.mpr (Prog.wp_issue.mpr ⟨fun _ => ⟨h.1, hguard⟩, ?_⟩)
  rintro (e | _) _
  · exact h
  · refine Prog.wp_issue.mpr ⟨trivial, ?_⟩
    rintro (e | _) _
    · exact h
    · exact trivial

theorem policyLocal_passKeeps :
    PassKeeps (policyLocal live) config plan (policyStages plan) := by
  have hsteady : (policyLocal live).Maintains (Cmd.Steady plan.id)
      fun t => t.At plan.id plan.perPlanCeilingWei :=
    (sober_maintains fun _ _ h => h).mono fun _ hc => hc.sober
  exact
    { begun := hsteady, loaded := fun _ => hsteady, failed := hsteady
      chosen := fun _ => (sober_maintains fun _ _ h =>
        ⟨h.1, fun s hs => ⟨List.mem_cons_of_mem _ (h.2 s hs).1, (h.2 s hs).2⟩⟩).mono
          fun _ hc => hc.sober
      failed_of_begun := fun _ h => h, failed_of_loaded := fun _ _ h => h
      failed_of_gated := fun _ _ h => h, failed_of_chosen := fun _ _ h => h.1
      ended_of_failed := fun _ _ => trivial
      load := fun s h => Prog.wp_mono (idle_loadPlan.steady.wp_of hsteady h)
        fun r s' hs' => by cases r <;> exact hs'
      resolve := fun _ _ h => resolveSigner_policy h
      release := fun _ h => release_policy h
      fail := fun _ h => fail_policy h
      prompt := fun _ _ _ hpassed _ h => promptOwner_policy hpassed.value h.1 }

/-! ### The signers on the server -/

/-- The pass is at the plan, and its executor covers the plan's ceiling. -/
def PolicyState.Serves (t : PolicyState) (plan : Plan) (signer : Option Signer) : Prop :=
  t.At plan.id plan.perPlanCeilingWei ∧
    ∀ s ∈ signer, s ∈ t.signers ∧ s.Covers plan.perPlanCeilingWei

theorem policyLocal_serverKeeps {signer : Option Signer} (hlive : live = true)
    (hvalue : tx.valueWei ≤ plan.perPlanCeilingWei) :
    ServerKeeps (policyLocal live) plan tx signer (fun t => t.Serves plan signer) (fun _ => True)
      fun rawTx t => t.Serves plan signer ∧ rawTx ∈ t.inHand := by
  -- signers that are read later change nothing
  have hkeep : ∀ (t : PolicyState) (s : Signer), t.Serves plan signer →
      PolicyState.Serves { t with signers := s :: t.signers } plan signer :=
    fun _ _ h => ⟨h.1, fun s hs => ⟨List.mem_cons_of_mem _ (h.2 s hs).1, (h.2 s hs).2⟩⟩
  have hrelease : ∀ t : PolicyState, t.Serves plan signer →
      (releaseMintPlanToArmed plan).wp (policyLocal live)
        (EndsIn (fun t => t.Serves plan signer) fun _ => True) t := by
    intro t h
    refine Prog.wp_bind.mpr (Prog.wp_issue.mpr ⟨trivial, ?_⟩)
    rintro (e | now) _
    · exact h
    · refine Prog.wp_bind.mpr (Prog.wp_issue.mpr ⟨trivial, ?_⟩)
      rintro (e | found) _
      · exact h
      · exact trivial
  -- a stored blob comes into hand as it is read
  have hblob : ∀ t : PolicyState, t.Serves plan signer →
      (ask (.selectPresigned plan.id)).wp (policyLocal live) (fun r t' => t'.Serves plan signer ∧
        ∀ row rawTx, r = .ok (some row) → row.presignedRawTx = some rawTx →
          t'.Serves plan signer ∧ rawTx ∈ t'.inHand) t := by
    intro t h
    refine Prog.wp_issue.mpr ⟨⟨_, h.1⟩, ?_⟩
    rintro (e | _ | row) _
    · exact ⟨h, nofun⟩
    · exact ⟨h, nofun⟩
    · refine ⟨h, ?_⟩
      rintro _ rawTx ⟨⟩ hraw
      exact ⟨h, List.mem_append_left _ (by rw [hraw]; exact List.mem_singleton_self _)⟩
  exact
    { works := (sober_maintains hkeep).mono fun _ hc => hc.sober hlive
      holds := fun _ => (sober_maintains fun t s h => ⟨hkeep t s h.1, h.2⟩).mono
        fun _ hc => hc.sober hlive
      works_of_holds := fun _ _ h => h.1
      ends := fun _ _ => trivial
      release := hrelease
      blob := hblob
      sign := by
        rintro managed key t rfl h
        refine Prog.wp_issue.mpr ⟨⟨hlive, _, _, h.1, hvalue⟩, ?_⟩
        rintro (e | signed) _
        · exact ⟨h, nofun⟩
        · refine ⟨h, ?_⟩
          rintro _ ⟨⟩
          exact ⟨h, List.mem_cons_self⟩
      signDelegated := by
        rintro executor key t hsigner rfl h
        obtain ⟨s, hs⟩ := Option.isSome_iff_exists.mp hsigner
        obtain ⟨hread, hcovers⟩ := h.2 s hs
        refine Prog.wp_issue.mpr ⟨⟨hlive, _, _, h.1, hvalue, s, hread, hcovers⟩, ?_⟩
        rintro (e | signed) _
        · exact ⟨h, nofun⟩
        · refine ⟨h, ?_⟩
          rintro _ ⟨⟩
          exact ⟨h, List.mem_cons_self⟩
      race := fun _ _ _ h => Prog.wp_issue.mpr ⟨⟨hlive, h.2⟩, fun _ _ => h.1⟩
      broadcast := fun _ _ _ h => Prog.wp_issue.mpr ⟨⟨hlive, h.2⟩, fun _ _ => h.1⟩ }

/-! ### The fire pass -/

theorem idempotencyGate_policy (config : Config) {fireUrls : List String} {rest : Worker String}
    (hrest : ∀ t', t'.At plan.id plan.perPlanCeilingWei → rest.wp (policyLocal live)
      (EndsIn (fun t => t.At plan.id plan.perPlanCeilingWei) fun _ => True) t')
    (h : t.At plan.id plan.perPlanCeilingWei) :
    (idempotencyGate plan fireUrls rest).wp (policyLocal live)
      (EndsIn (fun t => t.At plan.id plan.perPlanCeilingWei) fun _ => True) t := by
  have hkeep : (policyLocal live).Maintains (Cmd.Sober live)
      fun t => t.At plan.id plan.perPlanCeilingWei := sober_maintains fun _ _ h => h
  have hkeeps : PassKeeps (policyLocal live) config plan (policyStages plan) :=
    policyLocal_passKeeps
  refine hkeeps.idempotencyGate (hkeep.mono fun c hc => ?_) (fun _ h => h) (fun t' h' => ?_) hrest h
  · cases c <;> first | exact trivial | exact absurd hc id
  · refine Prog.wp_bind.mpr (Prog.wp_issue.mpr ⟨trivial, ?_⟩)
    rintro (e | found) _
    · exact h'
    · exact trivial

/-- The signer on the server is handed a transaction that has passed the policy. -/
theorem firePlan_policy (h : t.At plan.id plan.perPlanCeilingWei) :
    (firePlan config plan).wp (policyLocal config.liveExecutionEnabled)
      (EndsIn (fun t => t.At plan.id plan.perPlanCeilingWei) fun _ => True) t := by
  have hkeeps : PassKeeps (policyLocal config.liveExecutionEnabled) config plan
      (policyStages plan) := policyLocal_passKeeps
  refine hkeeps.firePlan (U := fun _ => True) (fun t' h' => ?_) ?_ h
  · refine Prog.wp_mono (idle_resolveBroadcastRpcUrls.steady.wp_of hkeeps.begun h') ?_
    exact fun _ _ hs => ⟨hs, fun _ _ => trivial⟩
  · intro registryUrls rpcUrl nearFire pre project wallet t' _ h'
    refine idempotencyGate_policy config (fun t₁ h₁ => ?_) h'
    have hgated : (policyStages plan).gated wallet t₁ := h₁
    refine hkeeps.fireClaimed (fun fire tx t₂ hpassed _ h₂ => ?_) hgated
    have hserves : t₂.Serves plan fire.signer.delegated := by
      refine ⟨h₂.1, fun s hs => ?_⟩
      obtain ⟨hread, hactive, hscheme, hceiling⟩ := h₂.2 s hs
      refine ⟨hread, hactive, hscheme, fun w hw => ?_⟩
      have hpolicy := hpassed.ceiling
      rw [hceiling, Option.mem_def.mp hw, Option.getD_some] at hpolicy
      exact hpolicy
    refine Prog.wp_mono ((policyLocal_serverKeeps hpassed.live hpassed.value).runServerFire hserves) ?_
    rintro (e | _) t₃ h₃
    · exact h₃.1
    · exact trivial

/-- **The fire pass.** -/
theorem firePass_policy :
    (firePass config).wp (policyLocal config.liveExecutionEnabled) (fun _ _ => True) t := by
  refine Prog.wp_bind_of (R := fun _ _ => True) ?_ (fun _ _ _ => trivial) fun _ _ _ => trivial
  refine Prog.wp_bind.mpr (Prog.wp_issue.mpr ⟨trivial, ?_⟩)
  rintro (e | now) _
  · exact trivial
  · refine Prog.wp_bind.mpr (Prog.wp_issue.mpr ⟨trivial, ?_⟩)
    rintro (e | expired) _
    · exact trivial
    · refine Prog.wp_bind.mpr (Prog.wp_issue.mpr ⟨trivial, ?_⟩)
      rintro (e | _ | plan) _
      · exact trivial
      · exact trivial
      · refine Prog.wp_bind_of (firePlan_policy ⟨rfl, List.mem_cons_self⟩) ?_ ?_
        · exact fun _ _ _ => trivial
        · exact fun _ _ _ => trivial

/-! ### The pre-sign pass -/

variable {candidate : PresignCandidate} {rpcUrl : String} {localNowMs clockOffsetMs : ℤ}

/-- The pass is at the candidate's plan. -/
abbrev PolicyState.AtCandidate (t : PolicyState) (candidate : PresignCandidate) : Prop :=
  t.At candidate.planId candidate.perPlanCeilingWei

variable (candidate) in
/-- What is asked about the candidate, and the rest. -/
theorem surveys_bind_policy {p : Worker α} {f : α → Worker Unit} (hp : Surveys p)
    (hf : ∀ a t', t'.AtCandidate candidate →
      (f a).wp (policyLocal live) (fun _ _ => True) t')
    (h : t.AtCandidate candidate) : (p >>= f).wp (policyLocal live) (fun _ _ => True) t := by
  have hkeep : (policyLocal live).Maintains Cmd.Surveys fun t => t.AtCandidate candidate :=
    (sober_maintains fun _ _ h => h).mono fun _ hc => hc.sober
  exact Prog.wp_bind_of (hp.wp_of hkeep h) hf fun _ _ _ => trivial

theorem signPresign_policy {fees : FeeContext} {key : String} (hlive : live = true)
    (hvalue : tx.valueWei ≤ candidate.perPlanCeilingWei) (h : t.AtCandidate candidate) :
    (signPresign config candidate tx fees key).wp (policyLocal live) (fun _ _ => True) t := by
  refine Prog.wp_bind.mpr (Prog.wp_issue.mpr ⟨trivial, ?_⟩)
  rintro (e | nonce) _
  · exact trivial
  · refine Prog.wp_bind.mpr (Prog.wp_issue.mpr ⟨⟨hlive, _, _, h, hvalue⟩, ?_⟩)
    rintro (e | signed) _
    · exact trivial
    · exact Prog.wp_issue.mpr ⟨⟨h.1, List.mem_cons_self⟩, fun _ _ => trivial⟩

theorem fundPresign_policy {fees : FeeContext} (hlive : live = true)
    (hvalue : tx.valueWei ≤ candidate.perPlanCeilingWei) (h : t.AtCandidate candidate) :
    (fundPresign config rpcUrl localNowMs candidate tx fees).wp (policyLocal live)
      (fun _ _ => True) t := by
  refine surveys_bind_policy candidate surveys_assessPresignFunding (fun verdict t₁ h₁ => ?_) h
  cases verdict with
  | short =>
    refine Prog.wp_bind.mpr (Prog.wp_issue.mpr ⟨trivial, ?_⟩)
    rintro (e | _) _
    · exact trivial
    · exact Prog.wp_issue.mpr ⟨nofun, fun _ _ => trivial⟩
  | ok =>
    refine Prog.wp_bind.mpr (Prog.wp_issue.mpr ⟨trivial, ?_⟩)
    rintro (e | _) _
    · exact trivial
    · refine Prog.wp_bind.mpr (Prog.wp_issue.mpr ⟨trivial, ?_⟩)
      rintro (e | _ | encrypted) _
      · exact trivial
      · exact trivial
      · refine Prog.wp_bind.mpr (Prog.wp_issue.mpr ⟨hlive, ?_⟩)
        rintro (e | key) _
        · exact trivial
        · exact signPresign_policy hlive hvalue h₁

/-- The value is compared with the ceiling before the wallet is looked at. -/
theorem presignClaimed_policy {cached : Option Tx} (hlive : live = true)
    (h : t.AtCandidate candidate) :
    (presignClaimed config rpcUrl localNowMs clockOffsetMs candidate cached).wp (policyLocal live)
      (fun _ _ => True) t := by
  refine Prog.wp_bind.mpr (Prog.wp_issue.mpr ⟨trivial, ?_⟩)
  rintro (e | fees) _
  · exact trivial
  · dsimp only
    split
    · refine surveys_bind_policy candidate (surveys_presignCalldata cached) ?_ h
      rintro (_ | tx) t₁ h₁
      · exact trivial
      · dsimp only
        split
        · exact trivial
        · next hvalue => exact fundPresign_policy hlive (not_lt.mp hvalue) h₁
    · exact trivial

/-- A pass forgets no ceiling it has read. -/
theorem ceilings_subset_next {c : Cmd} {x : Except Thrown c.Resp} :
    t.ceilings ⊆ ((policyLocal live).next t c x).ceilings := by
  have hself : t.ceilings ⊆ t.ceilings := List.Subset.refl _
  cases c with
  | claimArmedMintPlan =>
    rcases x with e | _ | plan
    · exact hself
    · exact hself
    · exact List.subset_cons_self _ _
  | armedManagedPlansForPresign =>
    rcases x with e | plans
    · exact hself
    · exact List.subset_append_right _ _
  | underfundedRecheckAt => cases x <;> exact hself
  | selectSigner => rcases x with e | _ | signer <;> exact hself
  | selectPresigned => rcases x with e | _ | row <;> exact hself
  | signManagedMintTransaction => cases x <;> exact hself
  | signExecutorTransaction => cases x <;> exact hself
  | _ => exact hself

theorem wp_ceilings {p : Worker α} {Q : Except Thrown α → PolicyState → Prop}
    (h : p.wp (policyLocal live) Q t) :
    p.wp (policyLocal live) (fun r t' => Q r t' ∧ t.ceilings ⊆ t'.ceilings) t := by
  induction p generalizing t with
  | ret => exact ⟨h, List.Subset.refl _⟩
  | fail => exact ⟨h, List.Subset.refl _⟩
  | call c k ih =>
    refine ⟨h.1, fun x hx => Prog.wp_mono (ih x (h.2 x hx)) ?_⟩
    exact fun r t' hr => ⟨hr.1, List.Subset.trans ceilings_subset_next hr.2⟩

theorem presignPlan_policy (hlive : live = true)
    (h : (candidate.planId, candidate.perPlanCeilingWei) ∈ t.ceilings) :
    (presignPlan config rpcUrl localNowMs clockOffsetMs candidate).wp (policyLocal live)
      (fun _ _ => True) t := by
  rw [presignPlan]
  split
  · exact trivial
  · exact trivial
  · refine Prog.wp_bind.mpr (Prog.wp_issue.mpr ⟨trivial, ?_⟩)
    rintro (e | recheckAt) _
    · exact trivial
    · dsimp only
      split
      · exact trivial
      · refine surveys_bind_policy candidate surveys_freshPresignTx ?_ ⟨rfl, h⟩
        intro cached t₁ h₁
        exact Prog.wp_tryCatch_of (presignClaimed_policy hlive h₁) (fun _ _ _ => trivial)
          fun _ _ _ => trivial

theorem presignPlans_policy (hlive : live = true) (candidates : List PresignCandidate)
    (h : ∀ c ∈ candidates, (c.planId, c.perPlanCeilingWei) ∈ t.ceilings) :
    (presignPlans config rpcUrl localNowMs clockOffsetMs candidates).wp (policyLocal live)
      (fun _ _ => True) t := by
  induction candidates generalizing t with
  | nil => exact trivial
  | cons candidate candidates ih =>
    have hplan : (presignPlan config rpcUrl localNowMs clockOffsetMs candidate).wp
        (policyLocal live) (fun _ _ => True) t :=
      presignPlan_policy hlive (h candidate List.mem_cons_self)
    refine Prog.wp_bind_of (wp_ceilings hplan) (fun _ t' h' => ih fun c hc => ?_)
      fun _ _ _ => trivial
    exact h'.2 (h c (List.mem_cons_of_mem _ hc))

/-- **The pre-sign pass.** -/
theorem presignPass_policy :
    (runPresignPass config localNowMs clockOffsetMs).wp (policyLocal config.liveExecutionEnabled)
      (fun _ _ => True) t := by
  rw [runPresignPass]
  split
  · exact trivial
  · next hlive =>
    have hlive : config.liveExecutionEnabled = true := by simpa using hlive
    refine Prog.wp_bind.mpr (Prog.wp_issue.mpr ⟨trivial, ?_⟩)
    rintro (e | candidates) _
    · exact trivial
    · dsimp only
      split
      · exact trivial
      · have hlisted : ∀ c ∈ candidates, (c.planId, c.perPlanCeilingWei) ∈
            candidates.map (fun c => (c.planId, c.perPlanCeilingWei)) ++ t.ceilings := by
          intro c hc
          exact List.mem_append_left _ (List.mem_map_of_mem hc)
        have hbest : Sober config.liveExecutionEnabled
            (resolveBestRpcUrl config.robinhoodChainId config.rpcUrl) :=
          .bind (sober_ask trivial) fun _ => .pure _
        refine Prog.wp_bind_of (hbest.wp_of (sober_maintains
          (P := fun t => ∀ c ∈ candidates, (c.planId, c.perPlanCeilingWei) ∈ t.ceilings)
          fun _ _ h => h) hlisted) ?_ fun _ _ _ => trivial
        rintro (_ | rpcUrl) t₁ h₁
        · exact trivial
        · dsimp only
          split
          · exact trivial
          · exact presignPlans_policy hlive candidates h₁

end

end MintWorker
