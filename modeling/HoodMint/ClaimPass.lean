/-
What a pass knows of the plan it has claimed.

`claimLocal` follows one pass: the plan it holds, what it has read of the wallet and the signer,
what the idempotency gate has been told and how long it waits, and whether the owner has been
prompted.  It demands that a pass ends a plan only while it holds it, or when it has ended it
before; that it prompts the owner once, and past the gate only, which asks about that plan and
goes on without an answer only when the grace period is over; and that it records a broadcast of
its own only when the plan has a signer on the server.

* `firePass_claim`, `presignPass_claim` — the passes keep to it, whatever they are answered.
-/
import HoodMint.MintRuns
import HoodMint.ServerStages

namespace MintWorker

open Effect

/-- The plan a pass holds, and the one it has ended; whether all it has read of wallet and
signer leaves the signature to the owner; the hash the gate has asked about, the outcome it was
told, until when it waits for one, and whether it has gone on without; and whether the owner has
been prompted. -/
structure ClaimState where
  held : Option String
  ended : Option String
  browser : Bool
  asked : Option (Option String)
  outcome : ReceiptOutcome
  graceUntil : Option ℤ
  late : Bool
  prompted : Bool

namespace ClaimState

/-- Before a claim. -/
def idle : ClaimState := ⟨none, none, true, none, .unknown, none, false, false⟩

/-- After a claim. -/
def claim (planId : String) : ClaimState :=
  ⟨some planId, none, true, none, .unknown, none, false, false⟩

/-- The pass may end the plan, or has done so. -/
def MayEnd (t : ClaimState) (planId : String) : Prop := t.held = some planId ∨ t.ended = some planId

instance (t : ClaimState) (planId : String) : Decidable (t.MayEnd planId) :=
  (inferInstance : Decidable (_ ∨ _))

/-- The gate has found no broadcast, or was told that the newest has reverted, or has gone on
without an answer. -/
def PastGate (t : ClaimState) : Prop :=
  t.asked = some none ∨ t.asked.isSome = true ∧ (t.outcome = .reverted ∨ t.late = true)

/-- The pass holds the plan and is past the gate, and the owner has not been prompted. -/
def MayPrompt (t : ClaimState) (planId : String) : Prop :=
  t.held = some planId ∧ t.prompted = false ∧ t.PastGate

/-- What commands that ask nothing of the gate tell a pass: that the owner is not the one to
sign, and the time. -/
structure Told (t t' : ClaimState) : Prop where
  held : t'.held = t.held
  ended : t'.ended = t.ended
  browser : t'.browser = true → t.browser = true
  asked : t'.asked = t.asked
  outcome : t'.outcome = t.outcome
  late : t.late = true → t'.late = true
  prompted : t'.prompted = t.prompted

theorem Told.refl (t : ClaimState) : t.Told t := ⟨rfl, rfl, id, rfl, rfl, id, rfl⟩

theorem Told.mayEnd {t t' : ClaimState} {planId : String} (h : t.Told t') :
    t'.MayEnd planId ↔ t.MayEnd planId := by
  rw [MayEnd, MayEnd, h.held, h.ended]

theorem Told.mayPrompt {t t' : ClaimState} {planId : String} (h : t.Told t')
    (hprompt : t.MayPrompt planId) : t'.MayPrompt planId := by
  obtain ⟨hheld, hprompted, hgate⟩ := hprompt
  refine ⟨h.held.trans hheld, h.prompted.trans hprompted, ?_⟩
  rw [PastGate, h.asked, h.outcome]
  exact hgate.imp id (And.imp id (Or.imp id h.late))

end ClaimState

/-- The row makes the server sign. -/
def Signer.OnServer (s : Signer) : Prop := s.status = .active ∧ s.scheme ≠ .browserWallet

instance (s : Signer) : Decidable s.OnServer := (inferInstance : Decidable (_ ∧ _))

/-- One pass and its plan. -/
def claimLocal : Monitor signature Thrown ClaimState where
  guard t c :=
    match c with
    | .releaseMintPlanToArmed planId _ => t.MayEnd planId
    | .markMintPlanExecuted planId => t.MayEnd planId
    | .failMintPlanExecution planId => t.MayEnd planId
    | .selectLatestBroadcast planId => t.held = some planId
    | .recordExecutionAttempt planId attempt =>
      (attempt.status = .awaitingSignature → t.MayPrompt planId) ∧
        (attempt.status = .broadcast → t.MayEnd planId ∧ t.browser = false)
    | _ => True
  allowed _ _ _ := True
  next t c x :=
    match c, x with
    | .claimArmedMintPlan .., .ok (some plan) => .claim plan.id
    | .releaseMintPlanToArmed .., .ok _ => { t with held := none }
    | .markMintPlanExecuted planId, .ok _ => { t with held := none, ended := some planId }
    | .failMintPlanExecution planId, .ok _ => { t with held := none, ended := some planId }
    | .selectWallet _, .ok (some wallet) =>
      { t with browser := t.browser && wallet.encryptedSigningKey.isNone }
    | .selectSigner _, .ok (some signer) => { t with browser := t.browser && !signer.OnServer }
    | .selectLatestBroadcast _, .ok row =>
      { t with
        asked := some (row.bind Prod.fst), outcome := .unknown, late := false
        graceUntil := row.bind fun r => r.1.map fun _ => r.2 + priorBroadcastGraceMs }
    | .now, .ok nowMs =>
      { t with
        graceUntil := none
        late := t.late || (decide (t.outcome = .unknown) && t.graceUntil.any (· ≤ nowMs)) }
    | .getTransactionReceipt _ txHash, .ok (some status) =>
      if t.asked = some (some txHash) then { t with outcome := status.outcome } else t
    | .recordExecutionAttempt _ attempt, .ok _ =>
      if attempt.status = .awaitingSignature then { t with prompted := true } else t
    | _, _ => t

section

variable {plan : Plan} {config : Config} {wallet : Wallet} {t : ClaimState} {planId : String}

/-! ### The stages -/

/-- The stages of a pass over the plan. -/
def claimStages (planId : String) : Stages ClaimState where
  begun t := t.held = some planId ∧ t.prompted = false
  loaded wallet t := (t.held = some planId ∧ t.prompted = false) ∧
    (t.browser = true → ∀ w ∈ wallet, w.encryptedSigningKey = none)
  gated wallet t := t.MayPrompt planId ∧
    (t.browser = true → ∀ w ∈ wallet, w.encryptedSigningKey = none)
  chosen choice t := t.MayPrompt planId ∧ (t.browser = true → choice.scheme = .browserWallet)
  failed t := t.MayEnd planId
  ended _ := True

theorem told_now (x : Except Thrown ℤ) : t.Told (claimLocal.next t .now x) := by
  have hself := ClaimState.Told.refl t
  cases x with
  | error e => exact hself
  | ok nowMs => exact { hself with late := fun hl => Bool.or_eq_true_iff.mpr (Or.inl hl) }

/-- A steady command tells at most that the owner is not the one to sign, and the time. -/
theorem claimLocal_steady {c : Cmd} (hc : c.Steady planId) :
    claimLocal.guard t c ∧ ∀ x, t.Told (claimLocal.next t c x) := by
  have hself := ClaimState.Told.refl t
  have hbrowser : ∀ b, t.Told { t with browser := t.browser && b } := fun b =>
    { hself with browser := fun hb => (Bool.and_eq_true_iff.mp hb).1 }
  cases c with
  | now => exact ⟨trivial, told_now⟩
  | selectWallet =>
    refine ⟨trivial, ?_⟩
    rintro (e | _ | wallet)
    · exact hself
    · exact hself
    · exact hbrowser _
  | selectSigner =>
    refine ⟨trivial, ?_⟩
    rintro (e | _ | signer)
    · exact hself
    · exact hself
    · exact hbrowser _
  | recordExecutionAttempt id attempt =>
    refine ⟨⟨fun h => absurd h hc.2.2, fun h => absurd h hc.2.1⟩, ?_⟩
    rintro (e | a)
    · exact hself
    · have hnext : claimLocal.next t (.recordExecutionAttempt id attempt) (.ok a) = t :=
        if_neg hc.2.2
      rw [hnext]
      exact hself
  | _ => first | exact absurd hc id | exact ⟨trivial, fun _ => hself⟩

/-- What steady commands keep. -/
theorem maintains_steady {P : ClaimState → Prop} (hP : ∀ t t' : ClaimState, t.Told t' → P t → P t') :
    claimLocal.Maintains (Cmd.Steady planId) P := by
  intro t c hc h
  obtain ⟨hguard, hnext⟩ := claimLocal_steady (t := t) hc
  exact ⟨hguard, fun x _ => hP t _ (hnext x) h⟩

/-! ### Wallet and signer -/

theorem loadPlan_claim (h : t.held = some plan.id ∧ t.prompted = false) :
    (loadPlan plan).wp claimLocal (claimStages plan.id).Loaded t := by
  refine Prog.wp_bind.mpr (Prog.wp_issue.mpr ⟨trivial, ?_⟩)
  rintro (e | project) _
  · exact Or.inl h.1
  · refine Prog.wp_bind.mpr (Prog.wp_issue.mpr ⟨trivial, ?_⟩)
    rintro (e | _ | wallet) _
    · exact Or.inl h.1
    · exact ⟨h, fun _ _ hw => absurd hw (Option.not_mem_none _)⟩
    · refine ⟨h, fun hb w hw => ?_⟩
      obtain rfl := Option.mem_some_iff.mp hw
      exact Option.isNone_iff_eq_none.mp (Bool.and_eq_true_iff.mp hb).2

/-- Neither a key of the wallet nor a signer's row makes the server sign. -/
theorem signerChoice_browser {row : Option Signer} (hkey : wallet.encryptedSigningKey = none)
    (hrow : ∀ s ∈ row, ¬ s.OnServer) : (signerChoice plan wallet row).scheme = .browserWallet := by
  have hchosen : ∀ s, row.filter (fun s => s.status = .active) = some s →
      s.scheme = .browserWallet := by
    intro s hs
    obtain ⟨hmem, hactive⟩ := Option.filter_eq_some_iff.mp hs
    have hactive := of_decide_eq_true hactive
    by_contra hne
    exact hrow s hmem ⟨hactive, hne⟩
  rw [signerChoice]
  simp only [hkey, ne_eq, not_true_eq_false, and_false, if_false]
  split
  · next s hs => exact hchosen s hs
  · rfl

theorem resolveSigner_claim (h : (claimStages plan.id).gated (some wallet) t) :
    (resolveSigner plan wallet).wp claimLocal (claimStages plan.id).Resolved t := by
  obtain ⟨hprompt, hkey⟩ := h
  have hnone : ∀ s ∈ (none : Option Signer), ¬ s.OnServer :=
    fun _ hs => absurd hs (Option.not_mem_none _)
  rw [resolveSigner]
  split
  · exact ⟨hprompt, fun hb => signerChoice_browser (hkey hb wallet rfl) hnone⟩
  · refine Prog.wp_bind.mpr (Prog.wp_issue.mpr ⟨trivial, ?_⟩)
    rintro (e | _ | signer) _
    · exact Or.inl hprompt.1
    · exact ⟨hprompt, fun hb => signerChoice_browser (hkey hb wallet rfl) hnone⟩
    · refine ⟨hprompt, fun hb => ?_⟩
      obtain ⟨hb, hsigner⟩ := Bool.and_eq_true_iff.mp hb
      refine signerChoice_browser (hkey hb wallet rfl) fun s hs => ?_
      obtain rfl := Option.mem_some_iff.mp hs
      simpa using hsigner

/-! ### Ending the plan -/

theorem release_claim {P : ClaimState → Prop} (hend : ∀ t, P t → t.MayEnd plan.id)
    (htold : ∀ t t' : ClaimState, t.Told t' → P t → P t') (h : P t) :
    (releaseMintPlanToArmed plan).wp claimLocal (EndsIn P fun _ => True) t := by
  refine Prog.wp_bind.mpr (Prog.wp_issue.mpr ⟨trivial, ?_⟩)
  rintro (e | now) _
  · exact h
  · have h' := htold t _ (told_now (.ok now)) h
    refine Prog.wp_bind.mpr (Prog.wp_issue.mpr ⟨hend _ h', ?_⟩)
    rintro (e | found) _
    · exact h'
    · exact trivial

theorem fail_claim (h : t.MayEnd plan.id) :
    (failPlanAndNotify plan).wp claimLocal (EndsIn (ClaimState.MayEnd · plan.id) fun _ => True)
      t := by
  refine Prog.wp_bind.mpr (Prog.wp_issue.mpr ⟨h, ?_⟩)
  rintro (e | found) _
  · exact h
  · refine Prog.wp_issue.mpr ⟨trivial, ?_⟩
    rintro (e | _) _
    · exact Or.inr rfl
    · exact trivial

theorem promptOwner_claim {tx : Tx} (h : t.MayPrompt plan.id) :
    (promptOwner plan tx).wp claimLocal (EndsIn (ClaimState.MayEnd · plan.id) fun _ => True) t := by
  refine Prog.wp_bind.mpr (Prog.wp_issue.mpr ⟨⟨fun _ => h, nofun⟩, ?_⟩)
  rintro (e | _) _
  · exact Or.inl h.1
  · refine Prog.wp_issue.mpr ⟨trivial, ?_⟩
    rintro (e | _) _
    · exact Or.inl h.1
    · exact trivial

theorem claimLocal_passKeeps : PassKeeps claimLocal config plan (claimStages plan.id) where
  begun := maintains_steady fun _ _ ht h => ⟨ht.held.trans h.1, ht.prompted.trans h.2⟩
  loaded _ := maintains_steady fun _ _ ht h =>
    ⟨⟨ht.held.trans h.1.1, ht.prompted.trans h.1.2⟩, fun hb => h.2 (ht.browser hb)⟩
  chosen _ := maintains_steady fun _ _ ht h => ⟨ht.mayPrompt h.1, fun hb => h.2 (ht.browser hb)⟩
  failed := maintains_steady fun _ _ ht h => ht.mayEnd.mpr h
  failed_of_begun _ h := Or.inl h.1
  failed_of_loaded _ _ h := Or.inl h.1.1
  failed_of_gated _ _ h := Or.inl h.1.1
  failed_of_chosen _ _ h := Or.inl h.1.1
  ended_of_failed _ _ := trivial
  load _ h := loadPlan_claim h
  resolve _ _ h := resolveSigner_claim h
  release _ h := release_claim (fun _ h => h) (fun _ _ ht => ht.mayEnd.mpr) h
  fail _ h := fail_claim h
  prompt _ _ _ _ _ h := promptOwner_claim h.1

/-! ### The signers on the server -/

/-- A signer on the server may end its plan, and record a broadcast. -/
def ClaimState.Fires (t : ClaimState) (planId : String) : Prop :=
  t.MayEnd planId ∧ t.browser = false

theorem ClaimState.Told.fires {t' : ClaimState} (h : t.Told t') (hf : t.Fires planId) :
    t'.Fires planId := by
  refine ⟨h.mayEnd.mpr hf.1, Bool.eq_false_iff.mpr fun hb => ?_⟩
  exact absurd (h.browser hb) (Bool.eq_false_iff.mp hf.2)

theorem claimLocal_works :
    claimLocal.Maintains (Cmd.Working planId) (ClaimState.Fires · planId) := by
  rintro t c hc ⟨hend, hb⟩
  cases c with
  | now => exact ⟨trivial, fun x _ => (told_now x).fires ⟨hend, hb⟩⟩
  | markMintPlanExecuted id =>
    obtain rfl : id = planId := hc
    refine ⟨hend, ?_⟩
    rintro (e | found) _
    · exact ⟨hend, hb⟩
    · exact ⟨Or.inr rfl, hb⟩
  | failMintPlanExecution id =>
    obtain rfl : id = planId := hc
    refine ⟨hend, ?_⟩
    rintro (e | found) _
    · exact ⟨hend, hb⟩
    · exact ⟨Or.inr rfl, hb⟩
  | recordExecutionAttempt id attempt =>
    obtain ⟨rfl, hprompt⟩ := hc
    refine ⟨⟨fun h => absurd h hprompt, fun _ => ⟨hend, hb⟩⟩, ?_⟩
    rintro (e | _) _
    · exact ⟨hend, hb⟩
    · have hnext : claimLocal.next t (.recordExecutionAttempt id attempt) (.ok ()) = t :=
        if_neg hprompt
      rw [hnext]
      exact ⟨hend, hb⟩
  | selectWallet =>
    refine ⟨trivial, ?_⟩
    rintro (e | _ | wallet) _
    · exact ⟨hend, hb⟩
    · exact ⟨hend, hb⟩
    · exact ⟨hend, Bool.and_eq_false_imp.mpr fun h => absurd h (by rw [hb]; decide)⟩
  | selectSigner =>
    refine ⟨trivial, ?_⟩
    rintro (e | _ | signer) _
    · exact ⟨hend, hb⟩
    · exact ⟨hend, hb⟩
    · exact ⟨hend, Bool.and_eq_false_imp.mpr fun h => absurd h (by rw [hb]; decide)⟩
  | getTransactionReceipt url txHash =>
    refine ⟨trivial, ?_⟩
    rintro (e | _ | status) _
    · exact ⟨hend, hb⟩
    · exact ⟨hend, hb⟩
    · show ClaimState.Fires (if t.asked = some (some txHash) then _ else t) planId
      split
      · exact ⟨hend, hb⟩
      · exact ⟨hend, hb⟩
  | _ => first | exact absurd hc id | exact ⟨trivial, fun _ _ => ⟨hend, hb⟩⟩

/-- Signatures and sends are nothing to it. -/
theorem claimLocal_serverKeeps {tx : Tx} {signer : Option Signer} :
    ServerKeeps claimLocal plan tx signer (ClaimState.Fires · plan.id) (fun _ => True)
      fun _ => (ClaimState.Fires · plan.id) where
  works := claimLocal_works
  holds _ := claimLocal_works
  works_of_holds _ _ h := h
  ends _ _ := trivial
  release _ h := release_claim (fun _ h => h.1) (fun _ _ ht => ht.fires) h
  blob _ h := Prog.wp_issue.mpr ⟨trivial, fun _ _ => ⟨h, fun _ _ _ _ => h⟩⟩
  sign _ _ _ _ h := Prog.wp_issue.mpr ⟨trivial, fun _ _ => ⟨h, fun _ _ => h⟩⟩
  signDelegated _ _ _ _ _ h := Prog.wp_issue.mpr ⟨trivial, fun _ _ => ⟨h, fun _ _ => h⟩⟩
  race _ _ _ h := Prog.wp_issue.mpr ⟨trivial, fun _ _ => h⟩
  broadcast _ _ _ h := Prog.wp_issue.mpr ⟨trivial, fun _ _ => h⟩

/-! ### The gate -/

/-- The outcome the gate is told. -/
theorem resolveTxOutcome_claim {txHash : String} (hask : t.asked = some (some txHash))
    (houtcome : t.outcome = .unknown) (urls : List String) :
    (resolveTxOutcome urls txHash).wp claimLocal
      (fun r t' => ∃ outcome, r = .ok outcome ∧ t' = { t with outcome }) t := by
  have hself : t = { t with outcome := .unknown } := by rw [← houtcome]
  induction urls with
  | nil => exact ⟨.unknown, rfl, hself⟩
  | cons url urls ih =>
    have honce : (resolveTxOutcomeOnce url txHash).wp claimLocal
        (fun r t' => ∃ outcome, r = .ok outcome ∧ t' = { t with outcome }) t := by
      refine Prog.wp_bind.mpr (Prog.wp_attempt.mpr (Prog.wp_issue.mpr ⟨trivial, ?_⟩))
      rintro (e | _ | status) _
      · exact ⟨.unknown, rfl, hself⟩
      · exact ⟨.unknown, rfl, hself⟩
      · exact ⟨status.outcome, rfl, if_pos hask⟩
    refine Prog.wp_bind_of honce ?_ ?_
    · rintro outcome t' ⟨_, ⟨⟩, rfl⟩
      split
      · exact ⟨outcome, rfl, rfl⟩
      · next hnot =>
        obtain rfl : outcome = .unknown := not_not.mp hnot
        rw [← hself]
        exact ih
    · rintro e t' ⟨_, h, _⟩
      exact nomatch h

theorem idempotencyGate_claim {fireUrls : List String} {owner : Option Wallet}
    {rest : Worker String}
    (hrest : ∀ t', (claimStages plan.id).gated owner t' →
      rest.wp claimLocal (EndsIn (ClaimState.MayEnd · plan.id) fun _ => True) t')
    (h : (claimStages plan.id).loaded owner t) :
    (idempotencyGate plan fireUrls rest).wp claimLocal
      (EndsIn (ClaimState.MayEnd · plan.id) fun _ => True) t := by
  obtain ⟨⟨hheld, hprompted⟩, hkey⟩ := h
  have hend : t.MayEnd plan.id := Or.inl hheld
  have hread : (latestBroadcastAttempt plan).wp claimLocal (fun r t' => match r with
      | .error _ => t'.MayEnd plan.id
      | .ok none => (claimStages plan.id).gated owner t'
      | .ok (some (txHash, attemptAt)) => t' = { t with
          asked := some (some txHash), outcome := .unknown, late := false
          graceUntil := some (attemptAt + priorBroadcastGraceMs) }) t := by
    refine Prog.wp_bind.mpr (Prog.wp_issue.mpr ⟨hheld, ?_⟩)
    rintro (e | _ | ⟨_ | txHash, attemptAt⟩) _
    · exact hend
    · exact ⟨⟨hheld, hprompted, Or.inl rfl⟩, hkey⟩
    · exact ⟨⟨hheld, hprompted, Or.inl rfl⟩, hkey⟩
    · exact rfl
  refine Prog.wp_bind_of hread ?_ fun _ _ h' => h'
  rintro (_ | ⟨txHash, attemptAt⟩) t₁ h₁
  · exact hrest t₁ h₁
  · obtain rfl := h₁
    refine Prog.wp_bind_of (resolveTxOutcome_claim rfl rfl fireUrls) ?_ ?_
    · rintro outcome _ ⟨_, ⟨⟩, rfl⟩
      cases outcome with
      | success =>
        refine Prog.wp_bind.mpr (Prog.wp_bind.mpr (Prog.wp_issue.mpr ⟨hend, ?_⟩))
        rintro (e | found) _
        · exact hend
        · exact trivial
      | reverted => exact hrest _ ⟨⟨hheld, hprompted, Or.inr ⟨rfl, Or.inl rfl⟩⟩, hkey⟩
      | unknown =>
        refine Prog.wp_bind.mpr (Prog.wp_issue.mpr ⟨trivial, ?_⟩)
        rintro (e | nowMs) _
        · exact hend
        · dsimp only
          split
          · exact Prog.wp_bind_of (release_claim (fun _ h => h) (fun _ _ ht => ht.mayEnd.mpr) hend)
              (fun _ _ h => h) fun _ _ h => h
          · next hover =>
            -- the grace period is over
            have hlate : attemptAt + priorBroadcastGraceMs ≤ nowMs :=
              Int.add_le_of_le_sub_left (Int.not_lt.mp hover)
            refine hrest _ ⟨⟨hheld, hprompted, Or.inr ⟨rfl, Or.inr ?_⟩⟩, hkey⟩
            exact decide_eq_true hlate
    · rintro e t' ⟨_, h, _⟩
      exact nomatch h

/-! ### The fire pass -/

theorem firePlan_claim (h : t.held = some plan.id ∧ t.prompted = false) :
    (firePlan config plan).wp claimLocal (EndsIn (ClaimState.MayEnd · plan.id) fun _ => True) t := by
  have hkeeps : PassKeeps claimLocal config plan (claimStages plan.id) := claimLocal_passKeeps
  refine hkeeps.firePlan (U := fun _ => True) (fun t' h' => ?_) ?_ h
  · refine Prog.wp_mono (idle_resolveBroadcastRpcUrls.steady.wp_of hkeeps.begun h') ?_
    exact fun _ _ hs => ⟨hs, fun _ _ => trivial⟩
  · intro registryUrls rpcUrl nearFire pre project wallet t' _ h'
    refine idempotencyGate_claim (fun t₁ h₁ => ?_) h'
    refine hkeeps.fireClaimed (fun fire tx t₂ _ hserver h₂ => ?_) h₁
    have hb : t₂.browser = false := by
      cases hb : t₂.browser with
      | false => rfl
      | true => exact absurd (h₂.2 hb) hserver
    refine Prog.wp_mono (claimLocal_serverKeeps.runServerFire ⟨Or.inl h₂.1.1, hb⟩) ?_
    rintro (e | _) t₃ h₃
    · exact h₃.1
    · exact trivial

/-- **The fire pass.** -/
theorem firePass_claim : (firePass config).wp claimLocal (fun _ _ => True) t := by
  refine Prog.wp_bind_of (R := fun _ _ => True) ?_ (fun _ _ _ => trivial) fun _ _ _ => trivial
  refine Prog.wp_bind.mpr (Prog.wp_issue.mpr ⟨trivial, ?_⟩)
  rintro (e | now) _
  · exact trivial
  · refine Prog.wp_bind.mpr (Prog.wp_issue.mpr ⟨trivial, ?_⟩)
    rintro (e | expired) _
    · exact trivial
    · refine Prog.wp_bind.mpr (Prog.wp_issue.mpr ⟨trivial, ?_⟩)
      rintro (e | _ | plan) _
      · exact trivial
      · exact trivial
      · refine Prog.wp_bind_of (firePlan_claim (t := .claim plan.id) ⟨rfl, rfl⟩) ?_ ?_
        · exact fun _ _ _ => trivial
        · exact fun _ _ _ => trivial

end

/-! ### The pre-sign pass -/

/-- Ends no plan, prompts nobody and records no broadcast. -/
def Cmd.Presigning : Cmd → Prop
  | .claimArmedMintPlan .. | .releaseMintPlanToArmed .. | .markMintPlanExecuted _
  | .failMintPlanExecution _ | .selectLatestBroadcast _ => False
  | .recordExecutionAttempt _ attempt => attempt.status = .failed
  | _ => True

section

variable {α : Type} {config : Config} {candidate : PresignCandidate} {tx : Tx} {rpcUrl : String}
  {localNowMs clockOffsetMs : ℤ}

abbrev Presigning (p : Worker α) : Prop := p.Only (S := signature) Cmd.Presigning

theorem presigning_ask {c : Cmd} (h : c.Presigning) : Presigning (ask c) := Prog.Only.issue h

theorem Surveys.presigning {p : Worker α} (h : Surveys p) : Presigning p :=
  h.mono fun c hc => by cases c <;> first | exact trivial | exact absurd hc id

theorem presigning_signPresign {fees : FeeContext} {key : String} :
    Presigning (signPresign config candidate tx fees key) :=
  .bind (presigning_ask trivial) fun _ => .bind (presigning_ask trivial) fun _ =>
    presigning_ask trivial

theorem presigning_fundPresign {fees : FeeContext} :
    Presigning (fundPresign config rpcUrl localNowMs candidate tx fees) := by
  refine .bind surveys_assessPresignFunding.presigning fun verdict => ?_
  cases verdict with
  | short => exact .bind (presigning_ask trivial) fun _ => presigning_ask rfl
  | ok =>
    refine .bind (presigning_ask trivial) fun _ => .bind (presigning_ask trivial) ?_
    rintro (_ | encrypted)
    · exact .pure _
    · exact .bind (presigning_ask trivial) fun key => presigning_signPresign

theorem presigning_presignPlan :
    Presigning (presignPlan config rpcUrl localNowMs clockOffsetMs candidate) := by
  have hclaimed : ∀ cached, Presigning
      (presignClaimed config rpcUrl localNowMs clockOffsetMs candidate cached) := by
    intro cached
    refine .bind (presigning_ask trivial) fun fees => ?_
    split
    · refine .bind (surveys_presignCalldata cached).presigning ?_
      rintro (_ | tx)
      · exact .pure _
      · dsimp only
        split
        · exact .pure _
        · exact presigning_fundPresign
    · exact .pure _
  rw [presignPlan]
  split
  · exact .pure _
  · exact .pure _
  · refine .bind (presigning_ask trivial) fun recheckAt => ?_
    split
    · exact .pure _
    · exact .bind surveys_freshPresignTx.presigning fun cached => (hclaimed cached).tryCatch fun _ => .pure _

theorem presigning_presignPlans :
    ∀ candidates, Presigning (presignPlans config rpcUrl localNowMs clockOffsetMs candidates)
  | [] => .pure _
  | _ :: candidates =>
    .bind presigning_presignPlan fun _ => presigning_presignPlans candidates

theorem presigning_runPresignPass :
    Presigning (runPresignPass config localNowMs clockOffsetMs) := by
  rw [runPresignPass]
  split
  · exact .pure _
  · refine .bind (presigning_ask trivial) fun candidates => ?_
    split
    · exact .pure _
    · refine .bind (.bind (presigning_ask trivial) fun _ => .pure _) ?_
      rintro (_ | rpcUrl)
      · exact .pure _
      · dsimp only
        split
        · exact .pure _
        · exact presigning_presignPlans candidates

/-- **The pre-sign pass.** -/
theorem presignPass_claim {t : ClaimState} :
    (runPresignPass config localNowMs clockOffsetMs).wp claimLocal (fun _ _ => True) t := by
  refine presigning_runPresignPass.wp_of (P := fun _ => True) ?_ trivial
  refine fun t c hc _ => ⟨?_, fun _ _ => trivial⟩
  cases c with
  | recordExecutionAttempt id attempt =>
    have hfailed : attempt.status = .failed := hc
    constructor
    · exact fun h => absurd (hfailed.symm.trans h) nofun
    · exact fun h => absurd (hfailed.symm.trans h) nofun
  | _ => first | exact trivial | exact absurd hc id

end

end MintWorker
