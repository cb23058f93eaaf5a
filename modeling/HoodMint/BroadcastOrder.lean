/-
The rejection of a broadcast, in whatever order the endpoints stand
(`apps/worker/src/mint-receipt.ts`: `pickBroadcastError`;
`apps/worker/src/workers/execution.ts`: `runManagedFire`).

A pre-signed blob is raced to several endpoints; when all of them reject it, one rejection is picked
and decides what becomes of the plan.

* `broadcastDecision` — what the fast path makes of the rejection; `discardBlob_eq` is its `catch`
  block, cut by it;
* `decides_alike_iff` — the decision does not depend on the order exactly when the rejections about
  funds are alike;
* `RejectedBlob` — the blob, the rejections, and whether the database lets go of the blob;
* `handles_iff` — the decision does not depend on the order, and a transaction that some endpoint
  knows is looked up before the plan is failed or re-armed: exactly when no two rejections about
  funds differ, they are stale where some endpoint knows it, and the blob is cleared there.
-/
import HoodMint.SignerFrame
import HoodMint.Lib.LimitOne

namespace MintWorker

open Effect Relational

/-! ### The decision -/

/-- What becomes of a rejected blob: its transaction is looked up, the plan is failed, or the
attempt is recorded and the plan released. -/
inductive Decision | resolve | fail | retry
deriving DecidableEq

/-- The branch the fast path's `catch` takes. -/
def broadcastDecision (error : Thrown) : Decision :=
  if isStalePresignError error.text then .resolve
  else if isInsufficientFundsError error.text then .fail
  else .retry

/-- The branch, taken. -/
def carryOut (plan : Plan) (wallet : Wallet) (mode : FireMode) (fresh : Presigned)
    (error : Thrown) : Decision → Worker Bool
  | .fail => do
    record plan { status := .failed, errorCode := some (slice200 error.text) }
    failPlanAndNotify plan
    return true
  | .retry => do
    record plan { status := .failed, errorCode := some (slice200 error.text) }
    releaseMintPlanToArmed plan
    return true
  | .resolve => do
    match ← presignedOutcome mode.fireUrls fresh with
    | .success =>
      record plan { status := .broadcast, txHash := fresh.presignedTxHash }
      markMintPlanExecuted plan
      return true
    | _ =>
      releaseHeldNonce wallet fresh.presignedNonce
      return false

section

variable {plan : Plan} {wallet : Wallet} {mode : FireMode} {fresh : Presigned} {error : Thrown}
  {errors errors' : List Thrown}

/-- The `catch` block clears the blob and takes the branch. -/
theorem discardBlob_eq : discardBlob plan wallet mode fresh error = (do
    clearPresignedTx plan
    carryOut plan wallet mode fresh error (broadcastDecision error)) := by
  rw [discardBlob, broadcastDecision]
  cases hstale : isStalePresignError error.text with
  | true => rfl
  | false => cases hfunds : isInsufficientFundsError error.text <;> rfl

/-- It reads the message only. -/
theorem broadcastDecision_asError (e : Thrown) :
    broadcastDecision e.asError = broadcastDecision e := by
  rw [broadcastDecision, broadcastDecision, Thrown.text, Thrown.text, Thrown.message_asError]

/-- A rejection about funds is resolved when it is stale, and fails the plan otherwise. -/
theorem broadcastDecision_of_funds {e : Thrown} (h : isInsufficientFundsError e.message = true) :
    broadcastDecision e = if isStalePresignError e.message then .resolve else .fail := by
  rw [broadcastDecision, Thrown.text, h, if_pos rfl]

/-- Two of them are decided alike when both are stale or neither is. -/
theorem broadcastDecision_eq_iff {e e' : Thrown} (h : isInsufficientFundsError e.message = true)
    (h' : isInsufficientFundsError e'.message = true) :
    broadcastDecision e = broadcastDecision e' ↔
      isStalePresignError e.message = isStalePresignError e'.message := by
  rw [broadcastDecision_of_funds h, broadcastDecision_of_funds h']
  cases isStalePresignError e.message <;> cases isStalePresignError e'.message <;> simp

/-! ### The pick -/

/-- One of the rejections is picked. -/
theorem exists_pickBroadcastError (h : errors ≠ []) :
    ∃ e ∈ errors, (pickBroadcastError errors).message = e.message := by
  rw [pickBroadcastError]
  split
  · next hit hfind =>
    obtain ⟨pattern, _, hfind⟩ := List.exists_of_findSome?_eq_some hfind
    exact ⟨hit, List.mem_of_find?_eq_some hfind, Thrown.message_asError hit⟩
  · cases errors with
    | nil => exact absurd rfl h
    | cons e rest => exact ⟨e, List.mem_cons_self, Thrown.message_asError e⟩

/-- The decision of a list: that of its first rejection about funds, if there is one. -/
theorem broadcastDecision_pick (h : errors ≠ []) :
    broadcastDecision (pickBroadcastError errors) =
      ((errors.find? fun e => isInsufficientFundsError e.message).map broadcastDecision).getD
        (if errors.any fun e => isStalePresignError e.message then .resolve else .retry) := by
  cases hfind : errors.find? fun e => isInsufficientFundsError e.message with
  | some hit =>
    rw [pickBroadcastError, broadcastPriority, List.findSome?_cons, hfind]
    exact broadcastDecision_asError hit
  | none =>
    have hfunds : ∀ e ∈ errors, isInsufficientFundsError e.message = false := fun e he =>
      Bool.eq_false_iff.mpr (List.find?_eq_none.mp hfind e he)
    rw [Option.map_none, Option.getD_none, broadcastDecision, Thrown.text]
    by_cases hstale : ∃ e ∈ errors, isStalePresignError e.message = true
    · rw [if_pos (isStalePresignError_pickBroadcastError hfunds hstale),
        if_pos (List.any_eq_true.mpr hstale)]
    · -- nothing of the kind: what is picked is neither
      obtain ⟨e, he, hmessage⟩ := exists_pickBroadcastError h
      have hpicked : ¬ isStalePresignError e.message = true := fun hs => hstale ⟨e, he, hs⟩
      rw [hmessage, if_neg hpicked, hfunds e he, if_neg Bool.false_ne_true,
        if_neg fun hany => hstale (List.any_eq_true.mp hany)]

/-- A list that has a stale rejection, and whose rejections about funds are stale, is resolved. -/
theorem broadcastDecision_pick_stale
    (hfunds : ∀ e ∈ errors, isInsufficientFundsError e.message = true →
      isStalePresignError e.message = true)
    (hstale : ∃ e ∈ errors, isStalePresignError e.message = true) :
    broadcastDecision (pickBroadcastError errors) = .resolve := by
  obtain ⟨e, he, hs⟩ := hstale
  rw [broadcastDecision_pick (List.ne_nil_of_mem he)]
  cases hfind : errors.find? fun e => isInsufficientFundsError e.message with
  | none => exact if_pos (List.any_eq_true.mpr ⟨e, he, hs⟩)
  | some hit =>
    have hhit := List.find?_some hfind
    rw [Option.map_some, Option.getD_some, broadcastDecision_of_funds hhit,
      hfunds hit (List.mem_of_find?_eq_some hfind) hhit, if_pos rfl]

/-- Any two rejections about funds are stale alike. -/
def FundsAlike (errors : List Thrown) : Prop :=
  ∀ e ∈ errors, ∀ e' ∈ errors, isInsufficientFundsError e.message = true →
    isInsufficientFundsError e'.message = true →
    isStalePresignError e.message = isStalePresignError e'.message

/-- **Order.**  The decision is the same for every order of the endpoints exactly when any two
rejections about funds are stale alike. -/
theorem decides_alike_iff (h : errors ≠ []) :
    (∀ errors' : List Thrown, errors'.Perm errors →
      broadcastDecision (pickBroadcastError errors') =
        broadcastDecision (pickBroadcastError errors)) ↔ FundsAlike errors := by
  have hlike : FundsAlike errors ↔ ∀ e ∈ errors, ∀ e' ∈ errors,
      isInsufficientFundsError e.message = true → isInsufficientFundsError e'.message = true →
      broadcastDecision e = broadcastDecision e' :=
    forall₂_congr fun e _ => forall₂_congr fun e' _ => forall₂_congr fun hf hf' =>
      (broadcastDecision_eq_iff hf hf').symm
  rw [hlike, ← find?_perm_iff]
  refine forall₂_congr fun errors' hperm => ?_
  have hne : errors' ≠ [] := fun hnil => h (List.nil_perm.mp (hnil ▸ hperm))
  have hany : (errors'.any fun e => isStalePresignError e.message) =
      errors.any fun e => isStalePresignError e.message := by
    rw [Bool.eq_iff_iff, List.any_eq_true, List.any_eq_true]
    exact exists_congr fun e => and_congr_left fun _ => hperm.mem_iff
  have hsome :=
    @isSome_find?_perm _ (fun e : Thrown => isInsufficientFundsError e.message) _ _ hperm
  rw [broadcastDecision_pick h, broadcastDecision_pick hne, hany]
  cases hfind : errors.find? fun e => isInsufficientFundsError e.message with
  | none =>
    rw [hfind, Option.isSome_none, Option.isSome_eq_false_iff, Option.isNone_iff_eq_none] at hsome
    simp [hsome]
  | some hit =>
    rw [hfind, Option.isSome_some, Option.isSome_iff_exists] at hsome
    obtain ⟨hit', hfind'⟩ := hsome
    simp [hfind']

end

/-! ### A rejected blob -/

/-- A pre-signed blob that every endpoint rejects: its stored row, the rejections, and whether the
database takes the clearing of the row afterwards. -/
structure RejectedBlob where
  rawTx : String
  txHash : String
  nonce : Option ℕ
  rawTx_ne : rawTx ≠ ""
  errors : List Thrown
  errors_ne : errors ≠ []
  clears : Bool

namespace RejectedBlob

variable (w : RejectedBlob)

/-- The stored row. -/
def row : Presigned := ⟨some w.rawTx, some w.txHash, w.nonce⟩

/-- Some endpoint answers that it knows the transaction. -/
def Known : Prop := ∃ e ∈ w.errors, mentions "already known" e.message = true

/-- The rejections about funds are stale throughout, and the blob is cleared if some endpoint knows
it; or none of them is stale, and no endpoint knows it. -/
def Settled : Prop :=
  (∀ e ∈ w.errors, isInsufficientFundsError e.message = true →
      isStalePresignError e.message = true) ∧ (w.Known → w.clears = true) ∨
    (∀ e ∈ w.errors, isInsufficientFundsError e.message = true →
      isStalePresignError e.message = false) ∧ ¬ w.Known

/-- That answer is stale. -/
theorem Known.stale (h : w.Known) : ∃ e ∈ w.errors, isStalePresignError e.message = true := by
  obtain ⟨e, he, hknown⟩ := h
  refine ⟨e, he, ?_⟩
  simp [isStalePresignError, isNonceError, hknown]

end RejectedBlob

/-- How far a pass is with the blob: not raced, rejected, or done with it (looked up, or never
raced, a transaction having been signed instead). -/
inductive Rejection | idle | rejected | settled
deriving DecidableEq

/-- Between its rejection and a look at the chain, no plan is failed or re-armed. -/
def rejection (w : RejectedBlob) : Monitor signature Thrown Rejection where
  guard s c :=
    match c with
    | .failMintPlanExecution _ => s ≠ .rejected
    | .releaseMintPlanToArmed .. => s ≠ .rejected
    | _ => True
  allowed s c x :=
    match c, x with
    | .selectPresigned _, .ok row => s = .idle → row = some w.row
    | .raceRawTransaction .., answer => s = .idle → answer = .ok (.error w.errors)
    | .clearPresignedTx _, answer => s = .rejected → answer.isOk = w.clears
    | _, _ => True
  next s c _ :=
    match s, c with
    | .idle, .raceRawTransaction .. => .rejected
    | .idle, .signManagedMintTransaction .. => .settled
    | .rejected, .getTransactionReceipt _ txHash => if txHash = w.txHash then .settled else .rejected
    | s, _ => s

/-- Every pass that races the blob, and has it rejected so, looks its transaction up before a plan
is failed or re-armed. -/
def AsksFirst (w : RejectedBlob) : Prop :=
  ∀ config tr en, (runMintExecutionPass config).Runs tr en →
    (rejection w).Admits .idle tr → (rejection w).Keeps .idle tr en

/-- **Rejections are handled** whatever the order of the endpoints: it does not change the decision,
and a transaction some endpoint knows is looked up first. -/
structure Handles (w : RejectedBlob) : Prop where
  ordered : ∀ errors' : List Thrown, errors'.Perm w.errors →
    broadcastDecision (pickBroadcastError errors') = broadcastDecision (pickBroadcastError w.errors)
  asks : w.Known → AsksFirst w

section

variable {w : RejectedBlob} {config : Config} {plan : Plan} {tx : Tx} {wallet : Wallet}
  {rpcUrl : String} {mode : FireMode} {α : Type} {p : Worker α} {s : Rejection}

/-! ### Away from the rejection -/

/-- Only a race rejects the blob. -/
theorem rejection_next {c : Cmd} (hc : ∀ urls rawTx, c ≠ .raceRawTransaction urls rawTx)
    (hs : s ≠ .rejected) (x : Except Thrown c.Resp) : (rejection w).next s c x ≠ .rejected := by
  cases s with
  | rejected => exact absurd rfl hs
  | settled => exact hs
  | idle =>
    cases c with
    | raceRawTransaction urls rawTx => exact absurd rfl (hc urls rawTx)
    | signManagedMintTransaction => simp [rejection]
    | _ => exact hs

theorem rejection_guard (hs : s ≠ .rejected) (c : Cmd) : (rejection w).guard s c := by
  cases c <;> first | exact trivial | exact hs

/-- What does not race may be issued at any other time. -/
theorem raceless_wp {C : Cmd → Prop} (hC : ∀ urls rawTx, ¬ C (.raceRawTransaction urls rawTx))
    (hp : p.Only (S := signature) C) (hs : s ≠ .rejected) :
    p.wp (rejection w) (fun _ s' => s' ≠ .rejected) s := by
  refine Prog.Only.wp (I := fun s => s ≠ .rejected) hp (fun s' c _ h => rejection_guard h c)
    (fun s' c x hc h _ => rejection_next ?_ h x) hs
  rintro urls rawTx rfl
  exact hC urls rawTx hc

theorem silent_rejection (hp : Silent p) (hs : s ≠ .rejected) :
    p.wp (rejection w) (fun _ s' => s' ≠ .rejected) s :=
  raceless_wp (fun _ _ => id) hp hs

theorem quiet_rejection (hp : Quiet p) (hs : s ≠ .rejected) :
    p.wp (rejection w) (fun _ s' => s' ≠ .rejected) s :=
  silent_rejection hp.silent hs

/-- Once the pass is done with the blob, it stays so. -/
theorem settled_wp (p : Worker α) : p.wp (rejection w) (fun _ s' => s' = .settled) .settled := by
  refine Prog.Only.wp (I := fun s => s = Rejection.settled) (Prog.Only.all p) (fun s' c _ h => ?_)
    (fun s' c x _ h _ => ?_) rfl
  · exact rejection_guard (by rw [h]; simp) c
  · rw [h]
    rfl

theorem rejection_quietKeeps (w : RejectedBlob) :
    QuietKeeps (rejection w) (fun s => s ≠ .rejected) fun s => s ≠ .rejected where
  guard s c _ hs := rejection_guard hs c
  next s c x hc hs _ := by
    refine rejection_next ?_ hs x
    rintro urls rawTx rfl
    exact hc
  ends _ hs := hs

/-! ### The live path -/

/-- A signature ends the pass's concern with the blob. -/
theorem signLive_rejection {key : String} {nonce gasEstimate : ℕ} {fees : FeeContext}
    (hs : s ≠ .rejected) : (signLive tx key mode nonce gasEstimate fees).wp (rejection w)
      (fun _ s' => s' = .settled) s := by
  have hsigned : ∀ (c : Cmd) x, (∃ managed key, c = .signManagedMintTransaction managed key) →
      (rejection w).next s c x = .settled := by
    rintro c x ⟨managed, key, rfl⟩
    cases s with
    | rejected => exact absurd rfl hs
    | idle => rfl
    | settled => rfl
  refine Prog.wp_bind_of (R := fun _ s' => s' = .settled) ?_ (fun signed s₁ h₁ => ?_) fun _ _ h => h
  · refine Prog.wp_tryCatch.mpr (Prog.wp_issue.mpr ⟨trivial, fun x _ => ?_⟩)
    rw [hsigned _ _ ⟨_, _, rfl⟩]
    cases x with
    | error e => rfl
    | ok signed => rfl
  · subst h₁
    exact settled_wp _

theorem fireLive_rejection {key : String} (hs : s ≠ .rejected) :
    (fireLive config plan tx wallet key rpcUrl mode).wp (rejection w)
      (fun _ s' => s' ≠ .rejected) s := by
  have hsettled : ∀ q : Worker Unit, q.wp (rejection w) (fun _ s' => s' ≠ .rejected) .settled := fun q =>
    Prog.wp_mono (settled_wp q) fun _ _ h => by simp [h]
  refine Prog.wp_bind.mpr (Prog.wp_attempt.mpr
    (Prog.wp_mono (quiet_rejection quiet_prepareLive hs) ?_))
  rintro (e | _ | ⟨gasEstimate, fees⟩) s₁ h₁
  · exact silent_rejection clerical_rescueLive.silent h₁
  · exact h₁
  · refine Prog.wp_bind.mpr (Prog.wp_attempt.mpr (Prog.wp_mono
      (silent_rejection (silent_ask (c := .reserveNonce wallet.address fees.nonce) trivial) h₁) ?_))
    rintro (e | nonce) s₂ h₂
    · exact silent_rejection clerical_rescueLive.silent h₂
    · refine Prog.wp_bind.mpr (Prog.wp_attempt.mpr (Prog.wp_mono (signLive_rejection h₂) ?_))
      rintro r s₃ rfl
      exact hsettled _

/-! ### The fast path -/

/-- The race rejects the blob, if it comes to it. -/
theorem raceBlob_rejection (hs : s = .idle) :
    (raceBlob config rpcUrl w.rawTx).wp (rejection w) (fun r s' =>
      s' = .idle ∧ (∃ e, r = .error e) ∨
        s' = .rejected ∧ r = .error (pickBroadcastError w.errors)) s := by
  subst hs
  refine Prog.wp_bind.mpr (Prog.wp_bind.mpr (Prog.wp_issue.mpr ⟨trivial, fun x _ => ?_⟩))
  cases x with
  | error e => exact Or.inl ⟨rfl, e, rfl⟩
  | ok rows =>
    refine Prog.wp_bind.mpr (Prog.wp_issue.mpr ⟨trivial, fun x hx => ?_⟩)
    rw [hx rfl]
    exact Or.inr ⟨rfl, rfl⟩

/-- Looking the blob's transaction up, at the first endpoint. -/
theorem presignedOutcome_rejection (hurls : mode.fireUrls ≠ []) :
    (presignedOutcome mode.fireUrls w.row).wp (rejection w) (fun _ s' => s' = .settled) .rejected := by
  show (resolveTxOutcome mode.fireUrls w.txHash).wp _ _ _
  cases hfire : mode.fireUrls with
  | nil => exact absurd hfire hurls
  | cons url urls =>
    have hnext : ∀ x,
        (rejection w).next .rejected (.getTransactionReceipt url w.txHash) x = .settled :=
      fun _ => if_pos rfl
    have honce : (resolveTxOutcomeOnce url w.txHash).wp (rejection w) (fun _ s' => s' = .settled)
        .rejected := by
      refine Prog.wp_bind.mpr (Prog.wp_attempt.mpr (Prog.wp_issue.mpr ⟨trivial, fun x _ => ?_⟩))
      rw [hnext]
      exact settled_wp _
    refine Prog.wp_bind_of honce (fun outcome s₁ h₁ => ?_) fun _ _ h => h
    subst h₁
    exact settled_wp _

/-- A rejection that is stale: the blob is cleared and its transaction looked up. -/
theorem discardBlob_rejection {error : Thrown} (hurls : mode.fireUrls ≠ [])
    (hclears : w.clears = true) (hdecision : broadcastDecision error = .resolve) :
    (discardBlob plan wallet mode w.row error).wp (rejection w) (fun _ s' => s' ≠ .rejected)
      .rejected := by
  rw [discardBlob_eq, hdecision]
  refine Prog.wp_bind.mpr (Prog.wp_bind.mpr (Prog.wp_issue.mpr ⟨trivial, fun x hx => ?_⟩))
  have hok : x.isOk = true := (hx rfl).trans hclears
  cases x with
  | error e => exact absurd hok Bool.false_ne_true
  | ok cleared =>
    refine Prog.wp_bind_of (presignedOutcome_rejection hurls) (fun outcome s₁ h₁ => ?_)
      fun _ _ h => by simp [h]
    subst h₁
    exact Prog.wp_mono (settled_wp _) fun _ _ h => by simp [h]

/-- **A fire of the blob** looks its transaction up before it fails or re-arms a plan, when the
rejection is stale and the blob is cleared. -/
theorem runManagedFire_rejection (hurls : mode.fireUrls ≠ []) (hclears : w.clears = true)
    (hdecision : broadcastDecision (pickBroadcastError w.errors) = .resolve) (hs : s ≠ .rejected) :
    (runManagedFire config plan tx wallet rpcUrl mode).wp (rejection w)
      (fun _ s' => s' ≠ .rejected) s := by
  cases s with
  | rejected => exact absurd rfl hs
  | settled => exact Prog.wp_mono (settled_wp _) fun _ _ h => by simp [h]
  | idle =>
    rw [runManagedFire]
    split
    · exact silent_rejection clerical_failed.silent hs
    · refine Prog.wp_bind.mpr (Prog.wp_issue.mpr ⟨trivial, fun x hx => ?_⟩)
      cases x with
      | error e => exact hs
      | ok fresh =>
        have hfresh : fresh = some w.row := hx rfl
        dsimp only
        split
        · next row rawTx hblob =>
          obtain ⟨hrow, hraw⟩ := of_blobToFire hblob
          obtain rfl : w.row = row := Option.some.inj (hfresh.symm.trans hrow)
          obtain rfl : w.rawTx = rawTx := Option.some.inj hraw
          have hfast : (fireFast config plan wallet rpcUrl mode w.row w.rawTx).wp (rejection w)
              (fun _ s' => s' ≠ .rejected) .idle := by
            refine Prog.wp_bind.mpr (Prog.wp_attempt.mpr (Prog.wp_mono (raceBlob_rejection rfl) ?_))
            rintro r s₁ (⟨rfl, e, rfl⟩ | ⟨rfl, rfl⟩)
            · exact silent_rejection clerical_discardBlob.silent hs
            · exact discardBlob_rejection hurls hclears hdecision
          refine Prog.wp_bind_of hfast (fun done s₁ h₁ => ?_) fun _ _ h => h
          split
          · exact h₁
          · exact fireLive_rejection h₁
        · exact fireLive_rejection hs

theorem endsIn_of_wp {I : Rejection → Prop} (h : p.wp (rejection w) (fun _ s' => I s') s) :
    p.wp (rejection w) (EndsIn I I) s :=
  Prog.wp_mono h fun r s' h => by cases r <;> exact h

/-- Every pass does. -/
theorem asksFirst_of (hclears : w.clears = true)
    (hdecision : broadcastDecision (pickBroadcastError w.errors) = .resolve) : AsksFirst w := by
  intro config tr en hr ha
  have hkeeps := rejection_quietKeeps w
  suffices hw : (runMintExecutionPass config).wp (rejection w)
      (EndsIn (fun s => s ≠ .rejected) fun s => s ≠ .rejected) .idle from (Prog.sound hw hr ha).1
  refine hkeeps.runMintExecutionPass (P := fun _ => True) (fun _ _ _ _ _ _ _ => trivial) ?_
    (by simp)
  intro plan s₁ _ h₁
  have hpass : PassKeeps (rejection w) config plan ⟨fun s => s ≠ .rejected,
      fun _ s => s ≠ .rejected, fun _ s => s ≠ .rejected, fun _ s => s ≠ .rejected,
      fun s => s ≠ .rejected, fun s => s ≠ .rejected⟩ := hkeeps.passKeeps plan
  refine hpass.firePlan_of (U := fun _ => True) (L := fun _ => True) (fun s' h' => ?_)
    (fun s' h' => ?_) ?_ h₁
  · exact Prog.wp_mono (quiet_rejection idle_resolveBroadcastRpcUrls.quiet h')
      fun _ _ h => ⟨h, fun _ _ => trivial⟩
  · exact Prog.wp_mono (quiet_rejection idle_loadPlan.quiet h') fun _ _ _ _ _ _ => trivial
  · intro registryUrls rpcUrl nearFire pre project wallet s' _ _ hmem h'
    have hgates : (rejection w).Maintains Cmd.Gates fun s => s ≠ .rejected := fun s c hc hs =>
      ⟨rejection_guard hs c, fun x _ => rejection_next (by rintro _ _ rfl; exact hc) hs x⟩
    refine hpass.idempotencyGate hgates (fun _ h => h) (fun s₂ h₂ => ?_) (fun s₂ h₂ => ?_) h'
    · exact endsIn_of_wp (quiet_rejection quiet_markMintPlanExecuted h₂)
    · refine hpass.fireClaimed_of (Q := fun _ => True) (fun _ _ _ => ?_) ?_ h₂
      · exact ⟨fun _ _ => trivial, fun _ _ _ _ _ _ _ _ _ _ _ _ _ _ => trivial,
          fun _ _ _ _ _ _ => trivial, fun _ _ _ _ _ _ _ _ => trivial⟩
      · intro fire tx s₃ _ _ _ _ hfireUrls h₃
        refine endsIn_of_wp ?_
        rw [runServerFire]
        split
        · refine runManagedFire_rejection ?_ hclears hdecision h₃
          show fire.fireUrls ≠ []
          rw [hfireUrls]
          exact List.ne_nil_of_mem hmem
        · exact raceless_wp (fun _ _ => id) delegated_runDelegatedFire h₃

end

/-! ### Rejections that are not handled -/

namespace Sample

/-- A plan with calldata in its cache, off the fire instant. -/
def cachedPlan : Plan := { plan with cachedTx := some tx, cachedTxAt := some 0 }

/-- The sample environment with that plan. -/
def cachedAnswer : (c : Cmd) → Except Thrown c.Resp
  | .claimArmedMintPlan .. => .ok (some cachedPlan)
  | c => answer c

/-- The pass of that plan, from its managed-key fire on. -/
def fromFire : Worker MintExecutionSummary := do
  let outcome ← tryCatch
    (do
      runManagedFire config cachedPlan tx wallet "rpc" fire.mode
      return "ready_for_delegated_signature")
    (rescuePass cachedPlan ["rpc"] none)
  return ⟨0, true, some outcome, some cachedPlan.id⟩

/-- Twelve answers into the pass, the fire begins. -/
theorem feed_cachedAnswer :
    ((runMintExecutionPass config).feed cachedAnswer 12).2 = fromFire := rfl

end Sample

section

variable {w : RejectedBlob}

theorem blobToFire_rejected : blobToFire Sample.fire.mode (some w.row) = some (w.row, w.rawTx) := by
  show (if w.rawTx = "" then none else some (w.row, w.rawTx)) = _
  exact if_neg w.rawTx_ne

/-- What breaks the sample's fire breaks its pass. -/
theorem not_asksFirst_of (h : Sample.fromFire.Breaks (rejection w) .idle) : ¬ AsksFirst w := by
  have hadmits : (rejection w).Admits .idle
      ((runMintExecutionPass Sample.config).feed Sample.cachedAnswer 12).1 := by
    repeat refine ⟨trivial, ?_⟩
    trivial
  have hafter : (rejection w).after .idle
      ((runMintExecutionPass Sample.config).feed Sample.cachedAnswer 12).1 = .idle := rfl
  have hbreaks : (runMintExecutionPass Sample.config).Breaks (rejection w) .idle := by
    refine Prog.Breaks.of_feed Sample.cachedAnswer 12 hadmits ?_
    rw [hafter, Sample.feed_cachedAnswer]
    exact h
  obtain ⟨tr, en, hr, ha, hk⟩ := hbreaks.exists_run
  exact fun hasks => hk (hasks _ tr en hr ha)

/-- The blob of the sample's fire is raced, and rejected. -/
theorem raceBlob_may : (raceBlob Sample.config "rpc" w.rawTx).may (rejection w)
    (fun r s' => r = .error (pickBroadcastError w.errors) ∧ s' = .rejected) .idle := by
  refine Prog.may_bind (broadcastRpcUrls [] Sample.config.robinhoodChainId (some "rpc"))
    (Prog.may_bind [] (Prog.may_issue (.ok []) trivial ⟨rfl, rfl, ?_⟩))
  exact Prog.may_bind (.error w.errors)
    (Prog.may_issue (.ok (.error w.errors)) (fun _ => rfl) ⟨rfl, rfl, rfl⟩)

/-- A plan is failed with nothing looked up. -/
theorem fromFire_breaks_of_fail (hclears : w.clears = true)
    (hdecision : broadcastDecision (pickBroadcastError w.errors) = .fail) :
    Sample.fromFire.Breaks (rejection w) .idle := by
  have hdiscard : (discardBlob Sample.cachedPlan Sample.wallet Sample.fire.mode w.row
      (pickBroadcastError w.errors)).Breaks (rejection w) .rejected := by
    rw [discardBlob_eq, hdecision]
    refine .bind () (Prog.may_bind true
      (Prog.may_issue (.ok true) (fun _ => hclears.symm) ⟨rfl, rfl, ?_⟩))
    refine .bind () (Prog.may_issue (.ok ()) trivial ⟨rfl, ?_⟩)
    exact .bind_left (.bind_left (.issue fun hguard => hguard rfl))
  refine .bind_left (.tryCatch (.bind_left ?_))
  refine .bind (some w.row) (Prog.may_issue (.ok (some w.row)) (fun _ => rfl) ⟨rfl, ?_⟩)
  rw [blobToFire_rejected]
  refine .bind_left (.bind (.error (pickBroadcastError w.errors))
    (Prog.may_attempt.mpr (Prog.may_mono raceBlob_may ?_)))
  rintro _ _ ⟨rfl, rfl⟩
  exact ⟨rfl, hdiscard⟩

/-- The blob is not cleared; the pass's `catch` re-arms the plan with nothing looked up. -/
theorem fromFire_breaks_of_stuck (hclears : w.clears = false) :
    Sample.fromFire.Breaks (rejection w) .idle := by
  have hlost : ∀ {α : Type} {f : Unit → Worker α}, (clearPresignedTx Sample.cachedPlan >>= f).may
      (rejection w) (fun r s' => r = .error (.error "") ∧ s' = .rejected) .rejected :=
    ⟨.error (.error ""), fun _ => hclears.symm, rfl, rfl⟩
  have hfire : (runManagedFire Sample.config Sample.cachedPlan Sample.tx Sample.wallet "rpc"
      Sample.fire.mode).may (rejection w)
        (fun r s' => r = .error (.error "") ∧ s' = .rejected) .idle := by
    refine Prog.may_bind (some w.row) (Prog.may_issue (.ok (some w.row)) (fun _ => rfl) ⟨rfl, ?_⟩)
    rw [blobToFire_rejected]
    have hfast : (fireFast Sample.config Sample.cachedPlan Sample.wallet "rpc" Sample.fire.mode
        w.row w.rawTx).may (rejection w) (fun r s' => r = .error (.error "") ∧ s' = .rejected)
        .idle := by
      refine Prog.may_bind (.error (pickBroadcastError w.errors))
        (Prog.may_attempt.mpr (Prog.may_mono raceBlob_may ?_))
      rintro _ _ ⟨rfl, rfl⟩
      exact ⟨rfl, hlost⟩
    refine Prog.may_bind_of hfast ?_ ?_
    · rintro done s' ⟨h, _⟩
      exact absurd h (by simp)
    · rintro _ _ ⟨⟨⟩, rfl⟩
      exact ⟨rfl, rfl⟩
  have hrescue : (rescuePass Sample.cachedPlan ["rpc"] none (.error "")).Breaks (rejection w)
      .rejected := by
    refine .bind () (Prog.may_issue (.ok ()) trivial ⟨rfl, .bind_left (.bind_left (.attempt ?_))⟩)
    refine .bind (0 : ℤ) (Prog.may_issue (.ok (0 : ℤ)) trivial ⟨rfl, .bind_left (.issue ?_)⟩)
    exact fun hguard => hguard rfl
  refine .bind_left (.andThen_right ?_)
  refine Prog.may_bind_of hfire ?_ ?_
  · rintro done s' ⟨h, _⟩
    exact absurd h (by simp)
  · rintro _ _ ⟨⟨⟩, rfl⟩
    exact hrescue

/-- **Rejections of a broadcast.**  The fast path's decision is the same for every order of the
endpoints, and no pass fails or re-arms a plan before it has looked up a transaction that some
endpoint knows, exactly when the rejections about funds are all stale, and the blob is cleared if
some endpoint knows it; or when none of them is stale, and no endpoint knows it. -/
theorem handles_iff (w : RejectedBlob) : Handles w ↔ w.Settled := by
  constructor
  · intro h
    have halike := (decides_alike_iff w.errors_ne).mp h.ordered
    by_cases hstale : ∀ e ∈ w.errors, isInsufficientFundsError e.message = true →
        isStalePresignError e.message = true
    · refine Or.inl ⟨hstale, fun hknown => ?_⟩
      by_contra hclears
      exact not_asksFirst_of (fromFire_breaks_of_stuck (Bool.eq_false_iff.mpr hclears))
        (h.asks hknown)
    · push Not at hstale
      obtain ⟨e, he, hfunds, hfresh⟩ := hstale
      have hnone : ∀ e' ∈ w.errors, isInsufficientFundsError e'.message = true →
          isStalePresignError e'.message = false := fun e' he' hfunds' =>
        (halike e' he' e he hfunds' hfunds).trans (Bool.eq_false_iff.mpr hfresh)
      refine Or.inr ⟨hnone, fun hknown => ?_⟩
      -- the pick is about funds, and not stale
      obtain ⟨hit, hfind⟩ : ∃ hit,
          (w.errors.find? fun e => isInsufficientFundsError e.message) = some hit :=
        Option.isSome_iff_exists.mp (List.find?_isSome.mpr ⟨e, he, hfunds⟩)
      have hhit := List.find?_some hfind
      have hdecision : broadcastDecision (pickBroadcastError w.errors) = .fail := by
        rw [broadcastDecision_pick w.errors_ne, hfind, Option.map_some, Option.getD_some,
          broadcastDecision_of_funds hhit, hnone hit (List.mem_of_find?_eq_some hfind) hhit,
          if_neg Bool.false_ne_true]
      cases hclears : w.clears with
      | true => exact not_asksFirst_of (fromFire_breaks_of_fail hclears hdecision) (h.asks hknown)
      | false => exact not_asksFirst_of (fromFire_breaks_of_stuck hclears) (h.asks hknown)
  · rintro (⟨hstale, hclears⟩ | ⟨hfresh, hunknown⟩)
    · refine ⟨(decides_alike_iff w.errors_ne).mpr fun e he e' he' hf hf' => ?_, fun hknown => ?_⟩
      · rw [hstale e he hf, hstale e' he' hf']
      · exact asksFirst_of (hclears hknown) (broadcastDecision_pick_stale hstale hknown.stale)
    · refine ⟨(decides_alike_iff w.errors_ne).mpr fun e he e' he' hf hf' => ?_, fun hknown => ?_⟩
      · rw [hfresh e he hf, hfresh e' he' hf']
      · exact absurd hknown hunknown

end

/-- One endpoint takes the wallet to be empty, the other holds the very transaction in its pool. -/
def Sample.brokeAndKnown : RejectedBlob where
  rawTx := "signed"
  txHash := "hash"
  nonce := some 5
  rawTx_ne := by decide
  errors := [.error "insufficient funds for gas * price + value", .error "already known"]
  errors_ne := by decide
  clears := true

/-- An answer about funds, and a relay's that also passes an answer about the nonce on. -/
def Sample.mixedErrors : List Thrown :=
  [.error "insufficient funds for gas * price + value",
    .error "all upstreams failed: insufficient funds for gas * price + value; nonce too low"]

/-- **A known transaction is not looked up.**  The plan is failed although an endpoint holds its
transaction; and with the two answers of a relay, the plan's fate is the endpoints' order. -/
theorem known_is_failed :
    Sample.brokeAndKnown.Known ∧ ¬ AsksFirst Sample.brokeAndKnown ∧
      broadcastDecision (pickBroadcastError Sample.mixedErrors) = .fail ∧
      broadcastDecision (pickBroadcastError Sample.mixedErrors.reverse) = .resolve := by
  refine ⟨?_, not_asksFirst_of (fromFire_breaks_of_fail rfl ?_), ?_, ?_⟩
  · exact ⟨.error "already known", by decide, by decide⟩
  · decide
  · decide
  · decide +kernel

end MintWorker
