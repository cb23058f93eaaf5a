/-
The idempotency gate of the fire path.

Fix what is recorded of a plan and what the endpoints know (`GateWorld`).  A recorded
transaction has `Landed` when some fire endpoint reads a successful receipt for some
recorded hash; the gate has `Seen` it when that is the newest broadcast's.

* `gate_completes_iff` — the pass completes a plan whose transaction has landed, and
  neither signs nor sends, exactly when the gate sees it;
* `gate_refires` — a landed transaction the gate does not see: the newest broadcast
  reverted, an older one mined.
-/
import HoodMint.PassFrame
import Mathlib.Data.Finset.Max

namespace MintWorker

open Effect

/-! ### What is recorded and what is known -/

/-- The registry of endpoints, the broadcast attempts recorded for the plan with their
times, and each endpoint's answer for each hash. -/
structure GateWorld where
  registry : List RpcEndpoint
  broadcasts : List (Option String × ℤ)
  receipt : Receipts

namespace GateWorld

variable (w : GateWorld)

/-- The endpoints of the fire path. -/
def fireUrls (config : Config) : List String :=
  mintRpcUrls config (broadcastRpcUrls w.registry config.robinhoodChainId config.rpcUrl)

/-- The row is the newest broadcast. -/
def Newest (row : Option String × ℤ) : Prop :=
  row ∈ w.broadcasts ∧ ∀ r ∈ w.broadcasts, r.2 ≤ row.2

/-- Some recorded broadcast has a successful receipt at some fire endpoint. -/
def Landed (config : Config) : Prop :=
  ∃ row ∈ w.broadcasts, ∃ txHash ∈ row.1, ∃ url ∈ w.fireUrls config,
    w.receipt url txHash = .ok (some .success)

/-- The newest broadcast carries a hash whose first definite answer is success. -/
def Seen (config : Config) : Prop :=
  ∀ row, w.Newest row → ∃ txHash ∈ row.1, w.receipt.outcome (w.fireUrls config) txHash = .success

theorem exists_newest {row : Option String × ℤ} (h : row ∈ w.broadcasts) : ∃ r, w.Newest r := by
  obtain ⟨r, hr, hmax⟩ := w.broadcasts.toFinset.exists_max_image Prod.snd
    ⟨row, List.mem_toFinset.mpr h⟩
  exact ⟨r, List.mem_toFinset.mp hr, fun r' hr' => hmax r' (List.mem_toFinset.mpr hr')⟩

end GateWorld

/-- Whether the pass has read the broadcast history, and whether it has completed the
plan since it began. -/
structure GateState where
  asked : Bool
  marked : Bool

/-- The command signs or sends a transaction. -/
def Cmd.Fires : Cmd → Prop
  | .broadcastRawTransaction .. | .raceRawTransaction .. | .signManagedMintTransaction ..
  | .signExecutorTransaction .. => True
  | _ => False

/-- A pass over `plan` that neither signs nor sends, in a world that answers for the
registry, the broadcast history and the receipts as `w` says. -/
def gateMonitor (plan : Plan) (w : GateWorld) : Monitor signature Thrown GateState where
  guard _ c := ¬ Cmd.Fires c
  allowed _ c x :=
    match c, x with
    | .claimArmedMintPlan .., .ok (some claimed) => claimed = plan
    | .listRpcEndpoints _, .ok registry => registry = w.registry
    | .selectLatestBroadcast _, .ok none => w.broadcasts = []
    | .selectLatestBroadcast _, .ok (some row) => w.Newest row
    | .selectLatestBroadcast _, .error _ => False
    | .getTransactionReceipt url txHash, answer => answer = w.receipt url txHash
    | _, _ => True
  next s c _ :=
    match c with
    | .selectLatestBroadcast _ => { s with asked := true }
    | .markMintPlanExecuted _ => { s with marked := true }
    | _ => s

/-- Every pass over the plan that gets to read the broadcast history completes it, and
signs and sends nothing. -/
def GateCompletes (config : Config) (plan : Plan) (w : GateWorld) : Prop :=
  ∀ tr en, (runMintExecutionPass config).Runs tr en →
    (gateMonitor plan w).Admits ⟨false, false⟩ tr →
    (gateMonitor plan w).Keeps ⟨false, false⟩ tr en ∧
      ∀ r, en = .finished r → ((gateMonitor plan w).after ⟨false, false⟩ tr).asked = true →
        ((gateMonitor plan w).after ⟨false, false⟩ tr).marked = true

/-! ### A landed transaction that is seen -/

section

variable {config : Config} {plan : Plan} {w : GateWorld} {s : GateState}

/-- A pass that has asked has completed the plan. -/
def GateState.Settled (s : GateState) : Prop := s.asked = true → s.marked = true

theorem gateMonitor_quietKeeps :
    QuietKeeps (gateMonitor plan w) GateState.Settled GateState.Settled where
  guard s c hc _ := by
    intro hf
    cases c <;> first | exact hc | exact hf
  next s c x hc hs _ := by
    cases c <;> first | exact hs | exact absurd hc id | exact fun _ => rfl
  ends s hs := hs

/-- The endpoints answer for a hash as the world says, at any time. -/
theorem gateMonitor_receipts {txHash : String} (url : String) :
    (gateMonitor plan w).guard s (.getTransactionReceipt url txHash) ∧
      ∀ x, (gateMonitor plan w).allowed s (.getTransactionReceipt url txHash) x →
        x = w.receipt url txHash ∧
          (gateMonitor plan w).next s (.getTransactionReceipt url txHash) x = s :=
  ⟨id, fun _ hx => ⟨hx, rfl⟩⟩

/-- Under `Seen`, the history read hands the gate a transaction that has landed. -/
theorem latestBroadcastAttempt_wp (hl : w.Landed config) (hs : w.Seen config) :
    (latestBroadcastAttempt plan).wp (gateMonitor plan w)
      (fun r _ => ∃ txHash attemptAt, r = .ok (some (txHash, attemptAt)) ∧
        w.receipt.outcome (w.fireUrls config) txHash = .success) s := by
  refine Prog.wp_bind.mpr (Prog.wp_issue.mpr ⟨id, fun x hx => ?_⟩)
  rcases x with e | _ | row
  · exact absurd hx id
  · obtain ⟨row, hrow, _⟩ := hl
    rw [show w.broadcasts = [] from hx] at hrow
    exact absurd hrow List.not_mem_nil
  · obtain ⟨txHash, hhash, hsuccess⟩ := hs row hx
    obtain ⟨_, attemptAt⟩ := row
    obtain rfl : _ = some txHash := hhash
    exact ⟨txHash, attemptAt, rfl, hsuccess⟩

theorem idempotencyGate_wp (hl : w.Landed config) (hs : w.Seen config) {rest : Worker String} :
    (idempotencyGate plan (w.fireUrls config) rest).wp (gateMonitor plan w)
      (EndsIn GateState.Settled GateState.Settled) s := by
  refine Prog.wp_bind_of (latestBroadcastAttempt_wp hl hs) ?_ ?_
  · rintro _ s₁ ⟨txHash, attemptAt, ⟨⟩, hsuccess⟩
    refine Prog.wp_bind_of (resolveTxOutcome_wp gateMonitor_receipts _) ?_ fun e s' h => nomatch h.1
    rintro _ s₂ ⟨⟨⟩, rfl⟩
    rw [hsuccess]
    refine Prog.wp_bind.mpr (Prog.wp_bind.mpr (Prog.wp_issue.mpr ⟨id, fun x _ => ?_⟩))
    rcases x with e | found
    · exact fun _ => rfl
    · exact fun _ => rfl
  · rintro e s₁ ⟨_, _, h, _⟩
    exact nomatch h

/-- The pass completes a plan whose landed transaction the gate sees. -/
theorem gateCompletes_of_seen (hl : w.Landed config) (hs : w.Seen config) :
    GateCompletes config plan w := by
  intro tr en hr ha
  have hwp : (runMintExecutionPass config).wp (gateMonitor plan w)
      (EndsIn GateState.Settled GateState.Settled) ⟨false, false⟩ := by
    refine gateMonitor_quietKeeps.runMintExecutionPass (P := fun claimed => claimed = plan)
      (fun _ _ _ _ _ _ h => h) ?_ (fun h => h)
    rintro _ s rfl hsettled
    refine gateMonitor_quietKeeps.firePlan
      (U := fun urls => mintRpcUrls config urls = w.fireUrls config) (fun s' h' => ?_) ?_ hsettled
    · refine Prog.wp_bind.mpr (Prog.wp_issue.mpr ⟨id, fun x hx => ?_⟩)
      rcases x with e | registry
      · exact ⟨h', fun _ h => nomatch h⟩
      · obtain rfl : registry = w.registry := hx
        refine ⟨h', ?_⟩
        rintro _ ⟨⟩
        rfl
    · intro registryUrls rpcUrl nearFire pre project wallet s' hU _
      rw [hU]
      exact idempotencyGate_wp hl hs
  obtain ⟨hk, hq⟩ := Prog.sound hwp hr ha
  refine ⟨hk, fun r hfin => ?_⟩
  have h := hq r hfin
  cases r with
  | error => exact h
  | ok => exact h

/-! ### A landed transaction that is not seen -/

/-- The world answers every command. -/
theorem gateMonitor_answers (s : GateState) (c : Cmd) :
    ∃ x, (gateMonitor plan w).allowed s c x := by
  cases c with
  | selectLatestBroadcast =>
    by_cases hb : w.broadcasts = []
    · exact ⟨.ok none, hb⟩
    · obtain ⟨row, hrow⟩ := List.exists_mem_of_ne_nil _ hb
      obtain ⟨r, hr⟩ := w.exists_newest hrow
      exact ⟨.ok (some r), hr⟩
  | getTransactionReceipt url txHash => exact ⟨w.receipt url txHash, rfl⟩
  | claimArmedMintPlan => exact ⟨.ok none, trivial⟩
  | listRpcEndpoints => exact ⟨.ok w.registry, rfl⟩
  | _ => exact ⟨.error (.error ""), trivial⟩

theorem isNearFireInstant_may (plan : Plan) (w : GateWorld) (s : GateState) :
    ∃ nearFire, (isNearFireInstant plan).may (gateMonitor plan w)
      (fun r s' => r = .ok nearFire ∧ s' = s) s := by
  cases hfire : plan.fireAt with
  | some fireAt =>
    refine ⟨decide (((0 : ℤ) - fireAt).natAbs ≤ fireBurstWindowMs),
      Prog.may_bind (some fireAt) ?_⟩
    rw [fireTargetMs, hfire]
    exact ⟨rfl, Prog.may_bind (0 : ℤ) (Prog.may_issue (.ok (0 : ℤ)) trivial ⟨rfl, rfl, rfl⟩)⟩
  | none =>
    refine ⟨false, Prog.may_bind none ?_⟩
    rw [fireTargetMs, hfire]
    cases plan.stageId with
    | none => exact ⟨rfl, rfl, rfl⟩
    | some stageId => exact Prog.may_issue (.ok none) trivial ⟨rfl, rfl, rfl⟩

/-- The rest of the pass can end at once: the project may be gone. -/
theorem idempotencyGate_may {fireUrls : List String} {row : Option String × ℤ}
    (hrow : w.Newest row) (hmiss : ∀ txHash ∈ row.1, w.receipt.outcome fireUrls txHash ≠ .success)
    {outcome : String} (hs : s.marked = false) :
    (idempotencyGate plan fireUrls (recordPass plan outcome)).may (gateMonitor plan w)
      (fun r s' => (∃ o, r = .ok o) ∧ s'.asked = true ∧ s'.marked = false) s := by
  have hrest : (recordPass plan outcome).may (gateMonitor plan w)
      (fun r s' => (∃ o, r = .ok o) ∧ s'.asked = true ∧ s'.marked = false)
      { s with asked := true } :=
    Prog.may_bind () (Prog.may_issue (.ok ()) trivial ⟨rfl, ⟨outcome, rfl⟩, rfl, hs⟩)
  obtain ⟨_ | txHash, attemptAt⟩ := row
  · refine Prog.may_bind none (Prog.may_bind (some (none, attemptAt)) ?_)
    exact Prog.may_issue (.ok (some (none, attemptAt))) hrow ⟨rfl, rfl, hrest⟩
  · refine Prog.may_bind (some (txHash, attemptAt))
      (Prog.may_bind (some (some txHash, attemptAt)) ?_)
    refine Prog.may_issue (.ok (some (some txHash, attemptAt))) hrow ⟨rfl, rfl, ?_⟩
    refine Prog.may_bind (w.receipt.outcome fireUrls txHash) ?_
    refine Prog.may_mono (Prog.may_of_wp gateMonitor_answers (resolveTxOutcome_wp gateMonitor_receipts fireUrls)) ?_
    rintro _ _ ⟨rfl, rfl⟩
    refine ⟨rfl, ?_⟩
    have hne := hmiss txHash rfl
    cases ho : w.receipt.outcome fireUrls txHash with
    | success => exact absurd ho hne
    | reverted => exact hrest
    | unknown =>
      refine Prog.may_bind (attemptAt + priorBroadcastGraceMs)
        (Prog.may_issue (.ok (attemptAt + priorBroadcastGraceMs)) trivial ⟨rfl, ?_⟩)
      have hpast : ¬ attemptAt + priorBroadcastGraceMs - attemptAt < priorBroadcastGraceMs := by
        omega
      rw [if_neg hpast]
      exact hrest

/-- A landed transaction the gate does not see: some pass reads the history and does not
complete the plan. -/
theorem runMintExecutionPass_may (plan : Plan) (hl : w.Landed config) (hs : ¬ w.Seen config) :
    (runMintExecutionPass config).may (gateMonitor plan w)
      (fun _ s' => s'.asked = true ∧ s'.marked = false) ⟨false, false⟩ := by
  obtain ⟨row, hrow, hmiss⟩ : ∃ row, w.Newest row ∧
      ∀ txHash ∈ row.1, w.receipt.outcome (w.fireUrls config) txHash ≠ .success := by
    rw [GateWorld.Seen] at hs
    push Not at hs
    exact hs
  obtain ⟨_, _, _, _, url, hurl, _⟩ := hl
  refine Prog.may_bind (0 : ℤ) (Prog.may_issue (.ok (0 : ℤ)) trivial ⟨rfl, ?_⟩)
  refine Prog.may_bind (0 : ℕ) (Prog.may_issue (.ok (0 : ℕ)) trivial ⟨rfl, ?_⟩)
  refine Prog.may_bind (some plan) (Prog.may_issue (.ok (some plan)) rfl ⟨rfl, ?_⟩)
  suffices hfire : (firePlan config plan).may (gateMonitor plan w)
      (fun r s' => (∃ o, r = .ok o) ∧ s'.asked = true ∧ s'.marked = false) ⟨false, false⟩ by
    exact Prog.may_bind_of hfire (fun _ _ h => h.2) fun _ _ h => h.2
  refine Prog.may_bind (.ok (broadcastRpcUrls w.registry config.robinhoodChainId config.rpcUrl))
    (Prog.may_attempt.mpr (Prog.may_bind w.registry (Prog.may_issue (.ok _) rfl ⟨rfl, rfl, ?_⟩)))
  dsimp only
  split
  · next hnil =>
    rw [GateWorld.fireUrls, hnil] at hurl
    exact absurd hurl List.not_mem_nil
  · next rpcUrl urls hfire =>
    refine Prog.may_bind (.ok (none, none)) (Prog.may_attempt.mpr (Prog.may_bind none
      (Prog.may_issue (.ok none) trivial ⟨rfl, Prog.may_bind none
        (Prog.may_issue (.ok none) trivial ⟨rfl, rfl, ?_⟩)⟩)))
    suffices hbody : (passBody config plan (rpcUrl :: urls) rpcUrl none none).may
        (gateMonitor plan w) (fun r s' => (∃ o, r = .ok o) ∧ s'.asked = true ∧ s'.marked = false)
        ⟨false, false⟩ by
      exact Prog.may_tryCatch_of hbody (fun _ _ h => h) fun _ _ h => nomatch h.1
    obtain ⟨nearFire, hnear⟩ := isNearFireInstant_may plan w ⟨false, false⟩
    refine Prog.may_bind nearFire (Prog.may_mono hnear ?_)
    rintro _ _ ⟨rfl, rfl⟩
    refine ⟨rfl, Prog.may_bind ⟨none, none⟩ ⟨rfl, ?_⟩⟩
    rw [← hfire]
    exact idempotencyGate_may hrow hmiss rfl

/-- **The idempotency gate.**  A pass over a plan one of whose recorded transactions has
landed completes it, and neither signs nor sends, if and only if the gate sees the
transaction: the newest recorded broadcast carries a hash, and the first endpoint with a
definite answer for it answers success. -/
theorem gate_completes_iff (config : Config) (plan : Plan) (w : GateWorld) :
    (w.Landed config → GateCompletes config plan w) ↔ ¬ w.Landed config ∨ w.Seen config := by
  constructor
  · intro h
    by_contra hne
    rw [not_or, not_not] at hne
    obtain ⟨tr, r, hr, ha, hasked, hmarked⟩ :=
      Prog.exists_run (runMintExecutionPass_may plan hne.1 hne.2)
    have hm := (h hne.1 tr _ hr ha).2 r rfl hasked
    rw [hmarked] at hm
    exact Bool.noConfusion hm
  · rintro (hl | hs) hl'
    · exact absurd hl' hl
    · exact gateCompletes_of_seen hl' hs

/-- Two broadcasts: the older one has mined, the newer one has reverted. -/
def Sample.landedWorld : GateWorld where
  registry := []
  broadcasts := [(some "older", 0), (some "newer", 1000)]
  receipt _ txHash := .ok (if txHash = "older" then some .success else some .reverted)

/-- The sample environment over that world. -/
def Sample.landedAnswer : ℕ → (c : Cmd) → Except Thrown c.Resp
  | _, .selectLatestBroadcast _ => .ok (some (some "newer", 1000))
  | _, .getTransactionReceipt url txHash => landedWorld.receipt url txHash
  | _, c => answer c

instance (c : Cmd) : Decidable c.Fires := by
  cases c <;> first | exact isTrue trivial | exact isFalse id

instance (plan : Plan) (w : GateWorld) (s : GateState) (c : Cmd) :
    Decidable ((gateMonitor plan w).guard s c) :=
  inferInstanceAs (Decidable (¬ _))

instance (w : GateWorld) (row : Option String × ℤ) : Decidable (w.Newest row) :=
  inferInstanceAs (Decidable (_ ∧ _))

/-- **The gate fires again.**  The older transaction has landed, but the gate only asks
about the newer one: the pass signs and sends a third. -/
theorem gate_refires :
    Sample.landedWorld.Landed Sample.config ∧
      ∃ tr en, (runMintExecutionPass Sample.config).Runs tr en ∧
        (gateMonitor Sample.plan Sample.landedWorld).Admits ⟨false, false⟩ tr ∧
        ¬ (gateMonitor Sample.plan Sample.landedWorld).Keeps ⟨false, false⟩ tr en := by
  refine ⟨⟨_, List.mem_cons_self, "older", rfl, "rpc", by decide, rfl⟩, _, _,
    Prog.exec_runs Sample.landedAnswer (runMintExecutionPass Sample.config) 0,
    Prog.exec_admits (fun s n c => ?_) _ 0 _, by decide⟩
  cases c with
  | selectLatestBroadcast =>
    exact (by decide : Sample.landedWorld.Newest (some "newer", 1000))
  | claimArmedMintPlan => exact rfl
  | listRpcEndpoints => exact rfl
  | getTransactionReceipt => exact rfl
  | _ => exact trivial

end

end MintWorker
