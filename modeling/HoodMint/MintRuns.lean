/-
Runs of the mint worker over the tables it shares with the console.

Passes that fire and passes that pre-sign interleave at every command
(`HoodMint.Lib.Interleave`), with the statements of the operators and of the other workers
between them.  A statement that fails has not been executed; a sweep that fails while it
publishes its events is the sweep of another worker, and a failure.

* `MintWorld` — the tables, and what has been signed and reported;
* `mintWorld` — the answers the tables give, and what the commands change, as a monitor;
* `MintRun`, `step` — the system; every pass carries a state of its own, which `L` follows;
* `next_cases` — what a command does to the plans is one statement of `MintPlans`, or nothing;
* `MintRun.OnCommand` — a guard of runs that is about the commands of the passes.
-/
import HoodMint.Lib.Interleave
import HoodMint.PlanLifecycle
import HoodMint.PresignPass

namespace MintWorker

open Effect Relational Transition

/-! ### What the passes share -/

/-- A row of `execution_attempts`. -/
structure AttemptRow where
  id : ℕ
  planId : String
  attempt : Attempt
  attemptAt : ℤ

/-- The tables, with the attempts newest first, and the next reading of a clock.  Of the raw
transactions signed so far `signed` keeps the values they forward; `cleared` holds those
signed before a wallet's blobs were cleared and not again since, with the wallet; `reverted`
holds the hashes an endpoint has reported as reverted. -/
structure MintWorld where
  db : PlanDb
  attempts : List AttemptRow
  nowMs : ℤ
  signed : List (String × ℕ)
  cleared : List (String × String)
  reverted : List String

/-- What `runManagedFire` reads back of a plan's blob. -/
def MintPlan.blob (r : MintPlan) : Presigned :=
  ⟨r.presignedRawTx, r.presignedTxHash, r.presignedNonce⟩

/-- `armedManagedPlansForPresign` may list the row as this candidate. -/
def MintPlan.ListedAs (r : MintPlan) (stages : DropStages) (now : ℤ) (c : PresignCandidate) :
    Prop :=
  r.id = c.planId ∧ r.walletId = c.walletId ∧ r.status = .armed ∧
    (∃ u ∈ r.armedUntil, now < u) ∧
    r.fireAt.or ((r.stage stages).map DropStage.startsAt) = some c.stageStartMs ∧
    c.presignedAt = r.presignedAt ∧ c.presignedNonce = r.presignedNonce ∧
    c.cachedTx = r.cachedTx ∧ c.cachedTxAt = r.cachedTxAt ∧
    c.perPlanCeilingWei = r.perPlanCeilingWei ∧ c.quantity = r.quantity

instance (r : MintPlan) (stages : DropStages) (now : ℤ) (c : PresignCandidate) :
    Decidable (r.ListedAs stages now c) :=
  (inferInstance : Decidable (_ ∧ _ ∧ _ ∧ (∃ u ∈ r.armedUntil, now < u) ∧ _))

namespace MintWorld

/-- The newest broadcast of a plan. -/
def latestBroadcast (w : MintWorld) (planId : String) : Option (Option String × ℤ) :=
  (w.attempts.find? fun r => r.planId = planId ∧ r.attempt.status = .broadcast).map fun r =>
    (r.attempt.txHash, r.attemptAt)

/-- A raw transaction forwards one value. -/
def MayForward (w : MintWorld) (rawTx : String) (valueWei : ℕ) : Prop :=
  ∀ e ∈ w.signed, e.1 = rawTx → e.2 = valueWei

instance (w : MintWorld) (rawTx : String) (valueWei : ℕ) : Decidable (w.MayForward rawTx valueWei) :=
  (inferInstance : Decidable (∀ e ∈ w.signed, e.1 = rawTx → e.2 = valueWei))

/-- A statement of the plans; clearing a wallet is remembered. -/
def exec (w : MintWorld) (s : PlanStatement) : MintWorld :=
  { w with
    db := w.db.exec s
    cleared := match s with
      | .clearPresignedForWallet walletId _ =>
        w.signed.map (fun e => (walletId, e.1)) ++ w.cleared
      | _ => w.cleared }

/-- A raw transaction has been signed. -/
def sign (w : MintWorld) (rawTx : String) (valueWei : ℕ) : MintWorld :=
  { w with
    signed := (rawTx, valueWei) :: w.signed
    cleared := w.cleared.filter fun e => e.2 ≠ rawTx }

/-- A row of `execution_attempts` is inserted. -/
def record (w : MintWorld) (planId : String) (attempt : Attempt) : MintWorld :=
  { w with attempts := ⟨w.attempts.length, planId, attempt, w.nowMs⟩ :: w.attempts }

/-- `markExecutionAttemptBroadcast`, which is all `recordBrowserSignatureAction` does. -/
def markExecutionAttemptBroadcast (w : MintWorld) (attemptId : ℕ) (txHash : String) : MintWorld :=
  { w with
    attempts := w.attempts.map fun r =>
      if r.id = attemptId ∧ r.attempt.status = .awaitingSignature then
        { r with attempt := { r.attempt with status := .broadcast, txHash := some txHash } }
      else r }

end MintWorld

/-- The tables answer what they hold.  A claim is answered with a due plan, or with none when
others have locked what is due. -/
def mintWorld : Monitor signature Thrown MintWorld where
  guard _ _ := True
  allowed w c x :=
    match c, x with
    | .claimArmedMintPlan now leaseMs leadMs, .ok (some plan) =>
      ∃ r ∈ w.db.plans, r.Due w.db.stages now leaseMs leadMs ∧ plan = r.claimed
    | .armedManagedPlansForPresign now, .ok plans =>
      ∀ c ∈ plans, ∃ r ∈ w.db.plans, r.ListedAs w.db.stages now c
    | .selectPresigned planId, .ok row => row = (w.db.plans.get? planId).map MintPlan.blob
    | .selectLatestBroadcast planId, .ok row => row = w.latestBroadcast planId
    | .signManagedMintTransaction tx _, .ok signed => w.MayForward signed.rawTx tx.tx.valueWei
    | .signExecutorTransaction tx _, .ok signed => w.MayForward signed.rawTx tx.inner.valueWei
    | _, _ => True
  next w c x :=
    match c, x with
    | .claimArmedMintPlan .., .ok (some plan) =>
      { w with db := { w.db with plans := MintPlans.claimRow w.db.plans plan.id w.nowMs } }
    | .expireStaleMintPlans now, .ok _ => w.exec (.expireStaleMintPlans now)
    | .releaseMintPlanToArmed planId now, .ok _ => w.exec (.releaseMintPlanToArmed planId now)
    | .markMintPlanExecuted planId, .ok _ => w.exec (.markMintPlanExecuted planId w.nowMs)
    | .failMintPlanExecution planId, .ok _ => w.exec (.failMintPlanExecution planId w.nowMs)
    | .savePresignedTx planId rawTx nonce txHash, .ok _ =>
      w.exec (.savePresignedTx planId rawTx nonce txHash w.nowMs)
    | .clearPresignedTx planId, .ok _ => w.exec (.clearPresignedTx planId w.nowMs)
    | .recordExecutionAttempt planId attempt, .ok _ => w.record planId attempt
    | .signManagedMintTransaction tx _, .ok signed => w.sign signed.rawTx tx.tx.valueWei
    | .signExecutorTransaction tx _, .ok signed => w.sign signed.rawTx tx.inner.valueWei
    | .getTransactionReceipt _ txHash, .ok (some .reverted) =>
      { w with reverted := txHash :: w.reverted }
    | _, _ => w

instance (w : MintWorld) (c : Cmd) (x : Except Thrown c.Resp) :
    Decidable (mintWorld.allowed w c x) := by
  induction c using Cmd.casesOn with
  | claimArmedMintPlan now leaseMs leadMs =>
    exact match x with
      | .error _ => isTrue trivial
      | .ok none => isTrue trivial
      | .ok (some plan) =>
        (inferInstance : Decidable (∃ r ∈ w.db.plans,
          r.Due w.db.stages now leaseMs leadMs ∧ plan = r.claimed))
  | armedManagedPlansForPresign now =>
    exact match x with
      | .error _ => isTrue trivial
      | .ok plans =>
        (inferInstance : Decidable (∀ c ∈ plans, ∃ r ∈ w.db.plans, r.ListedAs w.db.stages now c))
  | selectPresigned planId =>
    exact match x with
      | .error _ => isTrue trivial
      | .ok row => (inferInstance : Decidable (row = (w.db.plans.get? planId).map MintPlan.blob))
  | selectLatestBroadcast planId =>
    exact match x with
      | .error _ => isTrue trivial
      | .ok row => (inferInstance : Decidable (row = w.latestBroadcast planId))
  | signManagedMintTransaction tx key =>
    exact match x with
      | .error _ => isTrue trivial
      | .ok signed => (inferInstance : Decidable (w.MayForward signed.rawTx tx.tx.valueWei))
  | signExecutorTransaction tx key =>
    exact match x with
      | .error _ => isTrue trivial
      | .ok signed => (inferInstance : Decidable (w.MayForward signed.rawTx tx.inner.valueWei))
  | _ => exact isTrue trivial

/-! ### The system -/

/-- The tables, and the passes under way. -/
structure MintRun (τ : Type) where
  world : MintWorld
  passes : List (Task signature Thrown Unit τ)

/-- A statement of the operators, or of a worker that fires no plan. -/
def PlanStatement.outside : PlanStatement → Bool
  | .claimArmedMintPlan .. | .releaseMintPlanToArmed .. | .markMintPlanExecuted ..
  | .failMintPlanExecution .. | .savePresignedTx .. | .clearPresignedTx .. => false
  | _ => true

/-- What can happen.  A pass that crashes issues no further command; `recordSignature` is
`recordBrowserSignatureAction`; clocks may differ, so the next reading is any. -/
inductive MintStep
  | fire
  | presign (localNowMs clockOffsetMs : ℤ)
  | advance (i : ℕ) (answer : (c : Cmd) → Except Thrown c.Resp)
  | crash (i : ℕ)
  | statement (s : PlanStatement)
  | recordSignature (attemptId : ℕ) (txHash : String)
  | clock (nowMs : ℤ)

/-- A pass that fires, its summary dropped. -/
def firePass (config : Config) : Worker Unit := do
  let _ ← runMintExecutionPass config

namespace MintRun

variable {τ : Type}

/-- One step; a pass starts in `t₀`. -/
def step (L : Monitor signature Thrown τ) (t₀ : τ) (config : Config) (d : MintRun τ) :
    MintStep → Option (MintRun τ)
  | .fire => some ⟨d.world, d.passes ++ [⟨firePass config, t₀⟩]⟩
  | .presign localNowMs clockOffsetMs =>
    some ⟨d.world, d.passes ++ [⟨runPresignPass config localNowMs clockOffsetMs, t₀⟩]⟩
  | .advance i answer =>
    (advance mintWorld L d.world d.passes i answer).map fun r => ⟨r.1, r.2⟩
  | .crash i => d.passes[i]?.map fun t => ⟨d.world, d.passes.set i ⟨.ret (), t.here⟩⟩
  | .statement s => if s.outside then some ⟨d.world.exec s, d.passes⟩ else none
  | .recordSignature attemptId txHash =>
    some ⟨d.world.markExecutionAttemptBroadcast attemptId txHash, d.passes⟩
  | .clock nowMs => some ⟨{ d.world with nowMs }, d.passes⟩

/-- Empty tables, and no pass under way. -/
def start : MintRun τ := ⟨⟨⟨.empty, .empty⟩, [], 0, [], [], []⟩, []⟩

end MintRun

/-! ### What a step does to the plans -/

/-- The statement a command of a pass issues. -/
inductive Cmd.Issues : Cmd → PlanStatement → Prop
  | claim {now leaseMs leadMs dbNow : ℤ} {locked : List String} :
    Issues (.claimArmedMintPlan now leaseMs leadMs)
      (.claimArmedMintPlan now leaseMs leadMs dbNow locked)
  | expire {now : ℤ} : Issues (.expireStaleMintPlans now) (.expireStaleMintPlans now)
  | release {planId : String} {now : ℤ} :
    Issues (.releaseMintPlanToArmed planId now) (.releaseMintPlanToArmed planId now)
  | executed {planId : String} {now : ℤ} :
    Issues (.markMintPlanExecuted planId) (.markMintPlanExecuted planId now)
  | failed {planId : String} {now : ℤ} :
    Issues (.failMintPlanExecution planId) (.failMintPlanExecution planId now)
  | save {planId rawTx txHash : String} {nonce : ℕ} {now : ℤ} :
    Issues (.savePresignedTx planId rawTx nonce txHash)
      (.savePresignedTx planId rawTx nonce txHash now)
  | clear {planId : String} {now : ℤ} :
    Issues (.clearPresignedTx planId) (.clearPresignedTx planId now)

/-- A command leaves the plans alone, or it succeeds and is one statement on them. -/
theorem next_cases {w : MintWorld} {c : Cmd} {x : Except Thrown c.Resp}
    (hx : mintWorld.allowed w c x) :
    ((mintWorld.next w c x).db = w.db ∧
        ∀ e ∈ (mintWorld.next w c x).cleared, e ∈ w.cleared) ∨
      ∃ a s, x = .ok a ∧ c.Issues s ∧ (mintWorld.next w c x).db = w.db.exec s ∧
        (mintWorld.next w c x).cleared = w.cleared := by
  have hsame : (w.db = w.db ∧ ∀ e ∈ w.cleared, e ∈ w.cleared) := ⟨rfl, fun _ he => he⟩
  -- commands that fail, and those about other tables, leave the plans
  cases c with
  | claimArmedMintPlan now leaseMs leadMs =>
    rcases x with e | _ | plan
    · exact Or.inl hsame
    · exact Or.inl hsame
    · obtain ⟨r, hr, hdue, rfl⟩ := hx
      -- rows that others have locked are passed over
      obtain ⟨locked, hlocked⟩ := MintPlans.exists_dueForClaim hr hdue
      refine Or.inr ⟨_, .claimArmedMintPlan now leaseMs leadMs w.nowMs locked, rfl, .claim, ?_, rfl⟩
      show _ = PlanDb.mk (MintPlans.claimArmedMintPlan ..).2 _
      rw [MintPlans.claimArmedMintPlan, hlocked]
      rfl
  | expireStaleMintPlans now =>
    cases x with
    | error => exact Or.inl hsame
    | ok => exact Or.inr ⟨_, _, rfl, .expire, rfl, rfl⟩
  | releaseMintPlanToArmed planId now =>
    cases x with
    | error => exact Or.inl hsame
    | ok => exact Or.inr ⟨_, _, rfl, .release, rfl, rfl⟩
  | markMintPlanExecuted planId =>
    cases x with
    | error => exact Or.inl hsame
    | ok => exact Or.inr ⟨_, _, rfl, .executed, rfl, rfl⟩
  | failMintPlanExecution planId =>
    cases x with
    | error => exact Or.inl hsame
    | ok => exact Or.inr ⟨_, _, rfl, .failed, rfl, rfl⟩
  | savePresignedTx planId rawTx nonce txHash =>
    cases x with
    | error => exact Or.inl hsame
    | ok => exact Or.inr ⟨_, _, rfl, .save, rfl, rfl⟩
  | clearPresignedTx planId =>
    cases x with
    | error => exact Or.inl hsame
    | ok => exact Or.inr ⟨_, _, rfl, .clear, rfl, rfl⟩
  | recordExecutionAttempt => cases x <;> exact Or.inl hsame
  | signManagedMintTransaction =>
    cases x with
    | error => exact Or.inl hsame
    | ok => exact Or.inl ⟨rfl, fun _ he => List.mem_of_mem_filter he⟩
  | signExecutorTransaction =>
    cases x with
    | error => exact Or.inl hsame
    | ok => exact Or.inl ⟨rfl, fun _ he => List.mem_of_mem_filter he⟩
  | getTransactionReceipt => rcases x with e | _ | _ | _ <;> exact Or.inl hsame
  | _ => exact Or.inl hsame

namespace MintRun

variable {τ : Type} {L : Monitor signature Thrown τ} {t₀ : τ} {config : Config} {d d' : MintRun τ}

/-- A condition on the command a step issues, and on its answer, in the state before. -/
def OnCommand (φ : MintRun τ → ℕ → (c : Cmd) → Except Thrown c.Resp → Prop) (d : MintRun τ) :
    MintStep → Prop
  | .advance i answer =>
    match d.passes[i]? with
    | some ⟨.call c _, _⟩ => φ d i c (answer c)
    | _ => True
  | _ => True

instance (φ : MintRun τ → ℕ → (c : Cmd) → Except Thrown c.Resp → Prop)
    [∀ d i c x, Decidable (φ d i c x)] (d : MintRun τ) : DecidablePred (OnCommand φ d) := fun l =>
  match l with
  | .advance i answer => by
    rw [OnCommand]
    split <;> infer_instance
  | .fire | .presign .. | .crash _ | .statement _ | .recordSignature .. | .clock _ => isTrue trivial

theorem OnCommand.of_advance {φ : MintRun τ → ℕ → (c : Cmd) → Except Thrown c.Resp → Prop} {i : ℕ}
    {answer : (c : Cmd) → Except Thrown c.Resp} {c : Cmd}
    {k : Except Thrown (signature.Resp c) → Worker Unit} {here : τ}
    (h : OnCommand φ d (.advance i answer)) (hi : d.passes[i]? = some ⟨.call c k, here⟩) :
    φ d i c (answer c) := by
  rw [OnCommand, hi] at h
  exact h

/-- A command of a pass. -/
theorem step_advance_cases {i : ℕ} {answer : (c : Cmd) → Except Thrown c.Resp}
    (h : step L t₀ config d (.advance i answer) = some d') :
    ∃ c k here, d.passes[i]? = some ⟨.call c k, here⟩ ∧
      mintWorld.allowed d.world c (answer c) ∧
      d' = ⟨mintWorld.next d.world c (answer c),
        d.passes.set i ⟨k (answer c), L.next here c (answer c)⟩⟩ := by
  obtain ⟨⟨w', ts'⟩, ha, rfl⟩ := Option.map_eq_some_iff.mp h
  obtain ⟨c, k, here, hi, hx, rfl, rfl⟩ := advance_cases ha
  exact ⟨c, k, here, hi, hx, rfl⟩

end MintRun

/-! ### A sample -/

namespace Sample

/-- The operator creates a plan, and arms it for an instant a minute later. -/
def arming : List MintStep :=
  [.statement (.createMintPlan "p"
      { projectId := "q", walletId := "w", stageId := none, signerId := none, quantity := none
        perPlanCeilingWei := 10, fireAt := some 60000 } 0),
    .statement (.armMintPlan "p" "operator" 2 0 0 0)]

/-- The sample environment, when the clock reads `nowMs`. -/
def answerAt (nowMs : ℤ) : (c : Cmd) → Except Thrown c.Resp
  | .now => .ok nowMs
  | c => answer c

end Sample

end MintWorker
