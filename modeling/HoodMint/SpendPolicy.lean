/-
The spend policy over whole runs.

A ceiling is read when a plan is claimed or listed, and used when a transaction is signed, later,
and sent, later still.  It stays what it was, because no statement changes the ceiling of a plan
that has been armed, and a blob stays within it, because only what was signed for a plan is
stored with it.

* `MintRun.WithinPolicy` — what passes sign, send and store, against the ceilings in the tables;
* `MintRun.Backed` — the invariant: the tables bear out what the passes have read;
* `policy_of_reach` — every run is within the policy.
-/
import HoodMint.PolicyPass
import HoodMint.PresignHygiene

namespace MintWorker

open Effect Relational Transition

/-! ### Ceilings in the tables -/

/-- The plan has been armed, with this ceiling. -/
def PlanDb.HasCeiling (db : PlanDb) (planId : String) (ceilingWei : ℕ) : Prop :=
  ∃ r ∈ db.plans, r.id = planId ∧ r.status ≠ .draft ∧ r.perPlanCeilingWei = ceilingWei

/-- The raw transaction has been signed, and forwards no more than that. -/
def MintWorld.SignedWithin (w : MintWorld) (rawTx : String) (ceilingWei : ℕ) : Prop :=
  ∃ e ∈ w.signed, e.1 = rawTx ∧ e.2 ≤ ceilingWei

/-- The blobs forward no more than their plans' ceilings. -/
def MintWorld.Stored (w : MintWorld) : Prop :=
  ∀ r ∈ w.db.plans, ∀ rawTx ∈ r.presignedRawTx, w.SignedWithin rawTx r.perPlanCeilingWei

/-- The tables bear out what a pass has read, and what it has in hand. -/
structure MintWorld.Backs (w : MintWorld) (t : PolicyState) : Prop where
  ceilings : ∀ e ∈ t.ceilings, w.db.HasCeiling e.1 e.2
  inHand : ∀ rawTx ∈ t.inHand, ∃ planId ceilingWei,
    t.plan = some planId ∧ w.db.HasCeiling planId ceilingWei ∧ w.SignedWithin rawTx ceilingWei

section

variable {db : PlanDb} {s : PlanStatement} {w w' : MintWorld} {c : Cmd} {x : Except Thrown c.Resp}
  {t : PolicyState} {live : Bool} {planId : String} {ceilingWei ceilingWei' : ℕ}

/-- A plan that has been armed has one ceiling. -/
theorem PlanDb.HasCeiling.unique (h : db.HasCeiling planId ceilingWei)
    (h' : db.HasCeiling planId ceilingWei') : ceilingWei = ceilingWei' := by
  obtain ⟨r, hr, hid, _, rfl⟩ := h
  obtain ⟨r', hr', hid', _, rfl⟩ := h'
  rw [Table.eq_of_key hr hr' (hid.trans hid'.symm)]

/-- No statement takes it away. -/
theorem PlanDb.HasCeiling.exec (h : db.HasCeiling planId ceilingWei) :
    (db.exec s).HasCeiling planId ceilingWei := by
  obtain ⟨r, hr, hid, hdraft, hceiling⟩ := h
  obtain ⟨r', hr', hlive⟩ := exec_outlives (s := s) hr hdraft
  exact ⟨r', hr', hlive.same.1.trans hid, hlive.armed, hlive.same.2.2.trans hceiling⟩

theorem hasCeiling_next (hx : mintWorld.allowed w c x) (h : w.db.HasCeiling planId ceilingWei) :
    (mintWorld.next w c x).db.HasCeiling planId ceilingWei := by
  rcases next_cases hx with ⟨hdb, _⟩ | ⟨_, s, _, _, hdb, _⟩
  · rw [hdb]
    exact h
  · rw [hdb]
    exact h.exec

/-- What has been signed stays signed. -/
theorem signed_next : w.signed ⊆ (mintWorld.next w c x).signed := by
  have hself : w.signed ⊆ w.signed := List.Subset.refl _
  cases c with
  | claimArmedMintPlan => rcases x with e | _ | plan <;> exact hself
  | expireStaleMintPlans => cases x <;> exact hself
  | releaseMintPlanToArmed => cases x <;> exact hself
  | markMintPlanExecuted => cases x <;> exact hself
  | failMintPlanExecution => cases x <;> exact hself
  | savePresignedTx => cases x <;> exact hself
  | clearPresignedTx => cases x <;> exact hself
  | recordExecutionAttempt => cases x <;> exact hself
  | getTransactionReceipt => rcases x with e | _ | _ | _ <;> exact hself
  | signManagedMintTransaction =>
    cases x with
    | error => exact hself
    | ok => exact List.subset_cons_self _ _
  | signExecutorTransaction =>
    cases x with
    | error => exact hself
    | ok => exact List.subset_cons_self _ _
  | _ => exact hself

theorem MintWorld.SignedWithin.mono {rawTx : String} (h : w.SignedWithin rawTx ceilingWei)
    (hsub : w.signed ⊆ w'.signed) : w'.SignedWithin rawTx ceilingWei := by
  obtain ⟨e, he, hraw, hvalue⟩ := h
  exact ⟨e, hsub he, hraw, hvalue⟩

/-- As long as no ceiling and no signature is lost, the tables go on bearing out a pass. -/
theorem MintWorld.Backs.mono (h : w.Backs t)
    (hdb : ∀ planId ceilingWei, w.db.HasCeiling planId ceilingWei →
      w'.db.HasCeiling planId ceilingWei) (hsub : w.signed ⊆ w'.signed) : w'.Backs t := by
  refine ⟨fun e he => hdb _ _ (h.ceilings e he), fun rawTx hraw => ?_⟩
  obtain ⟨planId, ceilingWei, hplan, hceiling, hsigned⟩ := h.inHand rawTx hraw
  exact ⟨planId, ceilingWei, hplan, hdb _ _ hceiling, hsigned.mono hsub⟩

/-! ### Statements -/

/-- A statement leaves the blobs within their ceilings; one that stores a blob, when it is within
its own. -/
theorem stored_exec (h : w.Stored)
    (hstore : ∀ planId rawTx nonce txHash now, s = .savePresignedTx planId rawTx nonce txHash now →
      ∀ r ∈ w.db.plans, r.id = planId → w.SignedWithin rawTx r.perPlanCeilingWei) :
    ∀ r' ∈ (w.db.exec s).plans, ∀ rawTx ∈ r'.presignedRawTx,
      w.SignedWithin rawTx r'.perPlanCeilingWei := by
  intro r' hr' rawTx hraw
  rcases exec_origin hr' with ⟨_, hnone, _⟩ | ⟨r, hr, hsame, hmove⟩
  · rw [hnone] at hraw
    exact absurd hraw (Option.not_mem_none _)
  · rw [hsame.2.2]
    -- a row that keeps its blob
    have hkept : r'.presignedRawTx = r.presignedRawTx → w.SignedWithin rawTx r.perPlanCeilingWei :=
      fun hblob => h r hr rawTx (hblob ▸ hraw)
    have hpurged : r'.presignedRawTx = none → w.SignedWithin rawTx r.perPlanCeilingWei := by
      intro hnone
      rw [hnone] at hraw
      exact absurd hraw (Option.not_mem_none _)
    cases hmove with
    | stay _ _ _ blob =>
      rcases blob with hblob | hnone | ⟨rawTx', nonce, txHash, now, hs, hraw'⟩
      · exact hkept hblob
      · exact hpurged hnone
      · rw [hraw'] at hraw
        obtain rfl := Option.mem_some_iff.mp hraw
        exact hstore _ _ _ _ _ hs r hr hsame.1.symm
    | arm _ _ _ _ blob => exact hkept blob
    | claim _ _ _ _ blob => exact hkept blob
    | release _ _ _ _ _ blob => exact hkept blob
    | finish _ _ _ _ purged => exact hpurged purged

/-! ### Commands -/

/-- What a pass comes to read and to have in hand, the tables bear out. -/
theorem backs_next (h : w.Backs t) (hstored : w.Stored) (hx : mintWorld.allowed w c x)
    (hguard : (policyLocal live).guard t c) :
    (mintWorld.next w c x).Backs ((policyLocal live).next t c x) := by
  have hnext : ∀ planId ceilingWei, w.db.HasCeiling planId ceilingWei →
      (mintWorld.next w c x).db.HasCeiling planId ceilingWei := fun _ _ hc => hasCeiling_next hx hc
  -- plans keep their ceilings: only what the command adds to what is known needs a look
  have hmono : (mintWorld.next w c x).Backs t := h.mono hnext signed_next
  cases c with
  | claimArmedMintPlan now leaseMs leadMs =>
    rcases x with e | _ | plan
    · exact hmono
    · exact hmono
    · obtain ⟨r, hr, hdue, rfl⟩ := hx
      -- the row that was claimed has the ceiling the pass goes by
      have hceiling : w.db.HasCeiling r.id r.perPlanCeilingWei :=
        ⟨r, hr, rfl, (not_terminal_of_due hdue).2, rfl⟩
      refine ⟨fun e he => ?_, fun rawTx hraw => absurd hraw List.not_mem_nil⟩
      rcases List.mem_cons.mp he with rfl | he
      · exact hnext _ _ hceiling
      · exact hmono.ceilings e he
  | armedManagedPlansForPresign now =>
    rcases x with e | plans
    · exact hmono
    · refine ⟨fun e he => ?_, hmono.inHand⟩
      rcases List.mem_append.mp he with he | he
      · obtain ⟨c, hc, rfl⟩ := List.mem_map.mp he
        obtain ⟨r, hr, hid, _, harmed, _, _, _, _, _, _, hceiling, _⟩ := hx c hc
        refine ⟨r, hr, hid, ?_, hceiling.symm⟩
        rw [harmed]
        decide
      · exact hmono.ceilings e he
  | underfundedRecheckAt planId =>
    rcases x with e | _
    · exact hmono
    · exact ⟨hmono.ceilings, fun rawTx hraw => absurd hraw List.not_mem_nil⟩
  | selectSigner =>
    rcases x with e | _ | signer
    · exact hmono
    · exact hmono
    · exact ⟨hmono.ceilings, hmono.inHand⟩
  | selectPresigned planId =>
    rcases x with e | _ | row
    · exact hmono
    · exact hmono
    · refine ⟨hmono.ceilings, fun rawTx hraw => ?_⟩
      rcases List.mem_append.mp hraw with hraw | hraw
      · obtain ⟨ceilingWei, hplan, hread⟩ := hguard
        have hceiling := h.ceilings _ hread
        obtain ⟨r, hr, hid, hdraft, rfl⟩ := hceiling
        have hrow : some row = (w.db.plans.get? planId).map MintPlan.blob := hx
        rw [Table.get?_eq_some.mpr ⟨hr, hid⟩] at hrow
        obtain rfl := Option.some.inj hrow
        exact ⟨planId, _, hplan, ⟨r, hr, hid, hdraft, rfl⟩,
          hstored r hr rawTx (Option.mem_toList.mp hraw)⟩
      · exact hmono.inHand rawTx hraw
  | signManagedMintTransaction tx key =>
    rcases x with e | signed
    · exact hmono
    · refine ⟨hmono.ceilings, fun rawTx hraw => ?_⟩
      rcases List.mem_cons.mp hraw with rfl | hraw
      · obtain ⟨_, planId, ceilingWei, ⟨hplan, hread⟩, hvalue⟩ := hguard
        exact ⟨planId, ceilingWei, hplan, hmono.ceilings _ hread, _, List.mem_cons_self, rfl, hvalue⟩
      · exact hmono.inHand rawTx hraw
  | signExecutorTransaction tx key =>
    rcases x with e | signed
    · exact hmono
    · refine ⟨hmono.ceilings, fun rawTx hraw => ?_⟩
      rcases List.mem_cons.mp hraw with rfl | hraw
      · obtain ⟨_, planId, ceilingWei, ⟨hplan, hread⟩, hvalue, _⟩ := hguard
        exact ⟨planId, ceilingWei, hplan, hmono.ceilings _ hread, _, List.mem_cons_self, rfl, hvalue⟩
      · exact hmono.inHand rawTx hraw
  | _ => exact hmono

/-- What a pass stores is within the ceiling of its plan. -/
theorem stored_next (h : w.Backs t) (hstored : w.Stored) (hx : mintWorld.allowed w c x)
    (hguard : (policyLocal live).guard t c) : (mintWorld.next w c x).Stored := by
  intro r' hr' rawTx hraw
  refine MintWorld.SignedWithin.mono (w := w) ?_ signed_next
  rcases next_cases hx with ⟨hdb, _⟩ | ⟨_, s, _, hissues, hdb, _⟩
  · rw [hdb] at hr'
    exact hstored r' hr' rawTx hraw
  · rw [hdb] at hr'
    refine stored_exec hstored ?_ r' hr' rawTx hraw
    rintro planId blob nonce txHash now rfl r hr hid
    cases hissues
    obtain ⟨hplan, hhand⟩ := hguard
    obtain ⟨planId', ceilingWei, hplan', ⟨r₀, hr₀, hid₀, _, rfl⟩, hsigned⟩ := h.inHand _ hhand
    obtain rfl := Option.some.inj (hplan.symm.trans hplan')
    rw [Table.eq_of_key hr hr₀ (hid.trans hid₀.symm)]
    exact hsigned

end

/-! ### Runs -/

/-- Opens a key, signs, or sends. -/
def Cmd.Spends : Cmd → Prop
  | .openWalletKey _ | .getCredentialSecret _ | .operatorAddress _
  | .signManagedMintTransaction .. | .signExecutorTransaction .. | .raceRawTransaction ..
  | .broadcastRawTransaction .. => True
  | _ => False

/-- Hands the raw transaction to endpoints. -/
def Cmd.Sends (rawTx : String) : Cmd → Prop
  | .raceRawTransaction _ raw => raw = rawTx
  | .broadcastRawTransaction _ raw => raw = rawTx
  | _ => False

/-- The runs, each pass with the flag it was started with. -/
abbrev PolicyRun := MintRun (Bool × PolicyState)

namespace MintRun

/-- The next command of the `i`-th pass. -/
def Issues {τ : Type} (d : MintRun τ) (i : ℕ) (c : Cmd) : Prop :=
  ∃ k here, d.passes[i]? = some ⟨.call c k, here⟩

/-- The passes, each following its ceilings and whether live execution was enabled when it
started. -/
abbrev policyStep (config : Config) (d : PolicyRun) (l : MintStep) : Option PolicyRun :=
  step (Monitor.family policyLocal) (config.liveExecutionEnabled, .idle) config d l

/-- A step of a process that runs with this configuration: another process, or the same one
restarted, may run with another. -/
abbrev configuredStep (d : PolicyRun) (l : Config × MintStep) : Option PolicyRun :=
  policyStep l.1 d l.2

/-- The row is of the plan the `i`-th pass is at, which has been armed. -/
def AtPlan (d : PolicyRun) (i : ℕ) (r : MintPlan) : Prop :=
  r ∈ d.world.db.plans ∧ r.status ≠ .draft ∧ ∃ t ∈ d.passes[i]?, t.here.2.plan = some r.id

/-- The `i`-th pass has read the signer, for the plan it is at. -/
def HasRead (d : PolicyRun) (i : ℕ) (s : Signer) : Prop :=
  ∃ t ∈ d.passes[i]?, s ∈ t.here.2.signers

/-- The `i`-th pass was started with live execution disabled. -/
def Disabled (d : PolicyRun) (i : ℕ) : Prop :=
  ∃ t ∈ d.passes[i]?, t.here.1 = false

instance (d : PolicyRun) (i : ℕ) : Decidable (d.Disabled i) :=
  (inferInstance : Decidable (∃ t ∈ d.passes[i]?, t.here.1 = false))

/-- **Nothing above policy.** -/
structure WithinPolicy (d : PolicyRun) : Prop where
  /-- What the managed key signs, live or in advance, forwards at most the plan's ceiling. -/
  managed : ∀ i tx key, d.Issues i (.signManagedMintTransaction tx key) →
    ∃ r, d.AtPlan i r ∧ tx.tx.valueWei ≤ r.perPlanCeilingWei
  /-- And so does what an executor's operator signs; and the plan's ceiling is at most the one
  recorded for the executor. -/
  delegated : ∀ i tx key, d.Issues i (.signExecutorTransaction tx key) →
    ∃ r, d.AtPlan i r ∧ tx.inner.valueWei ≤ r.perPlanCeilingWei ∧
      ∃ s, d.HasRead i s ∧ s.scheme = .customExecutor ∧
        ∀ w ∈ s.onchainSpendCeilingWei, r.perPlanCeilingWei ≤ w
  /-- What is sent has been signed, and is within the ceiling of the plan it is sent for. -/
  sent : ∀ i c rawTx, d.Issues i c → c.Sends rawTx →
    ∃ r, d.AtPlan i r ∧ d.world.SignedWithin rawTx r.perPlanCeilingWei
  /-- What is stored is within the ceiling of its plan. -/
  stored : d.world.Stored
  /-- Where live execution is disabled no key is opened, nothing is signed and nothing is sent. -/
  disabled : ∀ i, d.Disabled i → ∀ c, d.Issues i c → ¬ c.Spends

/-- What keeps the runs within the policy. -/
structure Backed (d : PolicyRun) : Prop where
  safe : ∀ t ∈ d.passes, t.Safe (Monitor.family policyLocal) fun _ _ => True
  backs : ∀ t ∈ d.passes, d.world.Backs t.here.2
  stored : d.world.Stored

section

variable {config : Config} {d d' : PolicyRun} {i : ℕ} {c : Cmd}

/-- **Step, commands.** -/
theorem backed_advance (h : d.Backed) {x : Except Thrown c.Resp} {t : Bool × PolicyState}
    {k : Except Thrown (signature.Resp c) → Worker Unit} (hi : d.passes[i]? = some ⟨.call c k, t⟩)
    (hx : mintWorld.allowed d.world c x) :
    (⟨mintWorld.next d.world c x,
      d.passes.set i ⟨k x, (Monitor.family policyLocal).next t c x⟩⟩ : PolicyRun).Backed := by
  obtain ⟨hguard, hsafe⟩ := safe_advance hi h.safe (x := x) trivial
  have hback := h.backs _ (List.mem_of_getElem? hi)
  refine ⟨hsafe, fun u hu => ?_, stored_next hback h.stored hx hguard⟩
  rcases List.mem_or_eq_of_mem_set hu with hu | rfl
  · exact (h.backs u hu).mono (fun _ _ hc => hasCeiling_next hx hc) signed_next
  · exact backs_next hback h.stored hx hguard

/-- **Step.** -/
theorem backed_step {l : MintStep} (h : d.Backed) (hs : policyStep config d l = some d') :
    d'.Backed := by
  -- a pass that starts has nothing in hand
  have hstart : ∀ p : Worker Unit,
      p.wp (policyLocal config.liveExecutionEnabled) (fun _ _ => True) .idle →
      (⟨d.world, d.passes ++ [⟨p, (config.liveExecutionEnabled, .idle)⟩]⟩ : PolicyRun).Backed := by
    intro p hp
    refine ⟨fun u hu => ?_, fun u hu => ?_, h.stored⟩
    · exact of_mem_enter hu h.safe (Prog.wp_family.mpr hp)
    · exact of_mem_enter hu h.backs
        ⟨fun _ he => absurd he List.not_mem_nil, fun _ hraw => absurd hraw List.not_mem_nil⟩
  cases l with
  | fire =>
    obtain rfl := Option.some.inj hs
    exact hstart _ firePass_policy
  | presign =>
    obtain rfl := Option.some.inj hs
    exact hstart _ presignPass_policy
  | recordSignature =>
    obtain rfl := Option.some.inj hs
    exact ⟨h.safe, fun u hu => ⟨(h.backs u hu).ceilings, (h.backs u hu).inHand⟩, h.stored⟩
  | clock =>
    obtain rfl := Option.some.inj hs
    exact ⟨h.safe, fun u hu => ⟨(h.backs u hu).ceilings, (h.backs u hu).inHand⟩, h.stored⟩
  | crash i =>
    obtain ⟨t, ht, rfl⟩ := Option.map_eq_some_iff.mp hs
    refine ⟨fun u hu => ?_, fun u hu => ?_, h.stored⟩
    · exact of_mem_replace hu h.safe trivial
    · exact of_mem_replace hu h.backs (h.backs t (List.mem_of_getElem? ht))
  | statement s =>
    rw [policyStep, step] at hs
    split at hs
    · next hout =>
      obtain rfl := Option.some.inj hs
      refine ⟨h.safe, fun u hu => (h.backs u hu).mono (fun _ _ hc => hc.exec)
        (List.Subset.refl _), stored_exec h.stored ?_⟩
      -- no statement from outside stores a blob
      rintro planId rawTx nonce txHash now rfl
      simp [PlanStatement.outside] at hout
    · simp at hs
  | advance i answer =>
    obtain ⟨c, k, here, hi, hx, rfl⟩ := step_advance_cases hs
    exact backed_advance h hi hx

theorem backed_start : (start : PolicyRun).Backed := by
  constructor
  · exact fun _ ht => absurd ht List.not_mem_nil
  · exact fun _ ht => absurd ht List.not_mem_nil
  · exact fun _ hr => absurd hr Table.not_mem_empty

theorem backed_of_reach (h : Reachable configuredStep start d) : d.Backed :=
  h.invariant backed_start fun _ _ _ _ hd _ hs => backed_step hd hs

/-- The command a pass issues meets the pass's monitor. -/
theorem Backed.guard (h : d.Backed) (hc : d.Issues i c) :
    ∃ t ∈ d.passes[i]?, (policyLocal t.here.1).guard t.here.2 c ∧ d.world.Backs t.here.2 := by
  obtain ⟨k, here, hi⟩ := hc
  have hmem := List.mem_of_getElem? hi
  exact ⟨_, hi, (h.safe _ hmem).1, h.backs _ hmem⟩

/-- The plan a pass is at is one of the table. -/
theorem Backed.atPlan {t : Task signature Thrown Unit (Bool × PolicyState)} {planId : String}
    {ceilingWei : ℕ} (ht : t ∈ d.passes[i]?) (hplan : t.here.2.plan = some planId)
    (hceiling : d.world.db.HasCeiling planId ceilingWei) :
    ∃ r, d.AtPlan i r ∧ r.perPlanCeilingWei = ceilingWei := by
  obtain ⟨r, hr, rfl, hdraft, hceiling⟩ := hceiling
  exact ⟨r, ⟨hr, hdraft, t, ht, hplan⟩, hceiling⟩

/-- **Nothing is signed above policy.**  In every run of fire passes and pre-sign passes, each of
a process with a configuration of its own, with whatever statements, crashes and answers between
their commands, what is signed is within the ceiling of the plan it is signed for, and that within
the executor's; what is sent and what is stored is too; and a pass started while live execution is
disabled opens, signs and sends nothing, whatever other passes have stored. -/
theorem policy_of_reach (h : Reachable configuredStep start d) : d.WithinPolicy := by
  have hbacked := backed_of_reach h
  constructor
  · intro i tx key hc
    obtain ⟨t, ht, ⟨_, planId, ceilingWei, ⟨hplan, hread⟩, hvalue⟩, hback⟩ := hbacked.guard hc
    obtain ⟨r, hr, rfl⟩ := Backed.atPlan ht hplan (hback.ceilings _ hread)
    exact ⟨r, hr, hvalue⟩
  · intro i tx key hc
    obtain ⟨t, ht, ⟨_, planId, ceilingWei, ⟨hplan, hread⟩, hvalue, s, hs, hcovers⟩, hback⟩ :=
      hbacked.guard hc
    obtain ⟨r, hr, rfl⟩ := Backed.atPlan ht hplan (hback.ceilings _ hread)
    exact ⟨r, hr, hvalue, s, ⟨t, ht, hs⟩, hcovers.2⟩
  · intro i c rawTx hc hsends
    obtain ⟨t, ht, hguard, hback⟩ := hbacked.guard hc
    have hhand : rawTx ∈ t.here.2.inHand := by
      cases c with
      | raceRawTransaction urls raw =>
        obtain rfl : raw = rawTx := hsends
        exact hguard.2
      | broadcastRawTransaction url raw =>
        obtain rfl : raw = rawTx := hsends
        exact hguard.2
      | _ => exact absurd hsends id
    obtain ⟨planId, ceilingWei, hplan, hceiling, hsigned⟩ := hback.inHand rawTx hhand
    obtain ⟨r, hr, rfl⟩ := Backed.atPlan ht hplan hceiling
    exact ⟨r, hr, hsigned⟩
  · exact hbacked.stored
  · rintro i ⟨t', ht', hlive⟩ c hc hspends
    obtain ⟨t, ht, hguard, _⟩ := hbacked.guard hc
    obtain rfl := Option.mem_unique ht ht'
    have htrue : t.here.1 = true := by
      cases c with
      | openWalletKey => exact hguard
      | getCredentialSecret => exact hguard
      | operatorAddress => exact hguard
      | signManagedMintTransaction => exact hguard.1
      | signExecutorTransaction => exact hguard.1
      | raceRawTransaction => exact hguard.1
      | broadcastRawTransaction => exact hguard.1
      | _ => exact absurd hspends id
    rw [hlive] at htrue
    simp at htrue

end

end MintRun

/-- The plan's blob is stored; then the process is restarted with live execution disabled, and a
pass claims the plan. -/
def Sample.switchedOff : List (Config × MintStep) :=
  (presigning 15).map (config, ·) ++
    (.clock 60000 :: .fire :: List.replicate 5 (.advance 1 (answerAt 60000))).map
      ({ config with liveExecutionEnabled := false }, ·)

namespace MintRun

/-- A pre-sign pass has signed a transaction of the plan, and stored it; the pass that claims the
plan when it is due has been started with live execution disabled. -/
theorem policy_of_reach_presigned :
    ∃ d, Reachable configuredStep start d ∧
      ((∃ r ∈ d.world.db.plans, r.status = .executing ∧ r.presignedRawTx = some "raw") ∧
        d.Disabled 1) ∧ d.WithinPolicy := by
  obtain ⟨d, hr, hp⟩ := exists_reachable_of_run configuredStep start Sample.switchedOff
    (fun d => decide ((∃ r ∈ d.world.db.plans, r.status = .executing ∧
      r.presignedRawTx = some "raw") ∧ Disabled d 1)) (by decide)
  exact ⟨d, hr, of_decide_eq_true hp, policy_of_reach hr⟩

end MintRun

end MintWorker
