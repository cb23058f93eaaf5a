/-
The spend ceiling over a plan's whole life.

The policy compares one transaction with the ceiling, and takes what the plan has already spent
from its caller, which always says nothing.  So the ceiling bounds the plan only as long as no
second transaction of it can land beside a first.

* `SpendRun` — the runs of the worker, the transactions it and the owner have put on the wire,
  and what the chain has made of them: of each sender and nonce it takes one transaction;
* `SpendRun.HasRoom` — a transaction goes on the wire alone, or the ceiling has room for it;
* `ceiling_of_reach` — in runs that keep to it, a plan spends no more than its ceiling;
* `spends_twice` — a race that seems to fail, and a second one after the grace period.
-/
import HoodMint.Lib.Slots
import HoodMint.SpendPolicy

namespace MintWorker

open Effect Relational Transition

/-! ### Transactions -/

/-- What the bytes of a raw transaction say: who sends it, at which nonce, and what it spends on
the mint. -/
structure Decoded where
  sender : String
  nonce : ℕ
  valueWei : ℕ

/-- The chain takes one transaction of a sender and a nonce. -/
def Decoded.slot (x : Decoded) : String × ℕ := (x.sender, x.nonce)

/-- A signature is over what was given to be signed. -/
def Cmd.SignedAs (decode : String → Decoded) (c : Cmd) (x : Except Thrown c.Resp) : Prop :=
  match c, x with
  | .signManagedMintTransaction tx _, .ok signed =>
    (decode signed.rawTx).nonce = tx.nonce ∧ (decode signed.rawTx).valueWei = tx.tx.valueWei
  | .signExecutorTransaction tx _, .ok signed =>
    (decode signed.rawTx).nonce = tx.nonce ∧ (decode signed.rawTx).valueWei = tx.inner.valueWei
  | _, _ => True

instance (decode : String → Decoded) (c : Cmd) (x : Except Thrown c.Resp) :
    Decidable (c.SignedAs decode x) := by
  induction c using Cmd.casesOn with
  | signManagedMintTransaction tx key =>
    exact match x with
      | .error _ => isTrue trivial
      | .ok signed => (inferInstance : Decidable ((decode signed.rawTx).nonce = tx.nonce ∧
          (decode signed.rawTx).valueWei = tx.tx.valueWei))
  | signExecutorTransaction tx key =>
    exact match x with
      | .error _ => isTrue trivial
      | .ok signed => (inferInstance : Decidable ((decode signed.rawTx).nonce = tx.nonce ∧
          (decode signed.rawTx).valueWei = tx.inner.valueWei))
  | _ => exact isTrue trivial

/-- The raw transaction a command hands to endpoints. -/
def Cmd.sent : Cmd → Option String
  | .raceRawTransaction _ rawTx => some rawTx
  | .broadcastRawTransaction _ rawTx => some rawTx
  | _ => none

/-- What a step of the worker puts on the wire, with the plan it does so for: whatever the
endpoints answer, one of them may have taken it. -/
def MintRun.sent (d : PolicyRun) : MintStep → Option (String × String)
  | .advance i _ =>
    match d.passes[i]? with
    | some ⟨.call c _, _, here⟩ => do return (← here.plan, ← c.sent)
    | _ => none
  | _ => none

/-- The prompt the owner may sign. -/
def MintWorld.prompt? (w : MintWorld) (attemptId : ℕ) : Option (String × Tx) := do
  let r ← w.attempts.find? fun r => r.id = attemptId ∧ r.attempt.status = .awaitingSignature
  return (r.planId, ← r.attempt.pendingTx)

/-! ### The system -/

/-- The worker, what has been put on the wire for which plan, and the transactions of the chain,
each with whether it succeeded. -/
structure SpendRun where
  run : PolicyRun
  wire : Finset (String × String)
  chain : List (String × Bool)

/-- What can happen: a step of the worker; the owner signs a prompt and sends it; the chain takes
a transaction. -/
inductive SpendStep
  | worker (l : MintStep)
  | ownerSigns (attemptId : ℕ) (rawTx : String)
  | mined (rawTx : String) (success : Bool)

namespace SpendRun

variable (decode : String → Decoded) (config : Config)

/-- What a step puts on the wire. -/
def puts (d : SpendRun) : SpendStep → Option (String × String)
  | .worker l => d.run.sent l
  | .ownerSigns attemptId rawTx => (d.run.world.prompt? attemptId).map fun p => (p.1, rawTx)
  | .mined .. => none

/-- One step. -/
def step (d : SpendRun) (l : SpendStep) : Option SpendRun :=
  match l with
  | .worker m =>
    if d.run.OnCommand (fun _ _ c x => c.SignedAs decode x) m then
      (MintRun.policyStep config d.run m).map fun run =>
        ⟨run, (d.puts l).elim d.wire (insert · d.wire), d.chain⟩
    else none
  | .ownerSigns attemptId rawTx =>
    match d.run.world.prompt? attemptId with
    | some (planId, tx) =>
      if (decode rawTx).valueWei = tx.valueWei then
        some { d with wire := insert (planId, rawTx) d.wire }
      else none
    | none => none
  | .mined rawTx success =>
    if ∀ e ∈ d.chain, (decode e.1).slot ≠ (decode rawTx).slot then
      some { d with chain := (rawTx, success) :: d.chain }
    else none

/-- Nothing has happened. -/
def start : SpendRun := ⟨MintRun.start, ∅, []⟩

/-- The transactions put on the wire for a plan. -/
def sentFor (d : SpendRun) (planId : String) : Finset String :=
  (d.wire.filter fun e => e.1 = planId).image Prod.snd

/-- The transaction has been mined successfully. -/
def Landed (d : SpendRun) (rawTx : String) : Prop := (rawTx, true) ∈ d.chain

instance (d : SpendRun) : DecidablePred d.Landed := fun rawTx =>
  (inferInstance : Decidable ((rawTx, true) ∈ d.chain))

/-- It has, or it still may be: no transaction of its sender and nonce has been mined. -/
def MayLand (d : SpendRun) (rawTx : String) : Prop :=
  d.Landed rawTx ∨ ∀ e ∈ d.chain, (decode e.1).slot ≠ (decode rawTx).slot

instance (d : SpendRun) : DecidablePred (d.MayLand decode) := fun rawTx =>
  (inferInstance : Decidable (d.Landed rawTx ∨
    ∀ e ∈ d.chain, (decode e.1).slot ≠ (decode rawTx).slot))

/-- The transactions of a plan that count. -/
def counted (d : SpendRun) (planId : String) : Finset String :=
  (d.sentFor planId).filter (d.MayLand decode)

/-- The sum of the values of all transactions of the plan that were mined successfully. -/
def spent (d : SpendRun) (planId : String) : ℕ :=
  ∑ rawTx ∈ (d.sentFor planId).filter d.Landed, (decode rawTx).valueWei

/-- What the transactions can spend at most, one of each sender and nonce. -/
def exposure (raws : Finset String) : ℕ :=
  Slots.exposure (fun rawTx => (decode rawTx).slot) (fun rawTx => (decode rawTx).valueWei) raws

/-- A transaction may go on the wire for the plan: it is there already; or every other one that
counts has its sender and nonce; or the ceiling has room for it beside them. -/
def HasRoom (d : SpendRun) (planId rawTx : String) : Prop :=
  rawTx ∈ d.sentFor planId ∨
    (∀ raw ∈ d.counted decode planId, (decode raw).slot = (decode rawTx).slot) ∨
    ∀ r ∈ d.run.world.db.plans, r.id = planId →
      exposure decode (insert rawTx (d.counted decode planId)) ≤ r.perPlanCeilingWei

/-- What a step puts on the wire for the plan has room there. -/
def Spares (planId : String) (d : SpendRun) (l : SpendStep) : Prop :=
  ∀ e ∈ d.puts l, e.1 = planId → d.HasRoom decode planId e.2

instance (planId : String) (d : SpendRun) : DecidablePred (d.Spares decode planId) := fun l =>
  (inferInstance : Decidable (∀ e ∈ d.puts l, e.1 = planId → (e.2 ∈ d.sentFor planId ∨
    (∀ raw ∈ d.counted decode planId, (decode raw).slot = (decode e.2).slot) ∨
    ∀ r ∈ d.run.world.db.plans, r.id = planId →
      exposure decode (insert e.2 (d.counted decode planId)) ≤ r.perPlanCeilingWei)))

end SpendRun

/-! ### What the worker keeps -/

/-- What the owner is prompted to sign is within the ceiling of its plan. -/
def MintWorld.PromptsWithin (w : MintWorld) : Prop :=
  ∀ r ∈ w.attempts, r.attempt.status = .awaitingSignature → ∀ tx ∈ r.attempt.pendingTx,
    ∃ ceilingWei, w.db.HasCeiling r.planId ceilingWei ∧ tx.valueWei ≤ ceilingWei

/-- What has been signed says so. -/
def MintWorld.SignedAs (decode : String → Decoded) (w : MintWorld) : Prop :=
  ∀ e ∈ w.signed, (decode e.1).valueWei = e.2

section

variable {decode : String → Decoded} {w : MintWorld} {c : Cmd} {x : Except Thrown c.Resp}
  {t : PolicyState} {live : Bool} {r : AttemptRow}

/-- An attempt is one of before, or the one just recorded. -/
theorem attempts_next (hr : r ∈ (mintWorld.next w c x).attempts) :
    r ∈ w.attempts ∨ c = .recordExecutionAttempt r.planId r.attempt := by
  cases c with
  | recordExecutionAttempt planId attempt =>
    cases x with
    | error => exact Or.inl hr
    | ok =>
      rcases List.mem_cons.mp hr with rfl | hr
      · exact Or.inr rfl
      · exact Or.inl hr
  | claimArmedMintPlan => rcases x with e | _ | plan <;> exact Or.inl hr
  | expireStaleMintPlans => cases x <;> exact Or.inl hr
  | releaseMintPlanToArmed => cases x <;> exact Or.inl hr
  | markMintPlanExecuted => cases x <;> exact Or.inl hr
  | failMintPlanExecution => cases x <;> exact Or.inl hr
  | savePresignedTx => cases x <;> exact Or.inl hr
  | clearPresignedTx => cases x <;> exact Or.inl hr
  | getTransactionReceipt => rcases x with e | _ | _ | _ <;> exact Or.inl hr
  | signManagedMintTransaction => cases x <;> exact Or.inl hr
  | signExecutorTransaction => cases x <;> exact Or.inl hr
  | _ => exact Or.inl hr

theorem promptsWithin_next (h : w.PromptsWithin) (hback : w.Backs t)
    (hx : mintWorld.allowed w c x) (hguard : (policyLocal live).guard t c) :
    (mintWorld.next w c x).PromptsWithin := by
  intro r hr hs tx htx
  have hwithin : ∃ ceilingWei, w.db.HasCeiling r.planId ceilingWei ∧ tx.valueWei ≤ ceilingWei := by
    rcases attempts_next hr with hr | rfl
    · exact h r hr hs tx htx
    · obtain ⟨hplan, hvalue⟩ := hguard hs
      obtain ⟨planId, ceilingWei, ⟨hplan', hread⟩, hle⟩ := hvalue tx htx
      obtain rfl := Option.some.inj (hplan.symm.trans hplan')
      exact ⟨ceilingWei, hback.ceilings _ hread, hle⟩
  obtain ⟨ceilingWei, hceiling, hle⟩ := hwithin
  exact ⟨ceilingWei, hasCeiling_next hx hceiling, hle⟩

theorem signedAs_next (h : w.SignedAs decode) (hc : c.SignedAs decode x) :
    (mintWorld.next w c x).SignedAs decode := by
  cases c with
  | signManagedMintTransaction =>
    cases x with
    | error => exact h
    | ok =>
      intro e he
      rcases List.mem_cons.mp he with rfl | he
      · exact hc.2
      · exact h e he
  | signExecutorTransaction =>
    cases x with
    | error => exact h
    | ok =>
      intro e he
      rcases List.mem_cons.mp he with rfl | he
      · exact hc.2
      · exact h e he
  | recordExecutionAttempt => cases x <;> exact h
  | claimArmedMintPlan => rcases x with e | _ | plan <;> exact h
  | expireStaleMintPlans => cases x <;> exact h
  | releaseMintPlanToArmed => cases x <;> exact h
  | markMintPlanExecuted => cases x <;> exact h
  | failMintPlanExecution => cases x <;> exact h
  | savePresignedTx => cases x <;> exact h
  | clearPresignedTx => cases x <;> exact h
  | getTransactionReceipt => rcases x with e | _ | _ | _ <;> exact h
  | _ => exact h

end

/-- What the worker keeps, for the ceilings' sake. -/
structure MintRun.Spending (decode : String → Decoded) (d : PolicyRun) : Prop where
  backed : d.Backed
  prompts : d.world.PromptsWithin
  signed : d.world.SignedAs decode

namespace MintRun

variable {decode : String → Decoded} {config : Config} {d d' : PolicyRun} {l : MintStep} {planId rawTx : String} {ceilingWei : ℕ}

/-- No step takes a ceiling away. -/
theorem hasCeiling_step (hs : policyStep config d l = some d')
    (h : d.world.db.HasCeiling planId ceilingWei) : d'.world.db.HasCeiling planId ceilingWei := by
  cases l with
  | fire =>
    obtain rfl := Option.some.inj hs
    exact h
  | presign =>
    obtain rfl := Option.some.inj hs
    exact h
  | recordSignature =>
    obtain rfl := Option.some.inj hs
    exact h
  | clock =>
    obtain rfl := Option.some.inj hs
    exact h
  | crash i =>
    obtain ⟨t, _, rfl⟩ := Option.map_eq_some_iff.mp hs
    exact h
  | statement s =>
    rw [policyStep, step] at hs
    split at hs
    · obtain rfl := Option.some.inj hs
      exact h.exec
    · simp at hs
  | advance i answer =>
    obtain ⟨c, k, here, _, hx, rfl⟩ := step_advance_cases hs
    exact hasCeiling_next hx h

/-- **Step, worker.** -/
theorem spending_step (h : d.Spending decode)
    (hl : d.OnCommand (fun _ _ c x => c.SignedAs decode x) l)
    (hs : policyStep config d l = some d') : d'.Spending decode := by
  have hbacked := backed_step h.backed hs
  -- the attempts have not changed
  have hsame : d'.world.attempts = d.world.attempts → d'.world.PromptsWithin := by
    intro heq r hr hstatus tx htx
    rw [heq] at hr
    obtain ⟨ceilingWei, hceiling, hle⟩ := h.prompts r hr hstatus tx htx
    exact ⟨ceilingWei, hasCeiling_step hs hceiling, hle⟩
  cases l with
  | fire =>
    obtain rfl := Option.some.inj hs
    exact ⟨hbacked, h.prompts, h.signed⟩
  | presign =>
    obtain rfl := Option.some.inj hs
    exact ⟨hbacked, h.prompts, h.signed⟩
  | clock =>
    obtain rfl := Option.some.inj hs
    exact ⟨hbacked, h.prompts, h.signed⟩
  | crash i =>
    obtain ⟨t, _, rfl⟩ := Option.map_eq_some_iff.mp hs
    exact ⟨hbacked, h.prompts, h.signed⟩
  | recordSignature attemptId txHash =>
    obtain rfl := Option.some.inj hs
    refine ⟨hbacked, fun r hr hstatus tx htx => ?_, h.signed⟩
    obtain ⟨r₀, hr₀, rfl⟩ := List.mem_map.mp hr
    split at hstatus
    · simp at hstatus
    · next hnot =>
      rw [if_neg hnot] at htx ⊢
      exact h.prompts r₀ hr₀ hstatus tx htx
  | statement s =>
    have hattempts : d'.world.attempts = d.world.attempts ∧ d'.world.signed = d.world.signed := by
      rw [policyStep, step] at hs
      split at hs
      · obtain rfl := Option.some.inj hs
        exact ⟨rfl, rfl⟩
      · simp at hs
    refine ⟨hbacked, hsame hattempts.1, fun e he => h.signed e ?_⟩
    rw [← hattempts.2]
    exact he
  | advance i answer =>
    obtain ⟨c, k, here, hi, hx, rfl⟩ := step_advance_cases hs
    have hmem := List.mem_of_getElem? hi
    have hguard := (h.backed.safe _ hmem).1
    exact ⟨hbacked, promptsWithin_next h.prompts (h.backed.backs _ hmem) hx hguard,
      signedAs_next h.signed (hl.of_advance hi)⟩

/-- What a step of the worker puts on the wire is within the ceiling of its plan. -/
theorem Spending.sent (h : d.Spending decode) (hl : d.sent l = some (planId, rawTx)) :
    ∃ ceilingWei, d.world.db.HasCeiling planId ceilingWei ∧
      (decode rawTx).valueWei ≤ ceilingWei := by
  cases l with
  | advance i answer =>
    rw [MintRun.sent] at hl
    split at hl
    · next c k live here hi =>
      obtain ⟨plan, hplan, hl⟩ := Option.bind_eq_some_iff.mp hl
      obtain ⟨raw, hraw, hl⟩ := Option.bind_eq_some_iff.mp hl
      obtain ⟨rfl, rfl⟩ := Prod.mk.inj (Option.some.inj hl)
      have hmem := List.mem_of_getElem? hi
      have hguard := (h.backed.safe _ hmem).1
      have hhand : raw ∈ here.inHand := by
        cases c with
        | raceRawTransaction =>
          obtain rfl := Option.some.inj hraw
          exact hguard.2
        | broadcastRawTransaction =>
          obtain rfl := Option.some.inj hraw
          exact hguard.2
        | _ => simp [Cmd.sent] at hraw
      obtain ⟨planId, ceilingWei, hplan', hceiling, e, he, rfl, hle⟩ :=
        (h.backed.backs _ hmem).inHand raw hhand
      obtain rfl := Option.some.inj (hplan.symm.trans hplan')
      exact ⟨ceilingWei, hceiling, (h.signed e he).trans_le hle⟩
    · simp at hl
  | _ => simp [MintRun.sent] at hl

end MintRun

/-! ### The wire and the chain -/

namespace SpendRun

/-- What keeps a plan below its ceiling: what is on the wire is within it one by one, and what
counts is within it together. -/
structure Sound (decode : String → Decoded) (planId : String) (d : SpendRun) : Prop where
  run : d.run.Spending decode
  single : ∀ e ∈ d.chain, ∀ e' ∈ d.chain, (decode e.1).slot = (decode e'.1).slot → e = e'
  wire : ∀ e ∈ d.wire, ∃ ceilingWei, d.run.world.db.HasCeiling e.1 ceilingWei ∧
    (decode e.2).valueWei ≤ ceilingWei
  exposed : ∀ ceilingWei, d.run.world.db.HasCeiling planId ceilingWei →
    exposure decode (d.counted decode planId) ≤ ceilingWei

section

variable {decode : String → Decoded} {config : Config} {d d' : SpendRun} {planId rawTx : String} {ceilingWei : ℕ}

theorem mem_sentFor : rawTx ∈ d.sentFor planId ↔ (planId, rawTx) ∈ d.wire := by
  rw [sentFor, Finset.mem_image]
  constructor
  · rintro ⟨⟨id, raw⟩, he, rfl⟩
    obtain ⟨hmem, rfl⟩ := Finset.mem_filter.mp he
    exact hmem
  · intro h
    exact ⟨_, Finset.mem_filter.mpr ⟨h, rfl⟩, rfl⟩

theorem mem_counted : rawTx ∈ d.counted decode planId ↔
    (planId, rawTx) ∈ d.wire ∧ d.MayLand decode rawTx := by
  rw [counted, Finset.mem_filter, mem_sentFor]

/-- When nothing new is on the wire for the plan, nothing new counts. -/
theorem counted_subset (hland : ∀ raw, d'.MayLand decode raw → d.MayLand decode raw)
    (hwire : ∀ raw, (planId, raw) ∈ d'.wire → (planId, raw) ∈ d.wire) :
    d'.counted decode planId ⊆ d.counted decode planId := by
  intro raw hraw
  obtain ⟨hmem, hmay⟩ := mem_counted.mp hraw
  exact mem_counted.mpr ⟨hwire raw hmem, hland raw hmay⟩

/-- **What has landed counts.**  Of each sender and nonce there is one, so a plan has spent no
more than it is exposed to. -/
theorem spent_le_exposure
    (hsingle : ∀ e ∈ d.chain, ∀ e' ∈ d.chain, (decode e.1).slot = (decode e'.1).slot → e = e') :
    d.spent decode planId ≤ exposure decode (d.counted decode planId) := by
  refine Slots.sum_le_exposure ?_ ?_
  · intro raw hraw
    obtain ⟨hmem, hlanded⟩ := Finset.mem_filter.mp hraw
    exact Finset.mem_filter.mpr ⟨hmem, Or.inl hlanded⟩
  · intro raw hraw raw' hraw' hslot
    have hlanded := (Finset.mem_filter.mp hraw).2
    have hlanded' := (Finset.mem_filter.mp hraw').2
    exact congrArg Prod.fst (hsingle _ hlanded _ hlanded' hslot)

/-- A plan whose transactions are on the wire has one ceiling, before and after a step. -/
theorem Sound.exposed_next (h : d.Sound decode planId) {run : PolicyRun}
    (hmono : ∀ id c, d.run.world.db.HasCeiling id c → run.world.db.HasCeiling id c)
    (hceiling : run.world.db.HasCeiling planId ceilingWei) :
    exposure decode (d.counted decode planId) ≤ ceilingWei := by
  rcases (d.counted decode planId).eq_empty_or_nonempty with hnone | ⟨raw, hraw⟩
  · rw [hnone]
    exact Nat.zero_le _
  · obtain ⟨c, hc, _⟩ := h.wire _ (mem_counted.mp hraw).1
    obtain rfl := (hmono _ _ hc).unique hceiling
    exact h.exposed c hc

/-- **Step, the wire.**  The worker moves on, and something goes on the wire that is within its
plan's ceiling and has room there, if it is of the plan. -/
theorem sound_put (h : d.Sound decode planId) {run : PolicyRun}
    (hrun : run.Spending decode)
    (hmono : ∀ id c, d.run.world.db.HasCeiling id c → run.world.db.HasCeiling id c)
    {put : Option (String × String)}
    (hwithin : ∀ e ∈ put, ∃ c, d.run.world.db.HasCeiling e.1 c ∧ (decode e.2).valueWei ≤ c)
    (hroom : ∀ e ∈ put, e.1 = planId → d.HasRoom decode planId e.2) :
    Sound decode planId ⟨run, put.elim d.wire (insert · d.wire), d.chain⟩ := by
  have hwire : ∀ e ∈ d.wire, ∃ c, run.world.db.HasCeiling e.1 c ∧ (decode e.2).valueWei ≤ c := by
    intro e he
    obtain ⟨c, hc, hvalue⟩ := h.wire e he
    exact ⟨c, hmono _ _ hc, hvalue⟩
  rcases put with _ | ⟨id, rawTx⟩
  · exact ⟨hrun, h.single, hwire, fun c hc => h.exposed_next hmono hc⟩
  · obtain ⟨c₀, hc₀, hvalue⟩ := hwithin _ rfl
    refine ⟨hrun, h.single, fun e he => ?_, fun c hc => ?_⟩
    · rcases Finset.mem_insert.mp he with rfl | he
      · exact ⟨c₀, hmono _ _ hc₀, hvalue⟩
      · exact hwire e he
    · have hbefore := h.exposed_next hmono hc
      -- what is of another plan, or has been on the wire, changes nothing
      have hold : (∀ raw, (planId, raw) ∈ insert (id, rawTx) d.wire → (planId, raw) ∈ d.wire) →
          exposure decode (SpendRun.counted decode ⟨run, insert (id, rawTx) d.wire, d.chain⟩ planId)
            ≤ c := by
        intro hsub
        refine le_trans (Slots.exposure_mono ?_) hbefore
        exact counted_subset (fun _ hmay => hmay) hsub
      by_cases hid : id = planId
      · subst hid
        obtain rfl := (hmono _ _ hc₀).unique hc
        have hsub : SpendRun.counted decode ⟨run, insert (id, rawTx) d.wire, d.chain⟩ id ⊆
            insert rawTx (d.counted decode id) := by
          intro raw hraw
          obtain ⟨hmem, hmay⟩ := mem_counted.mp hraw
          rcases Finset.mem_insert.mp hmem with heq | hmem
          · exact Finset.mem_insert.mpr (Or.inl (congrArg Prod.snd heq))
          · exact Finset.mem_insert_of_mem (mem_counted.mpr ⟨hmem, hmay⟩)
        rcases hroom _ rfl rfl with hsent | halone | hfits
        · refine hold fun raw hmem => ?_
          rcases Finset.mem_insert.mp hmem with heq | hmem
          · rw [heq]
            exact mem_sentFor.mp hsent
          · exact hmem
        · refine le_trans (Slots.exposure_mono hsub) (Slots.exposure_le_of_one_slot ?_ ?_)
          · have hslot : ∀ raw ∈ insert rawTx (d.counted decode id),
                (decode raw).slot = (decode rawTx).slot := by
              intro raw hraw
              rcases Finset.mem_insert.mp hraw with rfl | hraw
              · rfl
              · exact halone raw hraw
            exact fun raw hraw raw' hraw' => (hslot raw hraw).trans (hslot raw' hraw').symm
          · intro raw hraw
            rcases Finset.mem_insert.mp hraw with rfl | hraw
            · exact hvalue
            · obtain ⟨c, hc', hvalue'⟩ := h.wire _ (mem_counted.mp hraw).1
              obtain rfl := hc'.unique hc₀
              exact hvalue'
        · obtain ⟨r, hr, hrid, _, rfl⟩ := hc₀
          exact le_trans (Slots.exposure_mono hsub) (hfits r hr hrid)
      · refine hold fun raw hmem => ?_
        rcases Finset.mem_insert.mp hmem with heq | hmem
        · exact absurd (congrArg Prod.fst heq).symm hid
        · exact hmem

/-- What the owner is prompted to sign is within the ceiling of its plan. -/
theorem prompt_within (h : d.Sound decode planId) {attemptId : ℕ} {id : String} {tx : Tx}
    (hprompt : d.run.world.prompt? attemptId = some (id, tx)) :
    ∃ c, d.run.world.db.HasCeiling id c ∧ tx.valueWei ≤ c := by
  obtain ⟨r, hr, hprompt⟩ := Option.bind_eq_some_iff.mp hprompt
  obtain ⟨tx', htx, hprompt⟩ := Option.bind_eq_some_iff.mp hprompt
  obtain ⟨rfl, rfl⟩ := Prod.mk.inj (Option.some.inj hprompt)
  have hfound := List.find?_some hr
  exact h.run.prompts r (List.mem_of_find?_eq_some hr) (of_decide_eq_true hfound).2 tx' htx

/-- **Step.** -/
theorem sound_step {l : SpendStep} (h : d.Sound decode planId)
    (hl : d.Spares decode planId l) (hs : step decode config d l = some d') :
    d'.Sound decode planId := by
  cases l with
  | worker m =>
    rw [step] at hs
    split at hs
    · next hsigned =>
      obtain ⟨run, hstep, rfl⟩ := Option.map_eq_some_iff.mp hs
      refine sound_put h (MintRun.spending_step h.run hsigned hstep)
        (fun _ _ hc => MintRun.hasCeiling_step hstep hc) (fun e he => ?_) hl
      exact h.run.sent he
    · simp at hs
  | ownerSigns attemptId rawTx =>
    rw [step] at hs
    split at hs
    · next id tx hprompt =>
      split at hs
      · next hvalue =>
        obtain rfl := Option.some.inj hs
        have hput : d.puts (.ownerSigns attemptId rawTx) = some (id, rawTx) := by
          rw [puts, hprompt]
          rfl
        obtain ⟨c, hc, hle⟩ := prompt_within h hprompt
        have hwithin : ∀ e ∈ some (id, rawTx), ∃ c, d.run.world.db.HasCeiling e.1 c ∧
            (decode e.2).valueWei ≤ c := by
          intro e he
          obtain rfl := Option.mem_some_iff.mp he
          exact ⟨c, hc, hvalue.trans_le hle⟩
        exact sound_put h h.run (fun _ _ hc => hc) hwithin fun e he => hl e (hput ▸ he)
      · simp at hs
    · simp at hs
  | mined rawTx success =>
    rw [step] at hs
    split at hs
    · next hfree =>
      obtain rfl := Option.some.inj hs
      -- what may land now, could have landed before
      have hland : ∀ raw, MayLand decode { d with chain := (rawTx, success) :: d.chain } raw →
          d.MayLand decode raw := by
        intro raw hmay
        rcases hmay with hlanded | hopen
        · rcases List.mem_cons.mp hlanded with heq | hlanded
          · obtain rfl : raw = rawTx := congrArg Prod.fst heq
            exact Or.inr hfree
          · exact Or.inl hlanded
        · exact Or.inr fun e he => hopen e (List.mem_cons_of_mem _ he)
      refine ⟨h.run, fun e he e' he' hslot => ?_, h.wire, fun c hc => ?_⟩
      · rcases List.mem_cons.mp he with rfl | he
        · rcases List.mem_cons.mp he' with rfl | he'
          · rfl
          · exact absurd hslot.symm (hfree e' he')
        · rcases List.mem_cons.mp he' with rfl | he'
          · exact absurd hslot (hfree e he)
          · exact h.single e he e' he' hslot
      · have hsub : counted decode { d with chain := (rawTx, success) :: d.chain } planId ⊆
            d.counted decode planId := counted_subset hland fun _ hmem => hmem
        exact le_trans (Slots.exposure_mono hsub) (h.exposed c hc)
    · simp at hs

/-- **The spend ceiling.**  In every run in which each transaction of a plan goes on the wire
alone, or while the ceiling has room for it beside the others that count, the values of the
plan's transactions that were mined successfully sum up to at most its ceiling. -/
theorem ceiling_of_reach (h : Reach (step decode config) (Spares decode planId) start d) :
    ∀ r ∈ d.run.world.db.plans, r.id = planId → d.spent decode planId ≤ r.perPlanCeilingWei := by
  have hsound : d.Sound decode planId := by
    refine h.invariant ?_ fun _ _ _ _ hd hl hs => sound_step hd hl hs
    refine ⟨⟨MintRun.backed_start, fun r hr => absurd hr List.not_mem_nil,
      fun e he => absurd he List.not_mem_nil⟩, fun e he => absurd he List.not_mem_nil,
      fun e he => absurd he (Finset.notMem_empty e), ?_⟩
    rintro c ⟨r, hr, _⟩
    exact absurd hr Table.not_mem_empty
  intro r hr hid
  have hspent : d.spent decode planId ≤ exposure decode (d.counted decode planId) :=
    spent_le_exposure hsound.single
  rcases (d.counted decode planId).eq_empty_or_nonempty with hnone | ⟨raw, hraw⟩
  · rw [hnone] at hspent
    exact hspent.trans (Nat.zero_le _)
  · obtain ⟨c, hc, _⟩ := hsound.wire _ (mem_counted.mp hraw).1
    have hle := hspent.trans (hsound.exposed c hc)
    obtain ⟨r', hr', hid', _, rfl⟩ := hc
    rw [Table.eq_of_key hr hr' (hid.trans hid'.symm)]
    exact hle

end

end SpendRun

/-! ### Two races -/

namespace Sample

/-- Two transactions of the wallet, of six wei each. -/
def decoded (rawTx : String) : Decoded := ⟨"0xab", if rawTx = "raw1" then 5 else 6, 6⟩

/-- The pass signs `rawTx` at this nonce, and no endpoint answers the race in time. -/
def racing (nowMs : ℤ) (seen : Option (Option String × ℤ)) (nonce : ℕ) (rawTx : String) :
    (c : Cmd) → Except Thrown c.Resp
  | .selectLatestBroadcast _ => .ok seen
  | .selectPresigned _ => .ok (some ⟨none, none, none⟩)
  | .reserveNonce .. => .ok nonce
  | .burstBuildOpenSeaMintTx .. => .ok { tx with valueWei := 6 }
  | .signManagedMintTransaction .. => .ok ⟨rawTx, "0x" ++ rawTx⟩
  | .raceRawTransaction .. => .ok (.error [.error "The request took too long to respond."])
  | c => answerAt nowMs c

/-- The plan is armed, and a pass races its transaction. -/
def firstRace : List SpendStep :=
  List.map .worker (arming ++ [.clock 60000, .fire] ++
    List.replicate 20 (.advance 0 (racing 60000 none 5 "raw1")))

/-- The pass finds no receipt and releases the plan; after the grace period another pass claims
it, finds no receipt either, and races a second transaction. -/
def secondRace : List SpendStep :=
  List.map .worker (List.replicate 3 (.advance 0 (racing 60000 none 5 "raw1")) ++
    [.clock 64000, .fire] ++
    List.replicate 22 (.advance 1 (racing 64000 (some (some "0xraw1", 60000)) 6 "raw2")))

end Sample

namespace SpendRun

/-- The plan's one transaction lands. -/
theorem ceiling_of_reach_mined :
    ∃ d, Reach (step Sample.decoded Sample.config) (Spares Sample.decoded "p") start d ∧
      d.spent Sample.decoded "p" = 6 ∧
      ∀ r ∈ d.run.world.db.plans, r.id = "p" → d.spent Sample.decoded "p" ≤ r.perPlanCeilingWei := by
  obtain ⟨d, hr, hp⟩ := exists_reach_of_run (step Sample.decoded Sample.config)
    (Spares Sample.decoded "p") start (Sample.firstRace ++ [.mined "raw1" true])
    (fun d => decide (d.spent Sample.decoded "p" = 6)) (by decide) (by decide)
  exact ⟨d, hr, of_decide_eq_true hp, ceiling_of_reach hr⟩

/-- **Two transactions of one plan.**  Both land: the plan has a ceiling of ten wei, and spends
twelve. -/
theorem spends_twice :
    ¬ ∀ decode config planId d, Reachable (step decode config) start d →
      ∀ r ∈ d.run.world.db.plans, r.id = planId → d.spent decode planId ≤ r.perPlanCeilingWei := by
  intro hclaim
  obtain ⟨d, hr, hp⟩ := exists_reachable_of_run (step Sample.decoded Sample.config) start
    (Sample.firstRace ++ Sample.secondRace ++ [.mined "raw1" true, .mined "raw2" true])
    (fun d => decide (∃ r ∈ d.run.world.db.plans,
      r.id = "p" ∧ r.perPlanCeilingWei < d.spent Sample.decoded "p")) (by decide)
  obtain ⟨r, hr', hid, hlt⟩ := of_decide_eq_true hp
  exact absurd (hclaim _ _ "p" d hr r hr' hid) (not_le.mpr hlt)

end SpendRun

end MintWorker
