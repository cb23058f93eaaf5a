/-
Where pre-signed blobs are left.

A blob is a signed transaction, so every statement that ends a plan purges it, and so does
clearing a wallet.  The statement that stores a blob looks at neither: a pre-sign pass reads
its candidates, asks the endpoints and OpenSea, and then writes.

* `MintWorld.Hygienic` — no plan that has ended holds a blob, and none holds one that was
  signed before its wallet was cleared;
* `clean_exec` — the statements keep this, as long as what is stored may be stored;
* `hygienic_of_reach` — and so do the runs in which every pass stores in time;
* `late_store` — a plan is disarmed while a pass is at work on it.
-/
import HoodMint.MintRuns

namespace MintWorker

open Effect Relational Transition

/-! ### Blobs -/

/-- The row holds no blob, or is of a plan that has not ended, and the blob is not one that has
been cleared from the wallet. -/
def MintPlan.Clean (cleared : List (String × String)) (r : MintPlan) : Prop :=
  ∀ rawTx ∈ r.presignedRawTx, ¬ r.status.Terminal ∧ (r.walletId, rawTx) ∉ cleared

/-- The hygiene of blobs. -/
structure MintWorld.Hygienic (w : MintWorld) : Prop where
  /-- No plan that has ended holds a blob. -/
  ended : ∀ r ∈ w.db.plans, r.status.Terminal → r.presignedRawTx = none
  /-- No plan holds a blob that was signed before its wallet was cleared. -/
  cleared : ∀ r ∈ w.db.plans, ∀ rawTx ∈ r.presignedRawTx, (r.walletId, rawTx) ∉ w.cleared

/-- A blob may be stored: its plan has not ended, and its wallet has not been cleared since the
blob was signed. -/
def MintWorld.MayStore (w : MintWorld) (planId rawTx : String) : Prop :=
  ∀ r ∈ w.db.plans, r.id = planId → ¬ r.status.Terminal ∧ (r.walletId, rawTx) ∉ w.cleared

instance (w : MintWorld) (planId rawTx : String) : Decidable (w.MayStore planId rawTx) :=
  (inferInstance : Decidable (∀ r ∈ w.db.plans, r.id = planId →
    ¬ r.status.Terminal ∧ (r.walletId, rawTx) ∉ w.cleared))

/-- A command, when it stores a blob, stores one that may be stored. -/
def MintWorld.StoresInTime (w : MintWorld) (c : Cmd) (x : Except Thrown c.Resp) : Prop :=
  match c, x with
  | .savePresignedTx planId rawTx _ _, .ok _ => w.MayStore planId rawTx
  | _, _ => True

instance (w : MintWorld) (c : Cmd) (x : Except Thrown c.Resp) : Decidable (w.StoresInTime c x) := by
  induction c using Cmd.casesOn with
  | savePresignedTx planId rawTx nonce txHash =>
    exact match x with
      | .error _ => isTrue trivial
      | .ok _ => (inferInstance : Decidable (w.MayStore planId rawTx))
  | _ => exact isTrue trivial

theorem hygienic_iff {w : MintWorld} : w.Hygienic ↔ ∀ r ∈ w.db.plans, r.Clean w.cleared := by
  constructor
  · intro h r hr rawTx hraw
    refine ⟨fun ht => ?_, h.cleared r hr rawTx hraw⟩
    rw [h.ended r hr ht] at hraw
    exact absurd hraw (Option.not_mem_none _)
  · intro h
    constructor
    · intro r hr ht
      refine Option.eq_none_iff_forall_not_mem.mpr fun rawTx hraw => ?_
      exact (h r hr rawTx hraw).1 ht
    · intro r hr rawTx hraw
      exact (h r hr rawTx hraw).2

/-! ### Statements -/

section

variable {db : PlanDb} {s : PlanStatement} {cleared : List (String × String)} {r r' : MintPlan}

theorem clean_of_none (h : r.presignedRawTx = none) : r.Clean cleared := by
  intro rawTx hraw
  rw [h] at hraw
  exact absurd hraw (Option.not_mem_none _)

/-- A row that keeps wallet and blob stays clean, unless it has ended. -/
theorem MintPlan.Clean.of_blob (h : r.Clean cleared) (hsame : r.SamePlan r')
    (hblob : r'.presignedRawTx = r.presignedRawTx)
    (hstatus : r'.status.Terminal → r.status.Terminal) : r'.Clean cleared := by
  intro rawTx hraw
  rw [hblob] at hraw
  obtain ⟨hlive, hout⟩ := h rawTx hraw
  rw [hsame.2.1]
  exact ⟨fun ht => hlive (hstatus ht), hout⟩

/-- **Step, statements.**  A statement leaves the rows clean; one that stores a blob, when it
may. -/
theorem clean_exec (h : ∀ r ∈ db.plans, r.Clean cleared)
    (hstore : ∀ planId rawTx nonce txHash now, s = .savePresignedTx planId rawTx nonce txHash now →
      ∀ r ∈ db.plans, r.id = planId → ¬ r.status.Terminal ∧ (r.walletId, rawTx) ∉ cleared) :
    ∀ r' ∈ (db.exec s).plans, r'.Clean cleared := by
  intro r' hr'
  rcases exec_origin hr' with ⟨_, hblob, _⟩ | ⟨r, hr, hsame, hmove⟩
  · exact clean_of_none hblob
  · have hclean := h r hr
    -- a status that is no terminal one
    have hopen : ∀ {status : PlanStatus}, r'.status = status → ¬ status.Terminal →
        r'.status.Terminal → r.status.Terminal := by
      intro status hs hlive ht
      rw [hs] at ht
      exact absurd ht hlive
    cases hmove with
    | stay status _ _ blob =>
      rcases blob with hblob | hblob | ⟨rawTx, nonce, txHash, now, hs, hraw⟩
      · exact hclean.of_blob hsame hblob fun ht => status ▸ ht
      · exact clean_of_none hblob
      · intro rawTx' hraw'
        rw [hraw] at hraw'
        obtain rfl := Option.mem_some_iff.mp hraw'
        obtain ⟨hlive, hout⟩ := hstore _ _ _ _ _ hs r hr hsame.1.symm
        rw [status, hsame.2.1]
        exact ⟨hlive, hout⟩
    | arm _ status _ _ blob => exact hclean.of_blob hsame blob (hopen status (by decide))
    | claim _ status _ _ blob => exact hclean.of_blob hsame blob (hopen status (by decide))
    | release _ status _ _ _ blob => exact hclean.of_blob hsame blob (hopen status (by decide))
    | finish _ _ _ _ purged => exact clean_of_none purged

/-- Clearing a wallet takes the blobs of all its plans. -/
theorem clean_clearPresignedForWallet {walletId : String} {now : ℤ} {before : List String}
    (h : ∀ r ∈ db.plans, r.Clean cleared) :
    ∀ r' ∈ MintPlans.clearPresignedForWallet db.plans walletId now,
      r'.Clean (before.map (fun rawTx => (walletId, rawTx)) ++ cleared) := by
  intro r' hr'
  rw [MintPlans.clearPresignedForWallet] at hr'
  rcases Table.update_cases hr' with ⟨r, _, _, rfl⟩ | ⟨hr, hother⟩
  · exact clean_of_none rfl
  · intro rawTx hraw
    obtain ⟨hlive, hout⟩ := h r' hr rawTx hraw
    refine ⟨hlive, fun hmem => ?_⟩
    rcases List.mem_append.mp hmem with hmem | hmem
    · obtain ⟨_, _, heq⟩ := List.mem_map.mp hmem
      exact hother (congrArg Prod.fst heq).symm
    · exact hout hmem

end

/-- A statement of the operators, or of a worker that fires no plan. -/
theorem hygienic_exec {w : MintWorld} {s : PlanStatement} (h : w.Hygienic)
    (hs : s.outside = true) : (w.exec s).Hygienic := by
  have hclean := hygienic_iff.mp h
  refine hygienic_iff.mpr ?_
  cases s with
  | clearPresignedForWallet walletId now =>
    have hcleared : ∀ r ∈ MintPlans.clearPresignedForWallet w.db.plans walletId now, r.Clean
        ((w.signed.map Prod.fst).map (fun rawTx => (walletId, rawTx)) ++ w.cleared) :=
      clean_clearPresignedForWallet hclean
    rw [List.map_map] at hcleared
    exact hcleared
  | savePresignedTx => exact absurd hs nofun
  | _ => exact clean_exec hclean nofun

/-! ### Runs -/

namespace MintRun

variable {τ : Type} {L : Monitor signature Thrown τ} {t₀ : τ} {config : Config} {d d' : MintRun τ}

/-- Every pass stores in time: at the moment it stores a blob, the blob may be stored. -/
def StoresInTime : MintRun τ → MintStep → Prop := OnCommand fun d _ c x => d.world.StoresInTime c x

instance (d : MintRun τ) : DecidablePred d.StoresInTime :=
  (inferInstance : DecidablePred (OnCommand (fun d _ c x => d.world.StoresInTime c x) d))

/-- **Step.**  Every step that stores in time keeps the blobs' hygiene. -/
theorem hygienic_step {l : MintStep} (h : d.world.Hygienic) (hl : d.StoresInTime l)
    (hs : step L t₀ config d l = some d') : d'.world.Hygienic := by
  cases l with
  | fire =>
    obtain rfl := Option.some.inj hs
    exact h
  | presign =>
    obtain rfl := Option.some.inj hs
    exact h
  | crash i =>
    obtain ⟨t, _, rfl⟩ := Option.map_eq_some_iff.mp hs
    exact h
  | recordSignature =>
    obtain rfl := Option.some.inj hs
    exact ⟨h.ended, h.cleared⟩
  | clock =>
    obtain rfl := Option.some.inj hs
    exact ⟨h.ended, h.cleared⟩
  | statement s =>
    rw [step] at hs
    split at hs
    · next hout =>
      obtain rfl := Option.some.inj hs
      exact hygienic_exec h hout
    · exact absurd hs nofun
  | advance i answer =>
    obtain ⟨c, k, here, hi, hx, rfl⟩ := step_advance_cases hs
    have hl := OnCommand.of_advance hl hi
    have hclean := hygienic_iff.mp h
    refine hygienic_iff.mpr ?_
    show ∀ r ∈ (mintWorld.next d.world c (answer c)).db.plans,
      r.Clean (mintWorld.next d.world c (answer c)).cleared
    rcases next_cases hx with ⟨hdb, hcleared⟩ | ⟨a, s, hok, hissues, hdb, hcleared⟩
    · intro r hr rawTx hraw
      rw [hdb] at hr
      obtain ⟨hlive, hout⟩ := hclean r hr rawTx hraw
      exact ⟨hlive, fun hmem => hout (hcleared _ hmem)⟩
    · rw [hdb, hcleared]
      refine clean_exec hclean ?_
      rintro planId rawTx nonce txHash now rfl
      cases hissues
      rw [hok] at hl
      exact hl

/-- **Hygiene of blobs.**  In every run whose passes all store in time, no plan that has ended
holds a blob, and none holds one that was signed before its wallet was cleared. -/
theorem hygienic_of_reach (h : Reach (step L t₀ config) StoresInTime start d) :
    d.world.Hygienic := by
  refine h.invariant ?_ fun _ _ _ _ hd hl hs => hygienic_step hd hl hs
  constructor
  · exact fun r hr => absurd hr Table.not_mem_empty
  · exact fun r hr => absurd hr Table.not_mem_empty

end MintRun

/-! ### A plan with one pass at work on it -/

namespace Sample

/-- A pass that keeps nothing in mind. -/
def careless : Monitor signature Thrown Unit := ⟨fun _ _ => True, fun _ _ _ => True, fun _ _ _ => ()⟩

/-- What a pre-sign pass is answered about the plan. -/
def listing : (c : Cmd) → Except Thrown c.Resp
  | .armedManagedPlansForPresign _ =>
    .ok [{ planId := "p", walletId := "w", walletAddress := "0xab", stageStartMs := 60000
           presignedAt := none, presignedNonce := none, cachedTx := none, cachedTxAt := none
           perPlanCeilingWei := 10, quantity := 1, stagePriceWei := none, stageCurrency := none }]
  | c => answer c

/-- The plan is armed; a pre-sign pass starts, and is `k` commands under way. -/
def presigning (k : ℕ) : List MintStep :=
  arming ++ [.presign 20000 0] ++ List.replicate k (.advance 0 listing)

end Sample

namespace MintRun

/-- The blob is stored, and purged when the plan is disarmed. -/
theorem hygienic_of_reach_disarmed :
    ∃ d, Reach (step Sample.careless () Sample.config) StoresInTime start d ∧
      (∃ r ∈ d.world.db.plans, r.status = .cancelled) ∧ d.world.Hygienic := by
  obtain ⟨d, hr, hp⟩ := exists_reach_of_run (step Sample.careless () Sample.config) StoresInTime start
    (Sample.presigning 15 ++ [.statement (.disarmMintPlan "p" 0)])
    (fun d => decide (∃ r ∈ d.world.db.plans, r.status = .cancelled)) (by decide) (by decide)
  exact ⟨d, hr, of_decide_eq_true hp, hygienic_of_reach hr⟩

/-- **A purge falls between the read and the write.**  The operator disarms the plan after the
pass has read it; the pass then stores its blob. -/
theorem late_store :
    ¬ ∀ config (d : MintRun Unit), Reachable (step Sample.careless () config) start d →
      d.world.Hygienic := by
  intro hclaim
  obtain ⟨d, hr, hp⟩ := exists_reachable_of_run (step Sample.careless () Sample.config) start
    (Sample.presigning 14 ++
      [.statement (.disarmMintPlan "p" 0), .advance 0 Sample.listing])
    (fun d => decide (∃ r ∈ d.world.db.plans, r.status.Terminal ∧ r.presignedRawTx ≠ none))
    (by decide)
  obtain ⟨r, hr', ht, hraw⟩ := of_decide_eq_true hp
  exact hraw ((hclaim _ d hr).ended r hr' ht)

end MintRun

end MintWorker
