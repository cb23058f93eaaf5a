/-
The claim on a plan.

The claim is a compare-and-set, and an `executing` row is free again when it has not been
written for thirty seconds; the statements that release or end a plan look at its status alone.
So what they do depends on whether the lease outlasts the pass that took it.

* `MintRun.Dispatch` — at most one pass holds the plan, and only that pass ends it;
* `MintRun.Claims` — the invariant: a plan that is held is executing, or has ended, and one
  that a pass has ended has ended;
* `dispatch_of_reach` — the runs in which every pass is done with its plan within the lease;
* `late_release` — a pass that outlives its lease puts the plan of another back to `armed`.
-/
import HoodMint.ClaimPass

namespace MintWorker

open Effect Relational Transition

/-! ### Rows -/

/-- The status of a plan. -/
def PlanDb.statusOf (db : PlanDb) (planId : String) : Option PlanStatus :=
  (db.plans.get? planId).map MintPlan.status

/-- The plan has been claimed, or has ended. -/
def PlanDb.Taken (db : PlanDb) (planId : String) : Prop :=
  ∃ r ∈ db.plans, r.id = planId ∧ (r.status = .executing ∨ r.status.Terminal)

/-- The plan's row has been written no longer ago than the lease. -/
def PlanDb.Leased (db : PlanDb) (planId : String) (now leaseMs : ℤ) : Prop :=
  ∀ r ∈ db.plans, r.id = planId → now ≤ r.updatedAt + leaseMs

instance (db : PlanDb) (planId : String) (now leaseMs : ℤ) :
    Decidable (db.Leased planId now leaseMs) :=
  (inferInstance : Decidable (∀ r ∈ db.plans, r.id = planId → now ≤ r.updatedAt + leaseMs))

/-- The plan has ended. -/
def PlanDb.Ended (db : PlanDb) (planId : String) : Prop :=
  ∃ r ∈ db.plans, r.id = planId ∧ r.status.Terminal

section

variable {db : PlanDb} {s : PlanStatement} {r : MintPlan} {planId : String}

theorem PlanDb.Ended.taken (h : db.Ended planId) : db.Taken planId := by
  obtain ⟨r, hr, hid, ht⟩ := h
  exact ⟨r, hr, hid, Or.inr ht⟩

theorem statusOf_of_mem (hr : r ∈ db.plans) (hid : r.id = planId) :
    db.statusOf planId = some r.status := by
  rw [PlanDb.statusOf, Table.get?_eq_some.mpr ⟨hr, hid⟩]
  rfl

/-- A plan that has been claimed is not due again while the lease runs. -/
theorem PlanDb.Taken.not_due {now leaseMs leadMs : ℤ} (h : db.Taken planId)
    (hleased : db.Leased planId now leaseMs) (hr : r ∈ db.plans) (hid : r.id = planId) :
    ¬ r.Due db.stages now leaseMs leadMs := by
  obtain ⟨r', hr', hid', hstatus⟩ := h
  obtain rfl := Table.eq_of_key hr hr' (hid.trans hid'.symm)
  rintro ⟨_, _, _, harmed | ⟨_, hexpired⟩⟩
  · rw [harmed] at hstatus
    exact absurd hstatus (by decide)
  · have := hleased r hr hid
    omega

/-- A plan that has ended stays as it is. -/
theorem PlanDb.Ended.exec (h : db.Ended planId) :
    (db.exec s).Ended planId ∧ (db.exec s).statusOf planId = db.statusOf planId := by
  obtain ⟨r, hr, hid, ht⟩ := h
  obtain ⟨r', hr', hid', hstatus⟩ := (respects db s).terminal r hr ht
  refine ⟨⟨r', hr', hid'.trans hid, hstatus ▸ ht⟩, ?_⟩
  rw [statusOf_of_mem hr hid, statusOf_of_mem hr' (hid'.trans hid), hstatus]

/-- A plan that has been claimed stays so, until it is released. -/
theorem PlanDb.Taken.exec (h : db.Taken planId)
    (hs : ∀ now, s ≠ .releaseMintPlanToArmed planId now) : (db.exec s).Taken planId := by
  obtain ⟨r, hr, hid, hstatus⟩ := h
  rcases hstatus with hexecuting | ht
  · have hdraft : r.status ≠ .draft := by
      rw [hexecuting]
      decide
    rcases exec_kept (s := s) hr with ⟨h, _⟩ | ⟨r', hr', hsame, hmove⟩
    · exact absurd h hdraft
    · refine ⟨r', hr', hsame.1.trans hid, ?_⟩
      cases hmove with
      | stay status => exact Or.inl (status.trans hexecuting)
      | arm draft => exact absurd draft hdraft
      | claim _ status => exact Or.inl status
      | release _ _ releases =>
        obtain ⟨now, hrelease, _⟩ := releases
        exact absurd hrelease (hid ▸ hs now)
      | finish _ terminal => exact Or.inr terminal
  · exact (PlanDb.Ended.exec ⟨r, hr, hid, ht⟩).1.taken

/-- The plan that has been claimed is ended by a mark. -/
theorem taken_endExecution {status : PlanStatus} {now : ℤ} (h : db.Taken planId)
    (hstatus : status.Terminal) :
    ∃ r ∈ MintPlans.endExecution db.plans planId status now, r.id = planId ∧ r.status.Terminal := by
  obtain ⟨r, hr, hid, hexecuting | ht⟩ := h
  · exact ⟨_, Table.mem_update_of_pos hr ⟨hid, hexecuting⟩, hid, hstatus⟩
  · refine ⟨r, Table.mem_update_of_neg hr ?_, hid, ht⟩
    rintro ⟨_, hexecuting⟩
    rw [hexecuting] at ht
    exact absurd ht (by decide)

end

/-! ### The claim on a plan -/

/-- Releases the plan, or ends it. -/
def Cmd.EndsClaim (planId : String) : Cmd → Prop
  | .releaseMintPlanToArmed id _ => id = planId
  | .markMintPlanExecuted id => id = planId
  | .failMintPlanExecution id => id = planId
  | _ => False

instance (planId : String) : DecidablePred (Cmd.EndsClaim planId) := fun c => by
  induction c using Cmd.casesOn with
  | releaseMintPlanToArmed id now => exact (inferInstance : Decidable (id = planId))
  | markMintPlanExecuted id => exact (inferInstance : Decidable (id = planId))
  | failMintPlanExecution id => exact (inferInstance : Decidable (id = planId))
  | _ => exact isFalse id

/-- The command claims the plan. -/
def Cmd.Claims (planId : String) (c : Cmd) (x : Except Thrown c.Resp) : Prop :=
  match c, x with
  | .claimArmedMintPlan .., .ok (some plan) => plan.id = planId
  | _, _ => False

instance (planId : String) (c : Cmd) (x : Except Thrown c.Resp) :
    Decidable (c.Claims planId x) := by
  induction c using Cmd.casesOn with
  | claimArmedMintPlan now leaseMs leadMs =>
    exact match x with
      | .error _ => isFalse id
      | .ok none => isFalse id
      | .ok (some plan) => (inferInstance : Decidable (plan.id = planId))
  | _ => exact isFalse id

/-- The reading of the clock, and the lease, that a claim is asked with. -/
def Cmd.claimAt : Cmd → Option (ℤ × ℤ)
  | .claimArmedMintPlan nowMs leaseMs _ => some (nowMs, leaseMs)
  | _ => none

/-- A plan that has been claimed is not claimed again while the lease runs. -/
theorem not_claims_of_leased {w : MintWorld} {c : Cmd} {x : Except Thrown c.Resp} {planId : String}
    (hx : mintWorld.allowed w c x) (h : w.db.Taken planId)
    (hleased : ∀ e ∈ c.claimAt, w.db.Leased planId e.1 e.2) : ¬ c.Claims planId x := by
  intro hc
  cases c with
  | claimArmedMintPlan now leaseMs leadMs =>
    rcases x with e | _ | plan
    · exact hc
    · exact hc
    · obtain ⟨r, hr, hdue, rfl⟩ := hx
      exact h.not_due (hleased _ rfl) hr hc hdue
  | _ => exact hc

namespace MintRun

/-- The `i`-th pass is under way and holds the plan. -/
def Holds (d : MintRun ClaimState) (i : ℕ) (planId : String) : Prop :=
  ∃ t ∈ d.passes[i]?, ¬ t.Done ∧ t.here.held = some planId

instance (d : MintRun ClaimState) (i : ℕ) (planId : String) : Decidable (d.Holds i planId) :=
  (inferInstance : Decidable (∃ t ∈ d.passes[i]?, ¬ t.Done ∧ t.here.held = some planId))

/-- The next command of the `i`-th pass releases or ends the plan. -/
def IsEnding (d : MintRun ClaimState) (i : ℕ) (planId : String) : Prop :=
  ∃ c k here, d.passes[i]? = some ⟨.call c k, here⟩ ∧ c.EndsClaim planId

/-- The passes, each following its own plan. -/
abbrev claimStep (config : Config) : MintRun ClaimState → MintStep → Option (MintRun ClaimState) :=
  step claimLocal .idle config

/-- **The discipline of claims.** -/
structure Dispatch (config : Config) (planId : String) (d : MintRun ClaimState) : Prop where
  /-- At most one pass holds the plan. -/
  alone : ∀ i j, d.Holds i planId → d.Holds j planId → i = j
  /-- Only a pass that holds the plan changes its status by releasing or ending it. -/
  owner : ∀ i answer d', claimStep config d (.advance i answer) = some d' → d.IsEnding i planId →
    d'.world.db.statusOf planId ≠ d.world.db.statusOf planId → d.Holds i planId
  /-- While one pass holds the plan, no other changes its status by releasing or ending it. -/
  undisturbed : ∀ i j answer d', d.Holds j planId → i ≠ j →
    claimStep config d (.advance i answer) = some d' → d.IsEnding i planId →
    d'.world.db.statusOf planId = d.world.db.statusOf planId

/-- A pass other than the `i`-th holds the plan. -/
def HeldBeside (d : MintRun ClaimState) (i : ℕ) (planId : String) : Prop :=
  ∃ j < d.passes.length, j ≠ i ∧ d.Holds j planId

instance (d : MintRun ClaimState) (i : ℕ) (planId : String) : Decidable (d.HeldBeside i planId) :=
  (inferInstance : Decidable (∃ j < d.passes.length, j ≠ i ∧ d.Holds j planId))

/-- The lease outlasts the passes: as long as a pass under way holds the plan, no other one asks
for a claim at a reading of the clock that is later than the lease after the row was written. -/
def LeaseOutlasts (planId : String) : MintRun ClaimState → MintStep → Prop :=
  OnCommand fun d i c _ =>
    ∀ e ∈ c.claimAt, d.HeldBeside i planId → d.world.db.Leased planId e.1 e.2

instance (planId : String) (d : MintRun ClaimState) : DecidablePred (d.LeaseOutlasts planId) :=
  (inferInstance : DecidablePred (OnCommand (fun d i c _ =>
    ∀ e ∈ c.claimAt, d.HeldBeside i planId → d.world.db.Leased planId e.1 e.2) d))

/-! ### The invariant -/

/-- What claims keep: every pass follows its plan, at most one holds the plan, one that is held
has been claimed and not released since, and one that a pass has ended has ended. -/
structure Claims (planId : String) (d : MintRun ClaimState) : Prop where
  safe : ∀ t ∈ d.passes, t.Safe claimLocal fun _ _ => True
  alone : ∀ i j, d.Holds i planId → d.Holds j planId → i = j
  held : ∀ i, d.Holds i planId → d.world.db.Taken planId
  ended : ∀ t ∈ d.passes, t.here.ended = some planId → d.world.db.Ended planId

section

variable {planId : String} {config : Config} {d d' : MintRun ClaimState} {c : Cmd}
  {x : Except Thrown c.Resp} {t : ClaimState} {i : ℕ}

/-- How a pass comes to hold the plan: it has claimed it, or has held it before and not
released it. -/
theorem held_of_next (h : (claimLocal.next t c x).held = some planId) :
    c.Claims planId x ∨
      (t.held = some planId ∧ ∀ a, x = .ok a → ¬ ∃ id now, c.Issues (.releaseMintPlanToArmed id now)) := by
  have hkeep : t.held = some planId → (¬ ∃ id now, c.Issues (.releaseMintPlanToArmed id now)) →
      c.Claims planId x ∨
        (t.held = some planId ∧
          ∀ a, x = .ok a → ¬ ∃ id now, c.Issues (.releaseMintPlanToArmed id now)) :=
    fun hheld hnot => Or.inr ⟨hheld, fun _ _ => hnot⟩
  cases c with
  | claimArmedMintPlan =>
    rcases x with e | _ | plan
    · exact hkeep h nofun
    · exact hkeep h nofun
    · exact Or.inl (Option.some.inj h)
  | releaseMintPlanToArmed id now =>
    rcases x with e | a
    · exact Or.inr ⟨h, nofun⟩
    · exact absurd h nofun
  | markMintPlanExecuted =>
    rcases x with e | a
    · exact hkeep h nofun
    · exact absurd h nofun
  | failMintPlanExecution =>
    rcases x with e | a
    · exact hkeep h nofun
    · exact absurd h nofun
  | now => cases x <;> exact hkeep h nofun
  | selectWallet => rcases x with e | _ | a <;> exact hkeep h nofun
  | selectSigner => rcases x with e | _ | a <;> exact hkeep h nofun
  | selectLatestBroadcast => rcases x with e | a <;> exact hkeep h nofun
  | getTransactionReceipt url txHash =>
    rcases x with e | _ | status
    · exact hkeep h nofun
    · exact hkeep h nofun
    · refine hkeep ?_ nofun
      simp only [claimLocal] at h
      split at h
      · exact h
      · exact h
  | recordExecutionAttempt id attempt =>
    rcases x with e | a
    · exact hkeep h nofun
    · refine hkeep ?_ nofun
      simp only [claimLocal] at h
      split at h
      · exact h
      · exact h
  | _ => exact hkeep h nofun

/-- How a pass comes to have ended the plan. -/
theorem ended_of_next (h : (claimLocal.next t c x).ended = some planId) :
    t.ended = some planId ∨
      ((∃ a, x = .ok a) ∧ (c = .markMintPlanExecuted planId ∨ c = .failMintPlanExecution planId)) := by
  cases c with
  | claimArmedMintPlan =>
    rcases x with e | _ | plan
    · exact Or.inl h
    · exact Or.inl h
    · exact absurd h nofun
  | markMintPlanExecuted =>
    rcases x with e | a
    · exact Or.inl h
    · exact Or.inr ⟨⟨a, rfl⟩, Or.inl (congrArg _ (Option.some.inj h))⟩
  | failMintPlanExecution =>
    rcases x with e | a
    · exact Or.inl h
    · exact Or.inr ⟨⟨a, rfl⟩, Or.inr (congrArg _ (Option.some.inj h))⟩
  | releaseMintPlanToArmed => rcases x with e | a <;> exact Or.inl h
  | now => cases x <;> exact Or.inl h
  | selectWallet => rcases x with e | _ | a <;> exact Or.inl h
  | selectSigner => rcases x with e | _ | a <;> exact Or.inl h
  | selectLatestBroadcast => rcases x with e | a <;> exact Or.inl h
  | getTransactionReceipt url txHash =>
    rcases x with e | _ | status
    · exact Or.inl h
    · exact Or.inl h
    · simp only [claimLocal] at h
      split at h
      · exact Or.inl h
      · exact Or.inl h
  | recordExecutionAttempt id attempt =>
    rcases x with e | a
    · exact Or.inl h
    · simp only [claimLocal] at h
      split at h
      · exact Or.inl h
      · exact Or.inl h
  | _ => exact Or.inl h

/-! ### The passes under way -/

theorem holds_of_call {k : Except Thrown (signature.Resp c) → Worker Unit}
    (hi : d.passes[i]? = some ⟨.call c k, t⟩) : d.Holds i planId ↔ t.held = some planId := by
  constructor
  · rintro ⟨u, hu, _, hheld⟩
    rw [hi] at hu
    obtain rfl := Option.mem_some_iff.mp hu
    exact hheld
  · exact fun hheld => ⟨_, hi, id, hheld⟩

theorem holds_set_self {w : MintWorld} {u : Task signature Thrown Unit ClaimState}
    (h : (⟨w, d.passes.set i u⟩ : MintRun ClaimState).Holds i planId) :
    ¬ u.Done ∧ u.here.held = some planId := by
  obtain ⟨v, hv, hlive, hheld⟩ := h
  rw [List.getElem?_set, if_pos rfl] at hv
  split at hv
  · obtain rfl := Option.mem_some_iff.mp hv
    exact ⟨hlive, hheld⟩
  · exact absurd hv (Option.not_mem_none _)

theorem holds_set_ne {w : MintWorld} {u : Task signature Thrown Unit ClaimState} {j : ℕ}
    (hj : i ≠ j) : (⟨w, d.passes.set i u⟩ : MintRun ClaimState).Holds j planId ↔ d.Holds j planId := by
  simp only [Holds, List.getElem?_set, if_neg hj]

/-- A pass that starts holds nothing. -/
theorem holds_append {w : MintWorld} {p : Worker Unit} {j : ℕ}
    (h : (⟨w, d.passes ++ [⟨p, .idle⟩]⟩ : MintRun ClaimState).Holds j planId) :
    d.Holds j planId := by
  obtain ⟨u, hu, hlive, hheld⟩ := h
  rcases getElem?_append_cases hu with hu | rfl
  · exact ⟨u, hu, hlive, hheld⟩
  · exact absurd hheld nofun

theorem Holds.lt (h : d.Holds i planId) : i < d.passes.length := by
  obtain ⟨u, hu, _⟩ := h
  exact (List.getElem?_eq_some_iff.mp hu).1

/-! ### Steps -/

/-- What a command leaves of a plan that has been claimed, or has ended. -/
theorem taken_next {w : MintWorld} (hx : mintWorld.allowed w c x) (h : w.db.Taken planId)
    (hc : ∀ a, x = .ok a → ¬ ∃ now, c.Issues (.releaseMintPlanToArmed planId now)) :
    (mintWorld.next w c x).db.Taken planId := by
  rcases next_cases hx with ⟨hdb, _⟩ | ⟨a, s, hok, hissues, hdb, _⟩
  · exact hdb ▸ h
  · rw [hdb]
    refine h.exec ?_
    rintro now rfl
    exact hc a hok ⟨now, hissues⟩

theorem ended_next {w : MintWorld} (hx : mintWorld.allowed w c x) (h : w.db.Ended planId) :
    (mintWorld.next w c x).db.Ended planId ∧
      (mintWorld.next w c x).db.statusOf planId = w.db.statusOf planId := by
  rcases next_cases hx with ⟨hdb, _⟩ | ⟨a, s, _, _, hdb, _⟩
  · exact ⟨hdb ▸ h, by rw [hdb]⟩
  · exact hdb ▸ h.exec

/-- A pass that issues a release or an end of the plan holds it, or the plan has ended. -/
theorem Claims.holds_or_ended (h : d.Claims planId)
    {k : Except Thrown (signature.Resp c) → Worker Unit} (hi : d.passes[i]? = some ⟨.call c k, t⟩)
    (hc : c.EndsClaim planId) : d.Holds i planId ∨ d.world.db.Ended planId := by
  have hguard : claimLocal.guard t c := (h.safe _ (List.mem_of_getElem? hi)).1
  have hend : t.MayEnd planId := by
    cases c with
    | releaseMintPlanToArmed id =>
      obtain rfl : id = planId := hc
      exact hguard
    | markMintPlanExecuted id =>
      obtain rfl : id = planId := hc
      exact hguard
    | failMintPlanExecution id =>
      obtain rfl : id = planId := hc
      exact hguard
    | _ => exact absurd hc id
  rcases hend with hheld | hended
  · exact Or.inl ((holds_of_call hi).mpr hheld)
  · exact Or.inr (h.ended _ (List.mem_of_getElem? hi) hended)

/-- A claimed row is executing. -/
theorem taken_of_claims {w : MintWorld} (hx : mintWorld.allowed w c x) (hc : c.Claims planId x) :
    (mintWorld.next w c x).db.Taken planId := by
  cases c with
  | claimArmedMintPlan now leaseMs leadMs =>
    rcases x with e | _ | plan
    · exact absurd hc id
    · exact absurd hc id
    · obtain ⟨r, hr, _, rfl⟩ := hx
      obtain rfl : r.id = planId := hc
      show ∃ r' ∈ MintPlans.claimRow w.db.plans r.id w.nowMs, _
      rw [MintPlans.claimRow]
      exact ⟨_, Table.mem_update_of_pos hr rfl, rfl, Or.inl rfl⟩
  | _ => exact absurd hc id

/-- **Step, commands.** -/
theorem claims_advance (h : d.Claims planId) {k : Except Thrown (signature.Resp c) → Worker Unit}
    (hi : d.passes[i]? = some ⟨.call c k, t⟩) (hx : mintWorld.allowed d.world c x)
    (hl : ∀ e ∈ c.claimAt, d.HeldBeside i planId → d.world.db.Leased planId e.1 e.2) :
    (⟨mintWorld.next d.world c x, d.passes.set i ⟨k x, claimLocal.next t c x⟩⟩ :
      MintRun ClaimState).Claims planId := by
  obtain ⟨hguard, hsafe⟩ := safe_advance hi h.safe (x := x) trivial
  -- the plan stays claimed while a pass holds it: its release is the holder's, and comes last
  have hkept : ∀ j, d.Holds j planId →
      (j = i → ∀ a, x = .ok a → ¬ ∃ id now, c.Issues (.releaseMintPlanToArmed id now)) →
      (mintWorld.next d.world c x).db.Taken planId := by
    intro j hj hself
    by_cases hreleases : ∃ now, c.Issues (.releaseMintPlanToArmed planId now)
    · have hends : c.EndsClaim planId := by
        obtain ⟨now, hissues⟩ := hreleases
        cases hissues
        exact rfl
      rcases h.holds_or_ended hi hends with hholds | hended
      · refine taken_next hx (h.held j hj) fun a ha => ?_
        rintro ⟨now, hissues⟩
        exact hself (h.alone j i hj hholds) a ha ⟨planId, now, hissues⟩
      · exact (ended_next hx hended).1.taken
    · exact taken_next hx (h.held j hj) fun _ _ => hreleases
  constructor
  · exact hsafe
  · -- a new claim finds no other holder
    have hnew : ∀ j, (⟨mintWorld.next d.world c x, d.passes.set i ⟨k x, claimLocal.next t c x⟩⟩ :
        MintRun ClaimState).Holds i planId → i ≠ j → ¬ d.Holds j planId := by
      intro j hself hne hj
      rcases held_of_next (holds_set_self hself).2 with hclaims | ⟨hheld, _⟩
      · exact not_claims_of_leased hx (h.held j hj)
          (fun e he => hl e he ⟨j, hj.lt, Ne.symm hne, hj⟩) hclaims
      · exact hne (h.alone i j ((holds_of_call hi).mpr hheld) hj)
    intro j₁ j₂ h₁ h₂
    by_contra hne
    by_cases hj₁ : i = j₁
    · subst hj₁
      exact hnew j₂ h₁ hne ((holds_set_ne hne).mp h₂)
    · by_cases hj₂ : i = j₂
      · subst hj₂
        exact hnew j₁ h₂ hj₁ ((holds_set_ne hj₁).mp h₁)
      · exact hne (h.alone j₁ j₂ ((holds_set_ne hj₁).mp h₁) ((holds_set_ne hj₂).mp h₂))
  · intro j hj
    by_cases hij : i = j
    · subst hij
      rcases held_of_next (holds_set_self hj).2 with hclaims | ⟨hheld, hnot⟩
      · exact taken_of_claims hx hclaims
      · exact hkept i ((holds_of_call hi).mpr hheld) fun _ => hnot
    · exact hkept j ((holds_set_ne hij).mp hj) fun he => absurd he.symm hij
  · intro u hu hended
    show (mintWorld.next d.world c x).db.Ended planId
    rcases List.mem_or_eq_of_mem_set hu with hu | rfl
    · exact (ended_next hx (h.ended u hu hended)).1
    · rcases ended_of_next hended with hended | ⟨⟨a, rfl⟩, hc⟩
      · exact (ended_next hx (h.ended _ (List.mem_of_getElem? hi) hended)).1
      · have hends : c.EndsClaim planId := by
          rcases hc with rfl | rfl
          · exact rfl
          · exact rfl
        rcases h.holds_or_ended hi hends with hholds | hended
        · have htaken := h.held i hholds
          rcases hc with rfl | rfl
          · exact taken_endExecution htaken (by decide)
          · exact taken_endExecution htaken (by decide)
        · exact (ended_next hx hended).1

/-- **Step.** -/
theorem claims_step {l : MintStep} (h : d.Claims planId) (hl : d.LeaseOutlasts planId l)
    (hs : claimStep config d l = some d') : d'.Claims planId := by
  -- a pass that starts holds nothing
  have hstart : ∀ p : Worker Unit, p.wp claimLocal (fun _ _ => True) .idle →
      (⟨d.world, d.passes ++ [⟨p, .idle⟩]⟩ : MintRun ClaimState).Claims planId := by
    intro p hp
    refine ⟨fun u hu => ?_, fun i j hi hj => h.alone i j (holds_append hi) (holds_append hj),
      fun i hi => h.held i (holds_append hi), fun u hu hended => ?_⟩
    · exact of_mem_enter hu h.safe hp
    · rcases List.mem_append.mp hu with hu | hu
      · exact h.ended u hu hended
      · obtain rfl := List.mem_singleton.mp hu
        exact absurd hended nofun
  cases l with
  | fire =>
    obtain rfl := Option.some.inj hs
    exact hstart _ firePass_claim
  | presign =>
    obtain rfl := Option.some.inj hs
    exact hstart _ presignPass_claim
  | recordSignature =>
    obtain rfl := Option.some.inj hs
    exact ⟨h.safe, h.alone, h.held, h.ended⟩
  | clock =>
    obtain rfl := Option.some.inj hs
    exact ⟨h.safe, h.alone, h.held, h.ended⟩
  | crash i =>
    obtain ⟨t, ht, rfl⟩ := Option.map_eq_some_iff.mp hs
    -- a crashed pass holds nothing any more
    have hother : ∀ j, (⟨d.world, d.passes.set i ⟨.ret (), t.here⟩⟩ : MintRun ClaimState).Holds j
        planId → d.Holds j planId := by
      intro j hj
      by_cases hij : i = j
      · subst hij
        exact absurd trivial (holds_set_self hj).1
      · exact (holds_set_ne hij).mp hj
    refine ⟨fun u hu => ?_, fun i j hi hj => h.alone i j (hother i hi) (hother j hj),
      fun i hi => h.held i (hother i hi), fun u hu hended => ?_⟩
    · exact of_mem_replace hu h.safe trivial
    · rcases List.mem_or_eq_of_mem_set hu with hu | rfl
      · exact h.ended u hu hended
      · exact h.ended t (List.mem_of_getElem? ht) hended
  | statement s =>
    rw [claimStep, step] at hs
    split at hs
    · next hout =>
      obtain rfl := Option.some.inj hs
      refine ⟨h.safe, h.alone, fun i hi => (h.held i hi).exec ?_, fun u hu hended =>
        (h.ended u hu hended).exec.1⟩
      rintro now rfl
      exact absurd hout nofun
    · exact absurd hs nofun
  | advance i answer =>
    obtain ⟨c, k, here, hi, hx, rfl⟩ := step_advance_cases hs
    exact claims_advance h hi hx (hl.of_advance hi)

theorem claims_start : (start : MintRun ClaimState).Claims planId where
  safe _ ht := absurd ht List.not_mem_nil
  alone i _ hi := absurd hi.lt (Nat.not_lt_zero i)
  held i hi := absurd hi.lt (Nat.not_lt_zero i)
  ended _ ht := absurd ht List.not_mem_nil

/-- **Exactly-once dispatch, while leases outlast the passes.**  In every run in which each pass is
done with the plan before a claim is asked for past the lease, at most one pass holds it at every
moment, and only that pass changes its status by releasing or ending it. -/
theorem dispatch_of_reach (h : Reach (claimStep config) (LeaseOutlasts planId) start d) :
    d.Dispatch config planId := by
  have hclaims : d.Claims planId := by
    exact h.invariant claims_start fun _ _ _ _ hd hl hs => claims_step hd hl hs
  have howner : ∀ i answer d', claimStep config d (.advance i answer) = some d' →
      d.IsEnding i planId → d'.world.db.statusOf planId ≠ d.world.db.statusOf planId →
      d.Holds i planId := by
    rintro i answer d' hs ⟨c, k, here, hi, hc⟩ hne
    obtain ⟨c', k', here', hi', hx, rfl⟩ := step_advance_cases hs
    rw [hi] at hi'
    cases hi'
    rcases hclaims.holds_or_ended hi hc with hholds | hended
    · exact hholds
    · exact absurd (ended_next hx hended).2 hne
  refine ⟨hclaims.alone, howner, fun i j answer d' hj hij hs hc => ?_⟩
  by_contra hne
  exact hij (hclaims.alone i j (howner i answer d' hs hc hne) hj)

end

end MintRun

/-! ### Two passes over one plan -/

namespace Sample

/-- The database is gone when the pass asks for the endpoints. -/
def unlisted (nowMs : ℤ) : (c : Cmd) → Except Thrown c.Resp
  | .listRpcEndpoints _ => .error (.error "connection terminated")
  | c => answerAt nowMs c

/-- The plan is armed; a pass claims it at its instant. -/
def claiming : List MintStep :=
  arming ++ [.clock 60000, .fire] ++ List.replicate 3 (.advance 0 (answerAt 60000))

/-- The `i`-th pass fails, and rescues itself up to the release. -/
def failing (i : ℕ) (nowMs : ℤ) : List MintStep := List.replicate 3 (.advance i (unlisted nowMs))

/-- More than thirty seconds later another pass claims the plan. -/
def reclaiming : List MintStep :=
  [.clock 90001, .fire] ++ List.replicate 3 (.advance 1 (answerAt 90001))

end Sample

namespace MintRun

/-- The pass releases the plan before the next one claims it. -/
theorem dispatch_of_reach_released :
    ∃ d, Reach (claimStep Sample.config) (LeaseOutlasts "p") start d ∧ d.Holds 1 "p" ∧
      d.Dispatch Sample.config "p" := by
  obtain ⟨d, hr, hp⟩ := exists_reach_of_run (claimStep Sample.config) (LeaseOutlasts "p") start
    (Sample.claiming ++ Sample.failing 0 60000 ++ [.advance 0 (Sample.unlisted 60000)] ++
      Sample.reclaiming)
    (fun d => decide (d.Holds 1 "p")) (by decide) (by decide)
  exact ⟨d, hr, of_decide_eq_true hp, dispatch_of_reach hr⟩

instance (d : MintRun ClaimState) (i : ℕ) (planId : String) : Decidable (d.IsEnding i planId) :=
  match h : d.passes[i]? with
  | some ⟨.call c k, here⟩ =>
    decidable_of_iff (c.EndsClaim planId) (by
      constructor
      · exact fun hc => ⟨c, k, here, h, hc⟩
      · rintro ⟨c', k', here', h', hc⟩
        rw [h] at h'
        cases h'
        exact hc)
  | some ⟨.ret _, _⟩ | some ⟨.fail _, _⟩ | none => isFalse (by
      rintro ⟨c, k, here, h', _⟩
      rw [h] at h'
      cases h')

/-- **A late release.**  The second pass has claimed the plan; the first one, whose lease has
expired, puts it back to `armed`. -/
theorem late_release :
    ¬ ∀ config d, Reachable (claimStep config) start d → d.Dispatch config "p" := by
  intro hclaim
  obtain ⟨d, hr, hp⟩ := exists_reachable_of_run (claimStep Sample.config) start
    (Sample.claiming ++ Sample.reclaiming ++ Sample.failing 0 90001)
    (fun d => decide (d.Holds 1 "p" ∧ d.IsEnding 0 "p" ∧ d.world.db.statusOf "p" = some .executing) &&
      (claimStep Sample.config d (.advance 0 (Sample.unlisted 90001))).any
        fun d' : MintRun ClaimState => decide (d'.world.db.statusOf "p" = some .armed)) (by decide)
  rw [Bool.and_eq_true, decide_eq_true_iff, Option.any_eq_true] at hp
  obtain ⟨⟨hholds, hends, hbefore⟩, d', hs, hafter⟩ := hp
  have hsame := (hclaim _ d hr).undisturbed 0 1 _ d' hholds (by decide) hs hends
  rw [hbefore, of_decide_eq_true hafter] at hsame
  exact absurd hsame (by decide)

end MintRun

end MintWorker
