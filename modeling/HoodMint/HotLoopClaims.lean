/-
Which plans the passes of one tick of the hot loop claim
(`apps/worker/src/workers/execution.ts`: `runMintHotLoop`,
`packages/db/src/repositories/execution.ts`: `claimArmedMintPlan`).

The tick counts the plans that fire and starts a pass for each; a pass claims the first plan in
the order of the claim, whether it fires or not.

* `MintPlans.Takes` — a plan the claim may take: nothing due comes before it;
* `Passes` — the claims of passes started together;
* `servesFiring_iff` — the passes claim the firing plans exactly when none of these has been
  superseded or disarmed under the tick, and every other due plan comes later in that order.
-/
import HoodMint.HotLoop

namespace MintWorker

open Relational

/-! ### The claim, in any order of ties -/

/-- What the claim orders by. -/
def MintPlan.claimKey (r : MintPlan) (stages : DropStages) : ℤ ×ₗ ℤ :=
  toLex ((r.claimTarget stages).getD 0, r.armedUntil.getD 0)

/-- The claim may take the row: it is due, and no due row comes before it. -/
def MintPlans.Takes (plans : MintPlans) (stages : DropStages) (now leaseMs leadMs : ℤ)
    (r : MintPlan) : Prop :=
  r ∈ plans ∧ r.Due stages now leaseMs leadMs ∧
    ∀ q ∈ plans, q.Due stages now leaseMs leadMs → ¬ q.claimKey stages < r.claimKey stages

namespace MintPlans

variable {plans : MintPlans} {stages : DropStages} {now leaseMs leadMs dbNow : ℤ} {r q : MintPlan}

/-- What `dueForClaim` takes with nothing locked is such a row. -/
theorem takes_of_dueForClaim (h : dueForClaim plans stages now leaseMs leadMs [] = some r) :
    plans.Takes stages now leaseMs leadMs r := by
  obtain ⟨hr, hdue⟩ := due_of_dueForClaim h
  refine ⟨hr, hdue, fun q hq hqdue => ?_⟩
  have hmem : q ∈ plans.rows.filter fun r => r.Due stages now leaseMs leadMs ∧ r.id ∉ [] :=
    List.mem_filter.mpr ⟨hq, decide_eq_true ⟨hqdue, List.not_mem_nil⟩⟩
  exact List.not_lt_of_mem_argmin hmem (Option.mem_def.mpr h)

/-- When something is due, something may be taken. -/
theorem exists_takes (hq : q ∈ plans) (hdue : q.Due stages now leaseMs leadMs) :
    ∃ r, plans.Takes stages now leaseMs leadMs r := by
  cases h : dueForClaim plans stages now leaseMs leadMs [] with
  | some r => exact ⟨r, takes_of_dueForClaim h⟩
  | none =>
    have hnone := List.filter_eq_nil_iff.mp (List.argmin_eq_none.mp h) q hq
    exact absurd (decide_eq_true ⟨hdue, List.not_mem_nil⟩) hnone

/-- A pass has nothing to take from what it has just expired. -/
theorem mem_of_expired {t : ℤ} (hq : q ∈ expireStaleMintPlans plans now)
    (hdue : q.Due stages t leaseMs leadMs) : q ∈ plans := by
  rcases Table.update_cases hq with ⟨q₀, _, _, rfl⟩ | ⟨hq, _⟩
  · have hstatus := hdue.2.2.2
    simp at hstatus
  · exact hq

/-- After a pass has expired what is stale and claimed a row, the due rows are the other ones
there were, for as long as the claim's lease lasts. -/
theorem mem_of_claimed {t : ℤ} (hlease : t - leaseMs ≤ dbNow)
    (hq : q ∈ claimRow (expireStaleMintPlans plans now) r.id dbNow)
    (hdue : q.Due stages t leaseMs leadMs) : q ∈ plans ∧ q.id ≠ r.id := by
  rcases Table.update_cases hq with ⟨q₀, _, _, rfl⟩ | ⟨hq, hne⟩
  · have hstatus := hdue.2.2.2
    simp only [reduceCtorEq, true_and, false_or] at hstatus
    omega
  · exact ⟨mem_of_expired hq hdue, hne⟩

/-- Expiring leaves a row whose window is open as it is. -/
theorem mem_expired (hq : q ∈ plans) (hwindow : ∃ u ∈ q.armedUntil, now < u) :
    q ∈ expireStaleMintPlans plans now := by
  refine Table.mem_update_of_neg hq ?_
  rintro ⟨_, u', hu', hle⟩
  obtain ⟨u, hu, hlt⟩ := hwindow
  rw [Option.mem_def.mp hu] at hu'
  obtain rfl : u = u' := Option.some_inj.mp hu'
  omega

/-- So does claiming another row. -/
theorem mem_claimed (hq : q ∈ plans) (hwindow : ∃ u ∈ q.armedUntil, now < u)
    (hne : q.id ≠ r.id) : q ∈ claimRow (expireStaleMintPlans plans now) r.id dbNow :=
  Table.mem_update_of_neg (mem_expired hq hwindow) hne

end MintPlans

/-! ### Passes -/

/-- The claims of passes that read the clock at the given instants, with the rows they take.
Every pass expires what is stale first; no claim is stamped a lease before a later pass. -/
inductive Passes (stages : DropStages) (leaseMs leadMs : ℤ) :
    MintPlans → List ℤ → List MintPlan → Prop
  | nil {plans : MintPlans} : Passes stages leaseMs leadMs plans [] []
  | none {plans : MintPlans} {t : ℤ} {ts : List ℤ} {rs : List MintPlan} :
      (∀ q ∈ plans.expireStaleMintPlans t, ¬ q.Due stages t leaseMs leadMs) →
      Passes stages leaseMs leadMs (plans.expireStaleMintPlans t) ts rs →
      Passes stages leaseMs leadMs plans (t :: ts) rs
  | claim {plans : MintPlans} {t dbNow : ℤ} {ts : List ℤ} {r : MintPlan} {rs : List MintPlan} :
      (plans.expireStaleMintPlans t).Takes stages t leaseMs leadMs r →
      (∀ t' ∈ ts, t' - leaseMs ≤ dbNow) →
      Passes stages leaseMs leadMs ((plans.expireStaleMintPlans t).claimRow r.id dbNow) ts rs →
      Passes stages leaseMs leadMs plans (t :: ts) (r :: rs)

section

variable {plans : MintPlans} {stages : DropStages} {leaseMs leadMs : ℤ} {ts : List ℤ}
  {rs firing : List MintPlan}

/-- What a pass takes was there, and due. -/
theorem Passes.due_of_mem (h : Passes stages leaseMs leadMs plans ts rs) :
    ∀ r ∈ rs, r ∈ plans ∧ ∃ t ∈ ts, r.Due stages t leaseMs leadMs := by
  induction h with
  | nil => exact fun r hr => absurd hr List.not_mem_nil
  | none _ _ ih =>
    intro r hr
    obtain ⟨hmem, t, ht, hdue⟩ := ih r hr
    exact ⟨MintPlans.mem_of_expired hmem hdue, t, List.mem_cons_of_mem _ ht, hdue⟩
  | claim htakes hlease _ ih =>
    intro r hr
    rcases List.mem_cons.mp hr with rfl | hr
    · exact ⟨MintPlans.mem_of_expired htakes.1 htakes.2.1, _, List.mem_cons_self, htakes.2.1⟩
    · obtain ⟨hmem, t, ht, hdue⟩ := ih r hr
      exact ⟨(MintPlans.mem_of_claimed (hlease t ht) hmem hdue).1, t,
        List.mem_cons_of_mem _ ht, hdue⟩

/-- **Serving the front.**  When as many passes start as there are plans in `firing`, these
stay due for all of them, and everything else that is due comes later, then the passes take
the plans in `firing`. -/
theorem Passes.perm_firing (h : Passes stages leaseMs leadMs plans ts rs) (hnodup : firing.Nodup)
    (hlen : ts.length = firing.length) (hmem : ∀ p ∈ firing, p ∈ plans)
    (hdue : ∀ p ∈ firing, ∀ t ∈ ts, p.Due stages t leaseMs leadMs)
    (hlater : ∀ t ∈ ts, ∀ q ∈ plans, q.Due stages t leaseMs leadMs → q ∉ firing →
      ∀ p ∈ firing, p.claimKey stages < q.claimKey stages) :
    rs.Perm firing := by
  induction h generalizing firing with
  | nil =>
    obtain rfl := List.length_eq_zero_iff.mp hlen.symm
    exact List.Perm.refl _
  | none hnone _ _ =>
    obtain ⟨p, rest, rfl⟩ := List.exists_cons_of_length_eq_add_one hlen.symm
    have hp := hdue p List.mem_cons_self _ List.mem_cons_self
    have hin := MintPlans.mem_expired (hmem p List.mem_cons_self) hp.1
    exact absurd hp (hnone p hin)
  | @claim plans t dbNow ts r rs htakes hlease _ ih =>
    obtain ⟨p, rest, hcons⟩ := List.exists_cons_of_length_eq_add_one hlen.symm
    have hin : r ∈ plans := MintPlans.mem_of_expired htakes.1 htakes.2.1
    have hr : r ∈ firing := by
      by_contra hout
      have hp : p ∈ firing := hcons ▸ List.mem_cons_self
      have hpdue := hdue p hp t List.mem_cons_self
      have hlt := hlater t List.mem_cons_self r hin htakes.2.1 hout p hp
      exact htakes.2.2 p (MintPlans.mem_expired (hmem p hp) hpdue.1) hpdue hlt
    -- the remaining passes serve the others
    obtain ⟨before, after, rfl⟩ := List.append_of_mem hr
    have hmid : (before ++ r :: after).Perm (r :: (before ++ after)) := List.perm_middle
    have hrest : (before ++ after).Nodup := (List.nodup_cons.mp (hmid.nodup hnodup)).2
    have hnot : r ∉ before ++ after := (List.nodup_cons.mp (hmid.nodup hnodup)).1
    have hsub : ∀ p ∈ before ++ after, p ∈ before ++ r :: after := fun p hp =>
      hmid.mem_iff.mpr (List.mem_cons_of_mem _ hp)
    have hne : ∀ p ∈ before ++ after, p.id ≠ r.id := by
      intro p hp hid
      obtain rfl := Table.eq_of_key (hmem p (hsub p hp)) hin hid
      exact hnot hp
    refine ((ih hrest ?_ ?_ ?_ ?_).cons r).trans hmid.symm
    · have hlen' := hmid.length_eq
      simp only [List.length_cons] at hlen hlen'
      omega
    · intro p hp
      exact MintPlans.mem_claimed (hmem p (hsub p hp)) (hdue p (hsub p hp) t List.mem_cons_self).1
        (hne p hp)
    · intro p hp t' ht'
      exact hdue p (hsub p hp) t' (List.mem_cons_of_mem _ ht')
    · intro t' ht' q hq hqdue hout p hp
      obtain ⟨hq, hqne⟩ := MintPlans.mem_of_claimed (hlease t' ht') hq hqdue
      refine hlater t' (List.mem_cons_of_mem _ ht') q hq hqdue ?_ p (hsub p hp)
      intro hmem'
      rcases List.mem_cons.mp (hmid.mem_iff.mp hmem') with rfl | hmem'
      · exact hqne rfl
      · exact hout hmem'

/-- Some passes can always run. -/
theorem exists_passes {t : ℤ} (plans : MintPlans) (hlease : 0 ≤ leaseMs) (k : ℕ) :
    ∃ rs, Passes stages leaseMs leadMs plans (List.replicate k t) rs := by
  induction k generalizing plans with
  | zero => exact ⟨[], .nil⟩
  | succ k ih =>
    by_cases hany : ∃ q ∈ plans.expireStaleMintPlans t, q.Due stages t leaseMs leadMs
    · obtain ⟨q, hq, hdue⟩ := hany
      obtain ⟨r, hr⟩ := MintPlans.exists_takes hq hdue
      obtain ⟨rs, hrs⟩ := ih ((plans.expireStaleMintPlans t).claimRow r.id t)
      refine ⟨r :: rs, .claim hr (fun t' ht' => ?_) hrs⟩
      obtain rfl := List.eq_of_mem_replicate ht'
      omega
    · obtain ⟨rs, hrs⟩ := ih (plans.expireStaleMintPlans t)
      exact ⟨rs, .none (fun q hq hdue => hany ⟨q, hq, hdue⟩) hrs⟩

/-- Passes at one instant may put off every row behind `q`: they take `q`, or only rows that
come before it. -/
theorem exists_passes_to {t : ℤ} {q : MintPlan} (hlease : 0 ≤ leaseMs) (hq : q ∈ plans)
    (hdue : q.Due stages t leaseMs leadMs) (k : ℕ) :
    ∃ rs, Passes stages leaseMs leadMs plans (List.replicate k t) rs ∧
      (q ∈ rs ∨ ∀ p ∈ rs, p.claimKey stages < q.claimKey stages) := by
  induction k generalizing plans with
  | zero => exact ⟨[], .nil, Or.inr fun p hp => absurd hp List.not_mem_nil⟩
  | succ k ih =>
    have hstamp : ∀ t' ∈ List.replicate k t, t' - leaseMs ≤ t := by
      intro t' ht'
      obtain rfl := List.eq_of_mem_replicate ht'
      omega
    obtain ⟨r, hr⟩ := MintPlans.exists_takes (MintPlans.mem_expired hq hdue.1) hdue
    by_cases hbefore : r.claimKey stages < q.claimKey stages
    · have hne : q.id ≠ r.id := by
        intro hid
        have hin := MintPlans.mem_of_expired hr.1 hr.2.1
        obtain rfl := Table.eq_of_key hq hin hid
        exact lt_irrefl _ hbefore
      obtain ⟨rs, hrs, hcases⟩ := ih (MintPlans.mem_claimed hq hdue.1 hne)
      refine ⟨r :: rs, .claim hr hstamp hrs, ?_⟩
      rcases hcases with hin | hall
      · exact Or.inl (List.mem_cons_of_mem _ hin)
      · refine Or.inr fun p hp => ?_
        rcases List.mem_cons.mp hp with rfl | hp
        · exact hbefore
        · exact hall p hp
    · -- nothing due comes before `q` either, so this pass may take it
      have htakes : (plans.expireStaleMintPlans t).Takes stages t leaseMs leadMs q := by
        refine ⟨MintPlans.mem_expired hq hdue.1, hdue, fun s hs hsdue hlt => ?_⟩
        have hrs := (@not_lt _ claimOrder _ _).mp (hr.2.2 s hs hsdue)
        have hqr := (@not_lt _ claimOrder _ _).mp hbefore
        exact absurd hlt ((@not_lt _ claimOrder _ _).mpr (claimOrder.le_trans _ _ _ hqr hrs))
      obtain ⟨rs, hrs⟩ := exists_passes (plans.expireStaleMintPlans t |>.claimRow q.id t) hlease k
      exact ⟨q :: rs, .claim htakes hstamp hrs, Or.inl List.mem_cons_self⟩

end

/-! ### The tick -/

/-- `MAX_PARALLEL_FIRES`. -/
def maxParallelFires : ℕ := 8

/-- `slots`: the passes a tick starts. -/
def hotLoopSlots (dueCount inFlightPasses : ℕ) : ℕ :=
  min dueCount (maxParallelFires - inFlightPasses)

namespace HotLoopConfig

variable (config : HotLoopConfig)

/-- The candidates in phase `fire`. -/
def due (plans : MintPlans) (stages : DropStages) (clockOffsetMs now : ℤ) :
    List (MintPlan × ℤ) :=
  (plans.armedPlansWithStageStart stages now).filter fun c =>
    (config.phase clockOffsetMs now c.2).isFire

/-- The plans in phase `fire`. -/
def firing (plans : MintPlans) (stages : DropStages) (clockOffsetMs now : ℤ) : List MintPlan :=
  (config.due plans stages clockOffsetMs now).map Prod.fst

/-- The continue window of a plan is over. -/
def Over (stages : DropStages) (clockOffsetMs now : ℤ) (r : MintPlan) : Prop :=
  ∃ target ∈ r.fireTarget stages, config.phase clockOffsetMs now target = .expired

/-- However a tick's passes fare whose clocks read no later than `latest`: they claim the plans
in phase `fire`, and none whose window is over before all of these are claimed. -/
def ServesFiring (plans : MintPlans) (stages : DropStages) (now latest : ℤ)
    (inFlightPasses : ℕ) : Prop :=
  ∀ ts rs, ts.length = hotLoopSlots (config.due plans stages 0 now).length inFlightPasses →
    (∀ t ∈ ts, now ≤ t ∧ t ≤ latest) →
    Passes stages 30000 config.mintFireLeadMs plans ts rs →
    rs.Perm (config.firing plans stages 0 now) ∧
      ∀ before q after, rs = before ++ q :: after → config.Over stages 0 now q →
        ∀ p ∈ config.firing plans stages 0 now, p ∈ before

variable {config} {plans : MintPlans} {stages : DropStages} {clockOffsetMs now : ℤ} {r : MintPlan}

theorem mem_firing :
    r ∈ config.firing plans stages clockOffsetMs now ↔
      r ∈ plans ∧ r.Candidate stages now ∧
        ∃ target ∈ r.fireTarget stages, (config.phase clockOffsetMs now target).isFire = true := by
  simp only [firing, due, MintPlans.armedPlansWithStageStart, List.mem_map, List.mem_filter,
    List.mem_filterMap, Option.map_eq_some_iff, decide_eq_true_eq]
  constructor
  · rintro ⟨_, ⟨⟨r', ⟨hr', hcand⟩, target, htarget, rfl⟩, hfire⟩, rfl⟩
    exact ⟨hr', hcand, target, htarget, hfire⟩
  · rintro ⟨hr, hcand, target, htarget, hfire⟩
    exact ⟨(r, target), ⟨⟨r, ⟨hr, hcand⟩, target, htarget, rfl⟩, hfire⟩, rfl⟩

theorem nodup_firing : (config.firing plans stages clockOffsetMs now).Nodup := by
  have hrows : plans.rows.Nodup := List.Nodup.of_map _ plans.nodup
  refine List.Nodup.map_on ?_ (List.Nodup.filter _ (List.Nodup.filterMap ?_ (hrows.filter _)))
  · intro c hc c' hc' heq
    obtain ⟨r, _, hr⟩ := List.mem_filterMap.mp (List.mem_filter.mp hc).1
    obtain ⟨r', _, hr'⟩ := List.mem_filterMap.mp (List.mem_filter.mp hc').1
    obtain ⟨target, htarget, rfl⟩ := Option.map_eq_some_iff.mp hr
    obtain ⟨target', htarget', rfl⟩ := Option.map_eq_some_iff.mp hr'
    obtain rfl : r = r' := heq
    rw [Option.some_inj.mp (htarget.symm.trans htarget')]
  · intro r r' c hc hc'
    obtain ⟨_, _, rfl⟩ := Option.map_eq_some_iff.mp hc
    obtain ⟨_, _, heq⟩ := Option.map_eq_some_iff.mp hc'
    exact (congrArg Prod.fst heq).symm

/-- A plan in phase `fire` is due as long as it stays armed, unless it has been superseded. -/
theorem due_of_firing {t leaseMs : ℤ} (h : r ∈ config.firing plans stages 0 now)
    (hwindow : ∃ u ∈ r.armedUntil, t < u) (hstage : ¬ r.Superseded stages) (hle : now ≤ t) :
    r.Due stages t leaseMs config.mintFireLeadMs := by
  obtain ⟨_, hcand, target, htarget, hfire⟩ := mem_firing.mp h
  have hstart := (isFire_phase.mp hfire).1
  have hlead := lead_le_claimTolerance config.mintFireLeadMs
  exact ⟨hwindow, ⟨target, claimTarget_of_fireTarget htarget, by omega⟩, hstage, Or.inl hcand.1⟩

/-- What is in phase `fire` is not over. -/
theorem not_over_of_firing (h : r ∈ config.firing plans stages clockOffsetMs now) :
    ¬ config.Over stages clockOffsetMs now r := by
  rintro ⟨target', htarget', hover⟩
  obtain ⟨_, _, target, htarget, hfire⟩ := mem_firing.mp h
  obtain rfl := Option.some_inj.mp (htarget.symm.trans htarget')
  rw [hover] at hfire
  exact Bool.false_ne_true hfire

/-- **No head-of-line blocking** exactly when every plan in phase `fire` outlasts the tick and
has not been superseded, and every other plan the claim would admit comes later. -/
theorem servesFiring_iff {latest : ℤ} {inFlightPasses : ℕ} (hle : now ≤ latest)
    (hslots : (config.due plans stages 0 now).length ≤ maxParallelFires - inFlightPasses) :
    config.ServesFiring plans stages now latest inFlightPasses ↔
      (∀ p ∈ config.firing plans stages 0 now,
        (∃ u ∈ p.armedUntil, latest < u) ∧ ¬ p.Superseded stages) ∧
      ∀ t, now ≤ t → t ≤ latest → ∀ q ∈ plans, q.Due stages t 30000 config.mintFireLeadMs →
        q ∉ config.firing plans stages 0 now →
        ∀ p ∈ config.firing plans stages 0 now, p.claimKey stages < q.claimKey stages := by
  have hcount : hotLoopSlots (config.due plans stages 0 now).length inFlightPasses =
      (config.firing plans stages 0 now).length := by
    rw [hotLoopSlots, min_eq_left hslots, firing, List.length_map]
  have hconst : ∀ k t, now ≤ t → t ≤ latest → ∀ t' ∈ List.replicate k t, now ≤ t' ∧ t' ≤ latest := by
    intro k t hfrom hto t' ht'
    obtain rfl := List.eq_of_mem_replicate ht'
    exact ⟨hfrom, hto⟩
  constructor
  · intro h
    constructor
    · intro p hp
      obtain ⟨rs, hrs⟩ := exists_passes plans (by decide : (0 : ℤ) ≤ 30000)
        (config.firing plans stages 0 now).length
      obtain ⟨hperm, -⟩ := h _ rs (List.length_replicate.trans hcount.symm)
        (hconst _ latest hle le_rfl) hrs
      obtain ⟨_, t, ht, hdue⟩ := hrs.due_of_mem p (hperm.mem_iff.mpr hp)
      obtain rfl := List.eq_of_mem_replicate ht
      exact ⟨hdue.1, hdue.2.2.1⟩
    · intro t hfrom hto q hq hdue hout p hp
      obtain ⟨rs, hrs, hcases⟩ := exists_passes_to (by decide : (0 : ℤ) ≤ 30000) hq hdue
        (config.firing plans stages 0 now).length
      obtain ⟨hperm, -⟩ := h _ rs (List.length_replicate.trans hcount.symm)
        (hconst _ t hfrom hto) hrs
      rcases hcases with hin | hall
      · exact absurd (hperm.mem_iff.mp hin) hout
      · exact hall p (hperm.mem_iff.mpr hp)
  · rintro ⟨hopen, hlater⟩ ts rs hlen hts hrs
    have hperm : rs.Perm (config.firing plans stages 0 now) := by
      refine hrs.perm_firing nodup_firing (hlen.trans hcount) (fun p hp => (mem_firing.mp hp).1)
        (fun p hp t ht => ?_) fun t ht q hq hdue hout p hp =>
          hlater t (hts t ht).1 (hts t ht).2 q hq hdue hout p hp
      obtain ⟨⟨u, hu, hlt⟩, hstage⟩ := hopen p hp
      exact due_of_firing hp ⟨u, hu, lt_of_le_of_lt (hts t ht).2 hlt⟩ hstage (hts t ht).1
    refine ⟨hperm, fun before q after heq hover => ?_⟩
    have hq : q ∈ rs := heq ▸ List.mem_append_right _ List.mem_cons_self
    exact absurd hover (not_over_of_firing (hperm.mem_iff.mp hq))

/-! ### A sample -/

/-- The defaults. -/
def sample : HotLoopConfig := ⟨2000, 150, 4000⟩

/-- A plan at its target. -/
def opening : MintPlan := armedFor 0 100

/-- A plan whose target is an hour past, armed again after every failed attempt. -/
def stale : MintPlan := { armedFor (-3600000) 100 with id := "r" }

/-- Another plan at its target. -/
def beside : MintPlan := { armedFor (-20) 100 with id := "s" }

/-- A plan that the claim admits before it fires. -/
def upcoming : MintPlan := { armedFor 200 100 with id := "t" }

/-- Two plans at their targets are served, and a later one that the claim would admit is not. -/
theorem servesFiring_opening : upcoming.Due .empty 0 30000 sample.mintFireLeadMs ∧
    sample.firing ⟨[upcoming, opening, beside], by decide⟩ .empty 0 0 = [opening, beside] ∧
    sample.ServesFiring ⟨[upcoming, opening, beside], by decide⟩ .empty 0 10 0 := by
  have hfiring : sample.firing ⟨[upcoming, opening, beside], by decide⟩ .empty 0 0 =
      [opening, beside] := rfl
  refine ⟨by decide, hfiring, (servesFiring_iff (by decide) (by decide)).mpr ?_⟩
  rw [hfiring]
  refine ⟨fun p hp => ?_, fun t _ _ q hq _ hout p hp => ?_⟩
  · rcases List.mem_pair.mp hp with rfl | rfl <;>
      exact ⟨⟨101, rfl, by decide⟩, fun hpaused => Option.some_ne_none _ hpaused.1⟩
  · rcases List.mem_cons.mp hq with rfl | hfires
    · rcases List.mem_pair.mp hp with rfl | rfl <;> decide
    · exact absurd hfires hout

/-- The stale plan takes the slot of the plan at its target. -/
theorem stale_takes_slot :
    ¬ sample.ServesFiring ⟨[opening, stale], by decide⟩ .empty 0 0 0 := by
  intro h
  set plans : MintPlans := ⟨[opening, stale], by decide⟩ with hplans
  have hstale : stale ∈ plans := List.mem_cons_of_mem _ (List.mem_singleton_self _)
  have hdue : stale.Due .empty 0 30000 sample.mintFireLeadMs :=
    ⟨⟨101, rfl, by decide⟩, ⟨-3600000, rfl, by decide⟩,
      fun hpaused => Option.some_ne_none _ hpaused.1, Or.inl rfl⟩
  have hin := MintPlans.mem_expired hstale hdue.1
  have htakes : (plans.expireStaleMintPlans 0).Takes .empty 0 30000 sample.mintFireLeadMs stale := by
    refine ⟨hin, hdue, fun q hq hqdue => ?_⟩
    rcases List.mem_pair.mp (MintPlans.mem_of_expired hq hqdue) with rfl | rfl
    · decide
    · decide
  have hstamp : ∀ t ∈ ([] : List ℤ), t - 30000 ≤ (0 : ℤ) := fun t ht => absurd ht List.not_mem_nil
  have hpass : Passes .empty 30000 sample.mintFireLeadMs plans [0] [stale] :=
    .claim htakes hstamp .nil
  obtain ⟨hperm, -⟩ := h [0] [stale] (by decide) (by decide) hpass
  obtain ⟨_, _, target, htarget, hfire⟩ :=
    mem_firing.mp (hperm.mem_iff.mp (List.mem_singleton_self stale))
  obtain rfl := Option.some_inj.mp htarget
  exact absurd hfire (by decide)

end HotLoopConfig

end MintWorker
