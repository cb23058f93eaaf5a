/-
Eligibility checks over a schedule (`packages/core/src/schedule.ts`).

* `nextEligibilityDueAt`, `checkAt` — a check at its due time asks for the next;
* `exists_crossing` — steps of at least a fixed length pass every instant;
* `delay_of_future` — the delay of a check while a stage is to come;
* `checks_precede_starts` — the checks go on while a stage is live or to come, and none of the
  starts is slept through.
-/
import HoodMint.StageOrder

namespace Eligibility

open Projects Relational

/-- Steps of at least `d` from below a target come to one that passes it. -/
theorem exists_crossing {f : ℕ → Option ℤ} {target d : ℤ} (hd : 0 < d)
    (hstep : ∀ n now, f n = some now → now < target →
      ∃ next, f (n + 1) = some next ∧ now + d ≤ next)
    {n : ℕ} {now : ℤ} (hnow : f n = some now) (hlt : now < target) :
    ∃ n now next, f n = some now ∧ now < target ∧ f (n + 1) = some next ∧ target ≤ next := by
  -- by induction on how far the target is still ahead
  obtain ⟨k, hk⟩ : ∃ k : ℕ, target - now ≤ k := ⟨(target - now).toNat, by omega⟩
  induction k generalizing n now with
  | zero => omega
  | succ k ih =>
    obtain ⟨next, hnext, hle⟩ := hstep n now hnow hlt
    by_cases hpast : target ≤ next
    · exact ⟨n, now, next, hnow, hlt, hnext, hpast⟩
    · exact ih hnext (by omega) (by omega)

/-! ### The checks -/

/-- `nextEligibilityDueAt`. -/
def nextEligibilityDueAt (stages : List StageView) (lifecycle : LifecycleStatus) (now : ℤ)
    (currentlyEligible : Bool) : Option ℤ :=
  (eligibilityRetryDelayMs stages lifecycle now currentlyEligible).map (now + ·)

/-- What a run of checks meets: the schedule, what is reported of the project and of its supply
at every instant, and what each check finds. -/
structure CheckRun where
  stages : List StageView
  paused : ℤ → Option Bool
  supply : ℤ → SupplyFacts
  eligible : ℕ → Bool

/-- The lifecycle a check is made under. -/
def CheckRun.lifecycle (run : CheckRun) (now : ℤ) : LifecycleStatus :=
  computeLifecycle run.stages now (run.paused now) (run.supply now)

/-- When a check is made: the first at `first`, each other when the one before it said. -/
def CheckRun.checkAt (run : CheckRun) (first : ℤ) : ℕ → Option ℤ
  | 0 => some first
  | n + 1 => (run.checkAt first n).bind fun now =>
      nextEligibilityDueAt run.stages (run.lifecycle now) now (run.eligible n)

variable {stages : List StageView} {now : ℤ} {paused : Option Bool} {supply : SupplyFacts}
  {stage : StageView} {lifecycle : LifecycleStatus} {eligible : Bool}

/-! ### While a stage is live or to come -/

/-- A schedule with a stage that is live or to come has not ended. -/
theorem computeLifecycle_ne_ended (hs : stage ∈ stages)
    (h : isStageLive stage now = true ∨ now < stage.startsAt) (hsupply : supply.soldOut = false) :
    computeLifecycle stages now paused supply ≠ .ended ∧
      computeLifecycle stages now paused supply ≠ .soldOut := by
  have hne : ¬(stages = [] ∧ paused ≠ some true) := fun hempty =>
    List.not_mem_nil (hempty.1 ▸ hs)
  rw [computeLifecycle_eq hne hsupply]
  cases hfirst : stages.find? (isStageLive · now) with
  | some first =>
    by_cases hpaused : first.paused = true ∨ paused = some true
    · simp only [statusOf, if_pos hpaused]
      decide
    · simp only [statusOf, if_neg hpaused]
      decide
  | none =>
    have hlive : isStageLive stage now = false :=
      Bool.eq_false_iff.mpr (List.find?_eq_none.mp hfirst stage hs)
    have hfuture : now < stage.startsAt := by
      obtain h | h := h
      · exact absurd (hlive.symm.trans h) Bool.false_ne_true
      · exact h
    have hany : stages.any (fun stage => stage.startsAt > now) = true :=
      List.any_eq_true.mpr ⟨stage, hs, decide_eq_true hfuture⟩
    by_cases hpaused : paused = some true
    · simp only [statusOf, if_pos hpaused, if_pos hany]
      decide
    · simp only [statusOf, if_neg hpaused, if_pos hany]
      decide

/-- What is relevant while something unpaused is live or to come: a live stage, or the first
of those to come. -/
theorem relevantStage_cases (hs : stage ∈ stages) (hactive : stage.paused = false)
    (h : isStageLive stage now = true ∨ now < stage.startsAt) :
    ∃ r, relevantStage stages now = some r ∧
      (isStageLive r now = true ∨ (now < r.startsAt ∧
        (now < stage.startsAt → r.startsAt ≤ stage.startsAt))) := by
  rw [relevantStage]
  cases hcurrent : currentStage stages now with
  | some r =>
    rw [currentStage_eq] at hcurrent
    have hr := List.of_mem_filter (isTop_of_argmin hcurrent).1
    rw [Current, Bool.and_eq_true] at hr
    exact ⟨r, rfl, Or.inl hr.1⟩
  | none =>
    have hfuture : Future now stage = true := by
      obtain hlive | hfuture := h
      · have hsome : (currentStage stages now).isSome = true :=
          currentStage_isSome_iff.mpr ⟨stage, hs, by simp [Current, hlive, hactive]⟩
        rw [hcurrent] at hsome
        exact absurd hsome Bool.false_ne_true
      · simp [Future, hfuture, hactive]
    obtain ⟨r, hr⟩ := Option.isSome_iff_exists.mp (nextStage_isSome_iff.mpr ⟨stage, hs, hfuture⟩)
    refine ⟨r, by rw [hr]; rfl, Or.inr ?_⟩
    rw [nextStage_eq] at hr
    obtain ⟨hmem, hmin⟩ := isTop_of_argmin hr
    have hlater := List.of_mem_filter hmem
    rw [Future, Bool.and_eq_true, decide_eq_true_iff] at hlater
    exact ⟨hlater.1, fun _ => hmin stage (List.mem_filter.mpr ⟨hs, hfuture⟩)⟩

/-- A live stage is asked about every half hour, or every five minutes until it is a hit. -/
theorem delay_of_live {r : StageView} (hended : lifecycle ≠ .ended) (hsold : lifecycle ≠ .soldOut)
    (hr : relevantStage stages now = some r) (hlive : isStageLive r now = true) :
    eligibilityRetryDelayMs stages lifecycle now eligible =
      some (if eligible then ScheduleIntervals.near else ScheduleIntervals.imminent) := by
  obtain ⟨hstart, hend⟩ := isStageLive_iff.mp hlive
  have hopen : r.endsAt.elim true (now < ·) = true := by
    cases hends : r.endsAt with
    | none => rfl
    | some endsAt =>
      rw [hends] at hend
      simpa using hend
  unfold eligibilityRetryDelayMs
  rw [if_neg (by simp [hended, hsold]), hr]
  exact if_pos ⟨hstart, hopen⟩

/-- A stage to come is asked about the oftener the nearer it is. -/
theorem delay_of_later {r : StageView} (hended : lifecycle ≠ .ended)
    (hsold : lifecycle ≠ .soldOut) (hr : relevantStage stages now = some r)
    (hlater : now < r.startsAt) :
    eligibilityRetryDelayMs stages lifecycle now eligible =
      some (if r.startsAt - now > 24 * 60 * 60 * 1000 then ScheduleIntervals.far
        else if r.startsAt - now > 60 * 60 * 1000 then ScheduleIntervals.near
        else ScheduleIntervals.imminent) := by
  unfold eligibilityRetryDelayMs
  rw [if_neg (by simp [hended, hsold]), hr]
  dsimp only
  rw [if_neg fun h => absurd h.1 (by omega)]
  split
  · rfl
  · split <;> rfl

/-- While a stage is live or to come there is a next check, five minutes later or more; one
that passes a start was made shortly before it. -/
theorem delay_cases (hs : stage ∈ stages) (hactive : stage.paused = false)
    (h : isStageLive stage now = true ∨ now < stage.startsAt) (hended : lifecycle ≠ .ended)
    (hsold : lifecycle ≠ .soldOut) :
    ∃ delay, eligibilityRetryDelayMs stages lifecycle now eligible = some delay ∧
      5 * 60 * 1000 ≤ delay ∧
      (now < stage.startsAt → stage.startsAt ≤ now + delay →
        stage.startsAt - now ≤ 30 * 60 * 1000 ∧
          (eligible = false → stage.startsAt - now ≤ 5 * 60 * 1000)) := by
  obtain ⟨r, hr, hlive | ⟨hlater, hmin⟩⟩ := relevantStage_cases hs hactive h
  · refine ⟨_, delay_of_live hended hsold hr hlive, ?_⟩
    cases eligible with
    | true =>
      simp only [if_true, ScheduleIntervals.near]
      exact ⟨by omega, fun _ hpast => ⟨by omega, fun heligible => by cases heligible⟩⟩
    | false =>
      simp only [Bool.false_eq_true, if_false, ScheduleIntervals.imminent]
      exact ⟨by omega, fun _ hpast => ⟨by omega, fun _ => by omega⟩⟩
  · -- the earliest stage to come starts no later than this one
    refine ⟨_, delay_of_later hended hsold hr hlater, ?_⟩
    simp only [ScheduleIntervals.far, ScheduleIntervals.near, ScheduleIntervals.imminent]
    constructor
    · split
      · omega
      · split <;> omega
    · intro hfuture hpast
      have hmin := hmin hfuture
      split at hpast
      · omega
      · split at hpast
        · omega
        · exact ⟨by omega, fun _ => by omega⟩

/-! ### Whole runs -/

/-- A check made while a stage is live or to come is followed by another. -/
theorem checkAt_succ {run : CheckRun} {first : ℤ} {n : ℕ}
    (hactive : ∀ stage ∈ run.stages, stage.paused = false)
    (hsupply : ∀ now, (run.supply now).soldOut = false) (hnow : run.checkAt first n = some now)
    (hs : stage ∈ run.stages) (h : isStageLive stage now = true ∨ now < stage.startsAt) :
    ∃ due, run.checkAt first (n + 1) = some due ∧ now + 5 * 60 * 1000 ≤ due ∧
      (now < stage.startsAt → stage.startsAt ≤ due →
        stage.startsAt - now ≤ 30 * 60 * 1000 ∧
          (run.eligible n = false → stage.startsAt - now ≤ 5 * 60 * 1000)) := by
  obtain ⟨hended, hsold⟩ : run.lifecycle now ≠ .ended ∧ run.lifecycle now ≠ .soldOut :=
    computeLifecycle_ne_ended hs h (hsupply now)
  obtain ⟨delay, hdelay, hle, hpast⟩ :=
    @delay_cases _ _ _ _ (run.eligible n) hs (hactive stage hs) h hended hsold
  refine ⟨now + delay, ?_, by omega, hpast⟩
  rw [CheckRun.checkAt, hnow]
  exact congrArg (Option.map (now + ·)) hdelay

/-- **Eligibility checks never sleep through an open.**  Whatever is reported of the project
and whatever the checks find, they go on while a stage is live or to come; and every start
after the first check comes at most half an hour after a check, five minutes if that check
found the wallet not eligible. -/
theorem checks_precede_starts (run : CheckRun) (first : ℤ)
    (hactive : ∀ stage ∈ run.stages, stage.paused = false)
    (hsupply : ∀ now, (run.supply now).soldOut = false) :
    (∀ n now, run.checkAt first n = some now →
      (∃ stage ∈ run.stages, isStageLive stage now = true ∨ now < stage.startsAt) →
        ∃ due, run.checkAt first (n + 1) = some due ∧ now < due) ∧
    ∀ stage ∈ run.stages, first < stage.startsAt →
      ∃ n now, run.checkAt first n = some now ∧ now < stage.startsAt ∧
        stage.startsAt - now ≤ 30 * 60 * 1000 ∧
        (run.eligible n = false → stage.startsAt - now ≤ 5 * 60 * 1000) := by
  constructor
  · intro n now hnow h
    obtain ⟨stage, hs, h⟩ := h
    obtain ⟨due, hdue, hle, -⟩ := checkAt_succ hactive hsupply hnow hs h
    exact ⟨due, hdue, by omega⟩
  · intro stage hs hfirst
    obtain ⟨n, now, next, hnow, hlt, hnext, hpast⟩ :=
      exists_crossing (f := run.checkAt first) (d := 5 * 60 * 1000) (by omega)
        (fun n now hnow hlt => by
          obtain ⟨due, hdue, hle, -⟩ := checkAt_succ hactive hsupply hnow hs (Or.inr hlt)
          exact ⟨due, hdue, hle⟩) (n := 0) rfl hfirst
    obtain ⟨due, hdue, -, hbounds⟩ := checkAt_succ hactive hsupply hnow hs (Or.inr hlt)
    obtain rfl := Option.some_inj.mp (hnext.symm.trans hdue)
    exact ⟨n, now, hnow, hlt, hbounds hlt hpast⟩

/-- Two phases an hour apart, the first of them a day and a half ahead; never a hit. -/
def sampleChecks : CheckRun where
  stages := [⟨"gtd", .gtd, 129600000, some 133200000, false⟩,
    ⟨"public", .publicSale, 133200000, none, false⟩]
  paused _ := none
  supply _ := ⟨none, none, false⟩
  eligible _ := false

theorem checks_precede_starts_sample :
    ∃ n now, sampleChecks.checkAt 0 n = some now ∧ now < 133200000 ∧
      133200000 - now ≤ 30 * 60 * 1000 ∧
      (sampleChecks.eligible n = false → 133200000 - now ≤ 5 * 60 * 1000) := by
  have h := checks_precede_starts sampleChecks 0 (by decide) fun _ => rfl
  exact h.2 ⟨"public", .publicSale, 133200000, none, false⟩ (by decide) (by decide)

end Eligibility
