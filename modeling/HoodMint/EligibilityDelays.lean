/-
When each of the stages that one answer is about is checked again.

* `ownDelayMs` — the delay that is prescribed for a stage, by its own start and its own verdict;
* `rechecks` — a call and what follows from it, as a monitor that remembers the clock, the answer
  and the project's stages;
* `InOwnTime` — a verdict is written to be checked again after its stage's own delay;
* `SameBand` — the stage of the check that was picked first calls for the same delay;
* `inOwnTime_iff_sameBand` — the runs that keep to the one are those that keep to the other;
* `far_first` — a phase half an hour away that is not asked about for six hours.
-/
import HoodMint.EligibilityPass

namespace EligibilityEngine

open Effect Eligibility Projects

/-! ### Delays -/

/-- The stage opens in more than a day. -/
def DayAhead (start now : ℤ) : Prop := start - now > 24 * 60 * 60 * 1000

/-- The stage is asked about every half an hour: it opens in more than an hour and no more than a
day, or it has opened and is eligible. -/
def HalfHourly (start now : ℤ) (eligible : Prop) : Prop :=
  start ≤ now ∧ eligible ∨ start - now > 60 * 60 * 1000 ∧ start - now ≤ 24 * 60 * 60 * 1000

theorem recheckDelay_eq_far_iff {start now : ℤ} {eligible : Bool} :
    recheckDelay start now eligible = ScheduleIntervals.far ↔ DayAhead start now := by
  simp only [recheckDelay, DayAhead, ScheduleIntervals.far, ScheduleIntervals.near,
    ScheduleIntervals.imminent]
  split_ifs <;> omega

theorem recheckDelay_eq_near_iff {start now : ℤ} {eligible : Bool} :
    recheckDelay start now eligible = ScheduleIntervals.near ↔
      HalfHourly start now (eligible = true) := by
  simp only [recheckDelay, HalfHourly, ScheduleIntervals.far, ScheduleIntervals.near,
    ScheduleIntervals.imminent]
  split_ifs with hstarted heligible hfar hnear
  · simp [hstarted, heligible]
  · simp only [heligible, and_false, false_or, Bool.false_eq_true]
    omega
  all_goals omega

/-- There are three delays. -/
theorem recheckDelay_cases (start now : ℤ) (eligible : Bool) :
    recheckDelay start now eligible = ScheduleIntervals.far ∨
      recheckDelay start now eligible = ScheduleIntervals.near ∨
        recheckDelay start now eligible = ScheduleIntervals.imminent := by
  rw [recheckDelay]
  split_ifs <;> simp

/-- **The same delay** is the same band. -/
theorem recheckDelay_eq_iff {start start' now : ℤ} {eligible eligible' : Bool} :
    recheckDelay start now eligible = recheckDelay start' now eligible' ↔
      (DayAhead start now ↔ DayAhead start' now) ∧
        (HalfHourly start now (eligible = true) ↔ HalfHourly start' now (eligible' = true)) := by
  rw [← @recheckDelay_eq_far_iff start now eligible, ← @recheckDelay_eq_far_iff start' now eligible',
    ← recheckDelay_eq_near_iff, ← recheckDelay_eq_near_iff]
  rcases recheckDelay_cases start now eligible with h | h | h <;>
    rcases recheckDelay_cases start' now eligible' with h' | h' | h' <;>
      rw [h, h'] <;> decide

/-! ### One call, and what follows -/

/-- What is remembered of a call: the last two readings of the clock, the answer, and the stages of
the project. -/
structure Recheck where
  base : ℤ
  now : ℤ
  parsed : List EligibilityStage
  rows : List StageRow

/-- The delay of a stage, by its own start and its own verdict. -/
def ownDelayMs (row : StageRow) (status : EligibilityState) (lifecycle : LifecycleStatus)
    (now : ℤ) : ℤ :=
  (eligibilityRetryDelayMs [⟨"stage", .allowlist, row.startsAt, none, false⟩]
    (if lifecycle = .live ∨ lifecycle = .next ∨ lifecycle = .unknown then lifecycle else .unknown)
    now (status = .eligibleRestricted)).getD (30 * 60 * 1000)

section

variable (first : DueCheck)

/-- **Its own delay**: the stage whose verdict is written is due again that much later. -/
def InOwnTime (s : Recheck) (input : EligibilityUpsert) : Prop :=
  ∀ row ∈ s.rows, row.id = input.stageId →
    input.nextDueAt = s.base + ownDelayMs row input.status first.lifecycle s.now

/-- The first check stands for a hit: it is one already, or the answer calls a restricted stage of
the project eligible. -/
def StandsForHit (s : Recheck) : Prop :=
  first.currentlyEligible = true ∨ ∃ stage ∈ s.parsed, ∃ row, stageRow? s.rows stage = some row ∧
    row.type ≠ .publicSale ∧ stage.isEligible = true

/-- **The same band**: the stage of the first check and the stage that is written are both more
than a day ahead or neither, and both asked about every half an hour or neither. -/
def SameBand (s : Recheck) (input : EligibilityUpsert) : Prop :=
  ∀ row ∈ s.rows, row.id = input.stageId →
    (DayAhead first.stageStartsAt s.now ↔ DayAhead row.startsAt s.now) ∧
      (HalfHourly first.stageStartsAt s.now (StandsForHit first s) ↔
        HalfHourly row.startsAt s.now (input.status = .eligibleRestricted))

end

/-- A call, with what is demanded of a verdict when it is written. -/
def rechecks (demand : Recheck → EligibilityUpsert → Prop) :
    Monitor signature Thrown Recheck where
  guard s c :=
    match c with
    | .upsertEligibilityCheck input => input.errorCode = none → demand s input
    | _ => True
  allowed _ _ _ := True
  next s c x :=
    match c, x with
    | .now, .ok t => { s with base := s.now, now := t }
    | .getEligibility .., .ok parsed => { s with parsed }
    | .stagesOf _, .ok rows => { s with rows }
    | _, _ => s

/-- Before the call. -/
def Recheck.start : Recheck := ⟨0, 0, [], []⟩

theorem ownDelayMs_eq (row : StageRow) (status : EligibilityState) (lifecycle : LifecycleStatus)
    (now : ℤ) :
    ownDelayMs row status lifecycle now =
      recheckDelay row.startsAt now (status = .eligibleRestricted) := by
  rw [ownDelayMs, eligibilityRetryDelayMs_single]
  · rfl
  · cases lifecycle <;> decide
  · cases lifecycle <;> decide

/-- **One verdict**: the demands say the same of it. -/
theorem inOwnTime_iff_sameBand_of_write {first : DueCheck} {s : Recheck} {j : Judgement}
    {input : EligibilityUpsert} (hfirst : j.first = first)
    (hverdict : j.verdict = classifyEligibility (s.parsed.map (checkResult s.rows)) true)
    (hdue : input.nextDueAt = s.base + retryDelayMs j.first j.verdict s.now) :
    InOwnTime first s input ↔ SameBand first s input := by
  have hhit : (decide (j.verdict = .eligibleRestricted) || first.currentlyEligible) = true ↔
      StandsForHit first s := by
    rw [Bool.or_eq_true, decide_eq_true_iff, hverdict, classify_eligible_iff, or_comm,
      StandsForHit]
  refine forall₃_congr fun row _ _ => ?_
  rw [hdue, hfirst, retryDelayMs_eq, ownDelayMs_eq, add_right_inj, recheckDelay_eq_iff, hhit,
    decide_eq_true_iff]

section

variable {first : DueCheck} {s : Recheck}

/-- The two demands, compared whenever a verdict is written. -/
def compares (first : DueCheck) : Monitor signature Thrown Recheck :=
  { rechecks (InOwnTime first) with
    guard := fun s c => (rechecks (InOwnTime first)).guard s c ↔
      (rechecks (SameBand first)).guard s c }

/-- The answer and the stages are remembered. -/
def Remembers (s : Recheck) : Except Thrown Unit → Recheck → Prop :=
  fun _ s' => s'.parsed = s.parsed ∧ s'.rows = s.rows

/-- A reading of the clock. -/
theorem remembers_now {f : ℤ → Engine Unit}
    (hf : ∀ now, (f now).wp (compares first) (Remembers s) { s with base := s.now, now }) :
    (ask .now >>= f).wp (compares first) (Remembers s) s :=
  Prog.wp_issue_bind Iff.rfl (fun now _ => hf now) fun _ _ => ⟨rfl, rfl⟩

theorem alertHit_remembers {j : Judgement} {stage : EligibilityStage} {row : StageRow} :
    (alertHit j stage row).wp (compares first) (Remembers s) s :=
  remembers_now fun _ => Prog.wp_issue.mpr ⟨Iff.rfl, fun _ _ => ⟨rfl, rfl⟩⟩

theorem judgeStage_remembers {j : Judgement} {stage : EligibilityStage} (hfirst : j.first = first)
    (hverdict : j.verdict = classifyEligibility (s.parsed.map (checkResult s.rows)) true) :
    (judgeStage j stage).wp (compares first) (Remembers s) s := by
  rw [judgeStage]
  cases stageRow? j.rows stage with
  | none => exact ⟨rfl, rfl⟩
  | some row =>
    refine remembers_now fun checkedAt => remembers_now fun base => remembers_now fun isoNow => ?_
    refine Prog.wp_issue_bind ?_ (fun _ _ => ?_) fun _ _ => ⟨rfl, rfl⟩
    · exact imp_congr_right fun _ => inOwnTime_iff_sameBand_of_write hfirst hverdict rfl
    · exact Prog.wp_ite (fun _ => alertHit_remembers) fun _ => ⟨rfl, rfl⟩

theorem judgeStages_remembers {j : Judgement} {stages : List EligibilityStage}
    (hfirst : j.first = first)
    (hverdict : j.verdict = classifyEligibility (s.parsed.map (checkResult s.rows)) true) :
    (judgeStages j stages).wp (compares first) (Remembers s) s := by
  induction stages generalizing s with
  | nil => exact ⟨rfl, rfl⟩
  | cons stage stages ih =>
    refine Prog.wp_bind_of (judgeStage_remembers hfirst hverdict) ?_ fun _ _ h => h
    rintro _ s' ⟨hparsed, hrows⟩
    refine Prog.wp_mono (ih (by rw [hparsed, hrows, hverdict])) ?_
    rintro _ s'' ⟨hparsed', hrows'⟩
    exact ⟨hparsed'.trans hparsed, hrows'.trans hrows⟩

/-- What is parked is no verdict. -/
theorem rewriteAll_remembers {w : Rewrite} {checks : List DueCheck} (herror : w.errorCode.isSome) :
    (rewriteAll w checks).wp (compares first) (fun _ _ => True) s := by
  induction checks generalizing s with
  | nil => trivial
  | cons check checks ih =>
    refine Prog.wp_issue_bind Iff.rfl (fun checkedAt _ => ?_) fun _ _ => trivial
    refine Prog.wp_issue_bind Iff.rfl (fun base _ => ?_) fun _ _ => trivial
    refine Prog.wp_issue_bind ?_ (fun _ _ => ih) fun _ _ => trivial
    refine imp_congr_right fun hnone => ?_
    rw [show w.errorCode = none from hnone] at herror
    cases herror

theorem judgePair_compares (config : Config) (jwt slug : String) (wallets : List TrackedWallet)
    (checks : List DueCheck) :
    (judgePair config jwt wallets slug first checks).wp (compares first) (fun _ _ => True) s := by
  refine Prog.wp_issue_bind Iff.rfl (fun parsed _ => ?_) fun _ _ => trivial
  refine Prog.wp_issue_bind Iff.rfl (fun rows _ => ?_) fun _ _ => trivial
  refine Prog.wp_bind_of (judgeStages_remembers rfl rfl) (fun _ _ _ => ?_) fun _ _ _ => trivial
  refine Prog.wp_bind_of (rewriteAll_remembers rfl) (fun _ _ _ => ?_) fun _ _ _ => trivial
  refine Prog.wp_issue_bind Iff.rfl (fun now _ => ?_) fun _ _ => trivial
  exact Prog.wp_issue.mpr ⟨Iff.rfl, fun _ _ => trivial⟩

/-- **Each stage is checked again in its own time** in exactly the runs in which its verdict is
written while it is in the band of the check that was picked first. -/
theorem inOwnTime_iff_sameBand (config : Config) (jwt slug : String)
    (wallets : List TrackedWallet) (first : DueCheck) (checks : List DueCheck)
    (tr : List (Event signature Thrown)) (en : Ending signature Thrown Unit)
    (hruns : (judgePair config jwt wallets slug first checks).Runs tr en) :
    (rechecks (InOwnTime first)).Keeps .start tr en ↔
      (rechecks (SameBand first)).Keeps .start tr en := by
  have hadmits : (compares first).Admits .start tr :=
    Monitor.admits_of_forall (fun _ _ _ => trivial) _ _
  exact Monitor.keeps_congr rfl
    (Prog.sound (judgePair_compares config jwt slug wallets checks) hruns hadmits).1

end

/-! ### A phase that opens soon -/

instance (first : DueCheck) (s : Recheck) (input : EligibilityUpsert) :
    Decidable (InOwnTime first s input) :=
  (inferInstance : Decidable (∀ row ∈ s.rows, row.id = input.stageId →
    input.nextDueAt = s.base + ownDelayMs row input.status first.lifecycle s.now))

instance (demand : Recheck → EligibilityUpsert → Prop) [∀ s input, Decidable (demand s input)] :
    ∀ s c, Decidable ((rechecks demand).guard s c)
  | _, .upsertEligibilityCheck input => (inferInstance : Decidable (input.errorCode = none → _))
  | _, .now | _, .resolveOpenSeaKey | _, .dueEligibilityChecks .. | _, .getWalletJwt
  | _, .listWallets | _, .getEligibility .. | _, .stagesOf _ | _, .enqueueAlert _
  | _, .publishUpdated .. => isTrue trivial

namespace Sample

def phase (id : String) (startsAt : ℤ) : StageRow :=
  { id, projectId := "project", providerStageId := id, version := 1, label := id, type := .gtd
    priceWei := none, currency := none, maxPerWallet := none, startsAt, endsAt := none
    paused := false, updatedAt := 0 }

/-- A phase in two days and one in half an hour. -/
def phases : List StageRow := [phase "far" (48 * 60 * 60 * 1000), phase "near" (30 * 60 * 1000)]

def due (stageId : String) (startsAt : ℤ) : DueCheck :=
  ⟨"wallet", "project", some "drop", stageId, startsAt, .unknown, .next⟩

/-- The check of the far one was picked first. -/
def farCheck : DueCheck := due "far" (48 * 60 * 60 * 1000)

def farFirst : List DueCheck := [farCheck, due "near" (30 * 60 * 1000)]

/-- Both are returned; nothing fails. -/
def returned : (c : Cmd) → Except Thrown c.Resp
  | .now => .ok 0
  | .resolveOpenSeaKey => .ok []
  | .dueEligibilityChecks .. => .ok farFirst
  | .getWalletJwt => .ok (some "token")
  | .listWallets => .ok []
  | .getEligibility .. => .ok [⟨"far", false, none, none⟩, ⟨"near", false, none, none⟩]
  | .stagesOf _ => .ok phases
  | .upsertEligibilityCheck _ => .ok ()
  | .enqueueAlert _ => .ok ()
  | .publishUpdated .. => .ok ()

/-- What the call does, and how it ends. -/
def called : List (Event signature Thrown) × Except Thrown Unit :=
  (judgePair ⟨120, none⟩ "token" [] "drop" farCheck farFirst).against returned

end Sample

theorem inOwnTime_iff_sameBand_called :
    (rechecks (InOwnTime Sample.farCheck)).Keeps .start Sample.called.1
        (.finished Sample.called.2) ↔
      (rechecks (SameBand Sample.farCheck)).Keeps .start Sample.called.1
        (.finished Sample.called.2) :=
  inOwnTime_iff_sameBand _ _ _ _ _ _ _ _ (Prog.against_runs _ _)

/-- **The phase in half an hour** is not asked about again for six hours. -/
theorem far_first :
    ¬(rechecks (InOwnTime Sample.farCheck)).Keeps .start Sample.called.1
      (.finished Sample.called.2) := by
  decide

end EligibilityEngine
