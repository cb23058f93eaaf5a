/-
For how long plans are armed.

A monitor keeps what a run has read: the clock, the plans read and created, and the windows of
stages.  An `Arming` is the window a plan is armed for, beside the instant the plan fires at.

* `armSpecialMintPlansAction_wp` — the special-mints console arms a plan for a window that
  reaches this instant;
* `runAutoMintPlanner_wp` — the planner does exactly when the stage opens within a day of the
  pass, though its policy may look ahead for a week;
* `reaches_iff` — so it is in every run of either, finished or not.
-/
import HoodMint.PlanCreators

namespace PlanCreators

open AutoMint Effect Eligibility

open MintWorker (MintPlan)

/-! ### Armings -/

/-- A plan is armed for `minutes` from `nowMs`; `target` is the instant it fires at. -/
structure Arming where
  nowMs : ℤ
  target : Option ℤ
  minutes : ℤ
deriving DecidableEq

/-- The window reaches the instant the plan fires at, and is between a minute and a day. -/
def Arming.Reaches (a : Arming) : Prop :=
  (∃ target ∈ a.target, target ≤ a.nowMs + a.minutes * 60000) ∧ 1 ≤ a.minutes ∧ a.minutes ≤ 1440

/-- The plan fires within a day of its arming. -/
def Arming.WithinDay (a : Arming) : Prop :=
  ∃ target ∈ a.target, target ≤ a.nowMs + 24 * 60 * 60000

instance (a : Arming) : Decidable a.Reaches :=
  (inferInstance : Decidable ((∃ target ∈ a.target, target ≤ a.nowMs + a.minutes * 60000) ∧ _ ∧ _))

theorem Arming.Reaches.withinDay {a : Arming} (h : a.Reaches) : a.WithinDay := by
  obtain ⟨⟨target, htarget, hle⟩, _, hminutes⟩ := h
  refine ⟨target, htarget, ?_⟩
  omega

/-- What a run has read. -/
structure Seen where
  nowMs : ℤ
  plans : List (String × Option ℤ × Option String)
  stages : List (String × Option StageWindow)
  armings : List Arming

namespace Seen

variable (t : Seen)

/-- The window of a stage, as it was read last. -/
def window (stageId : Option String) : Option StageWindow :=
  stageId.bind fun id => (t.stages.lookup id).join

/-- The instant a plan fires at, as it was read or created last. -/
def target (planId : String) : Option ℤ :=
  (t.plans.lookup planId).bind fun p => fireTarget p.1 (t.window p.2)

/-- The arming of a plan. -/
def arming (planId : String) (minutes : ℤ) : Arming := ⟨t.nowMs, t.target planId, minutes⟩

end Seen

/-- The rows of the candidates' query: stages end after they start, and no two are the same. -/
def Windowed (stages : List AutoMintCandidate) : Prop :=
  (stages.map AutoMintCandidate.stageId).Nodup ∧
    ∀ s ∈ stages, ∀ e ∈ s.endsAtMs, s.startsAtMs < e

/-- What every arming is to meet. -/
def armWindows (φ : Arming → Prop) : Monitor signature Thrown Seen where
  guard t c :=
    match c with
    | .armMintPlan planId _ minutes => φ (t.arming planId minutes)
    | _ => True
  allowed _ c x :=
    match c, x with
    | .getDropStage _, .ok (some stage) => ∀ e ∈ stage.endsAt, stage.startsAt < e
    | .autoMintCandidateStages _, .ok stages => Windowed stages
    | _, _ => True
  next t c x :=
    match c, x with
    | .now, .ok nowMs => { t with nowMs }
    | .getDropStage id, .ok stage =>
      { t with stages := (id, stage.map stageWindow) :: t.stages }
    | .autoMintCandidateStages _, .ok stages =>
      { t with
        stages := stages.map (fun s => (s.stageId, some ⟨s.startsAtMs, s.endsAtMs⟩)) ++ t.stages }
    | .getMintPlan _, .ok (some plan) =>
      { t with plans := (plan.id, plan.fireAt, plan.stageId) :: t.plans }
    | .createMintPlan input, .ok id =>
      { t with plans := (id, input.fireAt, input.stageId) :: t.plans }
    | .armMintPlan planId _ minutes, .ok true =>
      { t with armings := t.arming planId minutes :: t.armings }
    | _, _ => t

/-! ### Commands that tell nothing of this -/

/-- The command changes nothing that has been read. -/
def Cmd.Quiet : Cmd → Prop
  | .now | .getDropStage _ | .autoMintCandidateStages _ | .getMintPlan _ | .createMintPlan _
  | .armMintPlan .. => False
  | _ => True

abbrev Quiet {α : Type} (p : Creator α) : Prop := p.Only (S := signature) Cmd.Quiet

section

variable {φ : Arming → Prop} {α : Type} {t : Seen}

theorem quiet_ask {c : Cmd} (h : c.Quiet) : Quiet (ask c) := Prog.Only.issue h

theorem Cmd.Plain.quiet {c : Cmd} (h : c.Plain) : c.Quiet := by
  cases c <;> first | exact trivial | exact absurd h id

theorem quiet_of_plain {p : Creator α} (h : Plain p) : Quiet p := h.mono fun _ => Cmd.Plain.quiet

theorem quiet_next {c : Cmd} (h : c.Quiet) (x : Except Thrown c.Resp) :
    (armWindows φ).next t c x = t := by
  cases c <;> first | exact absurd h id | (cases x <;> rfl)

/-- A quiet program leaves what has been read as it is. -/
theorem quiet_wp {p : Creator α} (h : Quiet p) : p.wp (armWindows φ) (fun _ t' => t' = t) t := by
  refine Prog.Only.wp (I := fun t' => t' = t) h ?_ ?_ rfl
  · intro t' c hc _
    cases c <;> first | exact trivial | exact absurd hc id
  · rintro t' c x hc rfl _
    exact quiet_next hc x

/-- A quiet program, and what comes after it. -/
theorem quiet_bind_wp {β : Type} {p : Creator α} {f : α → Creator β} {I : Seen → Prop}
    (hp : Quiet p) (ht : I t) (hf : ∀ a, (f a).wp (armWindows φ) (fun _ => I) t) :
    (p >>= f).wp (armWindows φ) (fun _ => I) t := by
  refine Prog.wp_bind_of (quiet_wp hp) ?_ ?_
  · rintro a _ rfl
    exact hf a
  · rintro e _ rfl
    exact ht

end

/-! ### The console -/

section

variable {caches : ArmCaches} {actor planId : String} {plan : MintPlan}
  {stage : Option StageRow} {t : Seen} {now windowMinutes : ℤ}

/-- What is known of a plan when its window is computed. -/
structure Seen.Knows (t : Seen) (plan : MintPlan) (stage : Option StageRow) (now : ℤ) : Prop where
  now : t.nowMs = now
  target : t.target plan.id = fireTarget plan.fireAt (stage.map stageWindow)

/-- The arming issued is the one that was computed. -/
theorem fundAndArm_wp {warnings : List ArmWarning} {quantity : ℕ} {clamped : Bool}
    (hknows : t.Knows plan stage now)
    (hreaches : Arming.Reaches
      ⟨now, fireTarget plan.fireAt (stage.map stageWindow), windowMinutes⟩) :
    (fundAndArm actor plan stage windowMinutes warnings quantity clamped).wp
      (armWindows Arming.Reaches) (fun _ t' => t'.nowMs = now) t := by
  rw [fundAndArm]
  refine quiet_bind_wp (quiet_ask trivial) hknows.now fun funding => ?_
  split
  · refine Prog.wp_mono (quiet_wp (quiet_of_plain plain_refuseArm)) ?_
    rintro _ _ rfl
    exact hknows.now
  · refine Prog.wp_issue_bind ?_ ?_ ?_
    · show Arming.Reaches (t.arming plan.id windowMinutes)
      rw [Seen.arming, hknows.now, hknows.target]
      exact hreaches
    · intro armed _
      cases armed with
      | false => exact hknows.now
      | true => exact quiet_bind_wp (quiet_ask trivial) hknows.now fun _ => hknows.now
    · exact fun _ _ => hknows.now

/-- A plan refused leaves what has been read as it is. -/
theorem refuse_wp {problem : ArmProblem} {α : Type} {a : α} (hnow : t.nowMs = now) :
    (refuseArm actor planId problem >>= fun r => (pure (r, a) : Creator _)).wp
      (armWindows Arming.Reaches) (fun _ t' => t'.nowMs = now) t :=
  quiet_bind_wp (quiet_of_plain plain_refuseArm) hnow fun _ => hnow

theorem gateAndArm_wp (hknows : t.Knows plan stage now)
    (hreaches : Arming.Reaches
      ⟨now, fireTarget plan.fireAt (stage.map stageWindow), windowMinutes⟩) :
    (gateAndArm caches actor plan stage windowMinutes).wp (armWindows Arming.Reaches)
      (fun _ t' => t'.nowMs = now) t := by
  rw [gateAndArm]
  split
  · exact refuse_wp hknows.now
  · refine quiet_bind_wp (quiet_of_plain plain_eligibilityGate) hknows.now ?_
    rintro ⟨status | warnings, caches⟩
    · exact refuse_wp hknows.now
    · refine quiet_bind_wp (quiet_of_plain plain_allowanceGate) hknows.now ?_
      rintro ⟨problem | ⟨quantity, clamped⟩, caches⟩
      · cases problem with
        | exhausted => exact refuse_wp hknows.now
        | _ => exact hknows.now
      · exact Prog.wp_bind_of (fundAndArm_wp hknows hreaches) (fun _ _ h => h) fun _ _ h => h

/-- The stage of a plan is read: its window is the one known from then on. -/
theorem stageOfPlan_wp {φ : Arming → Prop} :
    (stageOfPlan plan).wp (armWindows φ) (fun r t' => t'.nowMs = t.nowMs ∧ t'.plans = t.plans ∧
      ∀ stage, r = .ok stage → t'.window plan.stageId = stage.map stageWindow ∧
        ∀ w ∈ stage.map stageWindow, ∀ e ∈ w.endsAt, w.startsAt < e) t := by
  rw [stageOfPlan]
  cases hstage : plan.stageId with
  | none =>
    refine ⟨rfl, rfl, fun stage h => ?_⟩
    obtain rfl := Except.ok.inj h
    exact ⟨rfl, fun w hw => absurd hw (Option.not_mem_none w)⟩
  | some stageId =>
    refine Prog.wp_issue.mpr ⟨trivial, ?_⟩
    rintro (e | stage) hx
    · exact ⟨rfl, rfl, fun _ h => by cases h⟩
    · refine ⟨rfl, rfl, fun stage' h => ?_⟩
      obtain rfl := Except.ok.inj h
      refine ⟨?_, fun w hw => ?_⟩
      · show (List.lookup stageId ((stageId, stage.map stageWindow) :: t.stages)).join = _
        rw [List.lookup_cons_self]
        rfl
      · obtain ⟨row, rfl, rfl⟩ := Option.map_eq_some_iff.mp hw
        exact hx

theorem armPlan_wp (hnow : t.nowMs = now) :
    (armPlan caches actor now planId).wp (armWindows Arming.Reaches)
      (fun _ t' => t'.nowMs = now) t := by
  rw [armPlan]
  refine Prog.wp_ite (fun _ => hnow) fun _ => ?_
  refine Prog.wp_issue_bind trivial ?_ fun _ _ => hnow
  rintro (_ | plan) _
  · exact hnow
  · refine Prog.wp_bind_of stageOfPlan_wp ?_ fun _ _ h => h.1.trans hnow
    rintro stage t' ⟨hnow', hplans, hstage⟩
    obtain ⟨hwindow, hends⟩ := hstage stage rfl
    have hknows : t'.Knows plan stage now := by
      refine ⟨hnow'.trans hnow, ?_⟩
      show (t'.plans.lookup plan.id).bind _ = _
      rw [hplans]
      show (List.lookup plan.id ((plan.id, plan.fireAt, plan.stageId) :: t.plans)).bind _ = _
      rw [List.lookup_cons_self, Option.bind_some, hwindow]
    split
    · exact refuse_wp hknows.now
    · next minutes hminutes =>
      obtain ⟨target, htarget, hle, _, hbounds⟩ := specialMintArmWindow_covers hends hminutes
      exact gateAndArm_wp hknows ⟨⟨target, htarget, hle⟩, hbounds⟩

theorem armPlans_wp {planIds : List String} (hnow : t.nowMs = now) :
    (armPlans actor now planIds caches).wp (armWindows Arming.Reaches)
      (fun _ t' => t'.nowMs = now) t := by
  induction planIds generalizing caches t with
  | nil => exact hnow
  | cons planId planIds ih =>
    rw [armPlans]
    refine Prog.wp_bind_of (armPlan_wp hnow) ?_ fun _ _ h => h
    rintro ⟨outcome, caches⟩ t' hnow'
    exact Prog.wp_bind_of (ih hnow') (fun _ _ h => h) fun _ _ h => h

/-- **The console** arms plans for windows that reach the instant they fire at. -/
theorem armSpecialMintPlansAction_wp {planIds : List String} :
    (armSpecialMintPlansAction planIds).wp (armWindows Arming.Reaches) (fun _ _ => True) t := by
  refine quiet_bind_wp (Prog.Only.attempt (quiet_ask trivial)) trivial fun actor => ?_
  cases actor with
  | error => exact trivial
  | ok actor =>
    dsimp only
    split
    · exact trivial
    · split
      · exact trivial
      · refine Prog.wp_issue_bind trivial (fun now _ => ?_) fun _ _ => trivial
        exact Prog.wp_bind_of (armPlans_wp rfl) (fun _ _ _ => trivial) fun _ _ _ => trivial

end

/-! ### The planner -/

/-- An arming reaches the instant its plan fires at exactly when that is within a day. -/
def Arming.Settles (a : Arming) : Prop := a.Reaches ↔ a.WithinDay

/-- What is known of the candidates while they are planned. -/
structure Seen.Lists (t : Seen) (stages : List AutoMintCandidate) (nowMs : ℤ) : Prop where
  now : t.nowMs = nowMs
  window : ∀ s ∈ stages, t.window (some s.stageId) = some ⟨s.startsAtMs, s.endsAtMs⟩
  ends : ∀ s ∈ stages, ∀ e ∈ s.endsAtMs, s.startsAtMs < e

section

variable {policy : AutoMintPolicy} {owner walletId : String} {s : AutoMintCandidate}
  {stages : List AutoMintCandidate} {nowMs minutes : ℤ} {ceilingWei : ℕ} {t : Seen}

/-- No two candidates are the same stage, so that each is found under its own id. -/
theorem lookup_candidates {rest : List (String × Option StageWindow)}
    (hnodup : (stages.map AutoMintCandidate.stageId).Nodup) (hs : s ∈ stages) :
    (stages.map (fun s => (s.stageId, some (StageWindow.mk s.startsAtMs s.endsAtMs))) ++
        rest).lookup s.stageId =
      some (some ⟨s.startsAtMs, s.endsAtMs⟩) := by
  induction stages with
  | nil => exact absurd hs List.not_mem_nil
  | cons s' stages ih =>
    rw [List.map_cons, List.nodup_cons] at hnodup
    rw [List.map_cons, List.cons_append]
    rcases List.mem_cons.mp hs with rfl | hs
    · exact List.lookup_cons_self
    · have hne : s.stageId ≠ s'.stageId := by
        intro heq
        exact hnodup.1 (heq ▸ List.mem_map_of_mem hs)
      rw [List.lookup_cons, beq_eq_false_iff_ne.mpr hne]
      exact ih hnodup.2 hs

/-- Plans and armings are no matter to what is known of the candidates. -/
theorem Seen.Lists.of_eq {t' : Seen} (h : t.Lists stages nowMs) (hnow : t'.nowMs = t.nowMs)
    (hstages : t'.stages = t.stages) : t'.Lists stages nowMs where
  now := hnow.trans h.now
  window s hs := by
    rw [Seen.window, hstages]
    exact h.window s hs
  ends := h.ends

/-- The plan of a stage is armed for the minutes that were decided. -/
theorem planStage_wp (hlists : t.Lists stages nowMs) (hs : s ∈ stages)
    (hdecide : decideAutoMint policy s nowMs = .plan ceilingWei minutes) :
    (planStage policy owner walletId s ceilingWei minutes).wp (armWindows Arming.Settles)
      (fun _ t' => t'.Lists stages nowMs) t := by
  have hminutes := (decideAutoMint_plan hdecide).2.2
  refine Prog.wp_issue_bind trivial (fun (id : String) _ => ?_) fun _ _ => hlists
  refine Prog.wp_issue_bind ?_ (fun armed _ => ?_) fun _ _ => hlists.of_eq rfl rfl
  · -- the plan has no instant of its own, so that it fires when its stage starts
    have htarget : fireTarget none (t.window (some s.stageId)) = some s.startsAtMs := by
      rw [hlists.window s hs]
      rfl
    show Arming.Settles ⟨t.nowMs, (List.lookup id ((id, none, some s.stageId) :: t.plans)).bind
      fun p => fireTarget p.1 (t.window p.2), minutes⟩
    rw [List.lookup_cons_self, Option.bind_some, htarget, hlists.now, hminutes]
    have hbounds := armMinutes_bounds s.endsAtMs nowMs
    refine ⟨Arming.Reaches.withinDay, ?_⟩
    rintro ⟨target, htarget, hle⟩
    obtain rfl := Option.some_inj.mp htarget
    exact ⟨⟨_, rfl, (armMinutes_covers_iff (hlists.ends s hs)).mpr hle⟩, hbounds⟩
  · refine Prog.wp_mono (quiet_wp (quiet_ask trivial)) ?_
    rintro _ _ rfl
    cases armed <;> exact hlists.of_eq rfl rfl

theorem planStages_wp {rest : List AutoMintCandidate} {budget : ℤ} {summary : AutoMintSummary}
    (hrest : rest ⊆ stages) (hlists : t.Lists stages nowMs) :
    (planStages policy owner nowMs walletId rest budget summary).wp (armWindows Arming.Settles)
      (fun _ t' => t'.Lists stages nowMs) t := by
  induction rest generalizing budget summary t with
  | nil => exact hlists
  | cons s rest ih =>
    have hs := hrest List.mem_cons_self
    have hrest' : rest ⊆ stages := fun s hs => hrest (List.mem_cons_of_mem _ hs)
    rw [planStages]
    split
    · exact hlists
    · split
      · exact ih hrest' hlists
      · next ceilingWei minutes hdecide =>
        refine quiet_bind_wp (quiet_ask trivial) hlists fun blocking => ?_
        refine Prog.wp_ite (fun _ => ih hrest' hlists) fun _ => ?_
        refine quiet_bind_wp (quiet_ask trivial) hlists fun attempts => ?_
        refine Prog.wp_ite (fun _ => ih hrest' hlists) fun _ => ?_
        exact Prog.wp_bind_of (planStage_wp hlists hs hdecide) (fun _ _ h => ih hrest' h)
          fun _ _ h => h

theorem planWallets_wp {wallets : List String} {summary : AutoMintSummary}
    (hlists : t.Lists stages nowMs) :
    (planWallets policy owner nowMs stages wallets summary).wp (armWindows Arming.Settles)
      (fun _ _ => True) t := by
  induction wallets generalizing summary t with
  | nil => exact trivial
  | cons walletId wallets ih =>
    rw [planWallets]
    refine quiet_bind_wp (quiet_ask trivial) trivial fun executedToday => ?_
    exact Prog.wp_bind_of (planStages_wp (List.Subset.refl stages) hlists) (fun _ _ h => ih h)
      fun _ _ _ => trivial

/-- **The planner** arms a plan for a window that reaches the opening of its stage exactly when
the stage opens within a day of the pass. -/
theorem runAutoMintPlanner_wp :
    runAutoMintPlanner.wp (armWindows Arming.Settles) (fun _ _ => True) t := by
  refine quiet_bind_wp (quiet_ask trivial) trivial fun stored => ?_
  split
  · exact trivial
  · split
    · refine quiet_bind_wp (quiet_ask trivial) trivial fun wallets => ?_
      refine Prog.wp_ite (fun _ => trivial) fun _ => ?_
      refine Prog.wp_issue_bind trivial (fun nowMs _ => ?_) fun _ _ => trivial
      refine Prog.wp_issue_bind trivial (fun stages hstages => ?_) fun _ _ => trivial
      refine planWallets_wp ⟨rfl, fun s hs => ?_, hstages.2⟩
      show (List.lookup s.stageId (_ ++ t.stages)).join = _
      rw [lookup_candidates hstages.1 hs]
      rfl
    · exact trivial

end

/-! ### Every run -/

/-- What arms plans on its own. -/
inductive Armer
  | console (planIds : List String)
  | planner

/-- The program of it, its result dropped. -/
def Armer.prog : Armer → Creator Unit
  | .console planIds => do
    let _ ← armSpecialMintPlansAction planIds
  | .planner => do
    let _ ← runAutoMintPlanner

/-- Nothing read, nothing armed. -/
def Seen.start : Seen := ⟨0, [], [], []⟩

/-- What every arming is to meet, it meets after the run as well. -/
theorem armings_of_keeps {φ : Arming → Prop} {t : Seen} {tr : List (Event signature Thrown)}
    {en : Ending signature Thrown Unit} (h : (armWindows φ).Keeps t tr en)
    (ht : ∀ a ∈ t.armings, φ a) : ∀ a ∈ ((armWindows φ).after t tr).armings, φ a := by
  refine h.invariant (I := fun t => ∀ a ∈ t.armings, φ a) (fun t c x ht hguard => ?_) ht
  cases c with
  | armMintPlan planId user minutes =>
    rcases x with e | _ | _
    · exact ht
    · exact ht
    · exact List.forall_mem_cons.mpr ⟨hguard, ht⟩
  | getMintPlan id => rcases x with e | _ | plan <;> exact ht
  | _ => cases x <;> exact ht

/-- What is demanded does not change what is read. -/
theorem admits_congr {φ ψ : Arming → Prop} {t : Seen} {tr : List (Event signature Thrown)} :
    (armWindows φ).Admits t tr ↔ (armWindows ψ).Admits t tr := by
  induction tr generalizing t with
  | nil => exact Iff.rfl
  | cons e tr ih => exact and_congr_right fun _ => ih

theorem after_congr {φ ψ : Arming → Prop} {t : Seen} {tr : List (Event signature Thrown)} :
    (armWindows φ).after t tr = (armWindows ψ).after t tr := by
  induction tr generalizing t with
  | nil => rfl
  | cons e tr ih => exact ih

/-- What is read, with nothing demanded. -/
def reading : Monitor signature Thrown Seen := armWindows fun _ => True

/-- A program that meets a demand meets it in every arming of every run, finished or not. -/
theorem armings_of_wp {φ : Arming → Prop} {p : Creator Unit} {tr : List (Event signature Thrown)}
    {en : Ending signature Thrown Unit}
    (h : p.wp (armWindows φ) (fun _ _ => True) Seen.start) (hr : p.Runs tr en)
    (ha : reading.Admits Seen.start tr) : ∀ a ∈ (reading.after Seen.start tr).armings, φ a := by
  have hkeeps := (Prog.sound h hr (admits_congr.mp ha)).1
  rw [reading, after_congr]
  exact armings_of_keeps hkeeps fun a ha => absurd ha List.not_mem_nil

/-- **The windows.**  Whatever is read, a plan is armed for a window that reaches the instant it
fires at exactly when this is within a day of the arming, which the console sees to. -/
theorem reaches_iff (armer : Armer) {tr : List (Event signature Thrown)}
    {en : Ending signature Thrown Unit} (hr : armer.prog.Runs tr en)
    (ha : reading.Admits Seen.start tr) :
    ∀ a ∈ (reading.after Seen.start tr).armings,
      (a.Reaches ↔ a.WithinDay) ∧ ∀ planIds, armer = .console planIds → a.Reaches := by
  cases armer with
  | console planIds =>
    have hwp : (Armer.console planIds).prog.wp (armWindows Arming.Reaches) (fun _ _ => True)
        Seen.start :=
      Prog.wp_bind_of armSpecialMintPlansAction_wp (fun _ _ _ => trivial) fun _ _ _ => trivial
    intro a hmem
    have hreaches := armings_of_wp hwp hr ha a hmem
    exact ⟨iff_of_true hreaches hreaches.withinDay, fun _ _ => hreaches⟩
  | planner =>
    have hwp : Armer.planner.prog.wp (armWindows Arming.Settles) (fun _ _ => True) Seen.start :=
      Prog.wp_bind_of runAutoMintPlanner_wp (fun _ _ _ => trivial) fun _ _ _ => trivial
    intro a hmem
    exact ⟨armings_of_wp hwp hr ha a hmem, fun planIds h => by cases h⟩

/-! ### A sample -/

namespace Sample

/-- A pass of the planner over one stage. -/
def pass (startsAtMs : ℤ) : List (Event signature Thrown) × Except Thrown Unit :=
  Armer.planner.prog.exec (fun _ => answer [candidate "p" "s" startsAtMs]) 0

theorem pass_runs (startsAtMs : ℤ) :
    Armer.planner.prog.Runs (pass startsAtMs).1 (.finished (pass startsAtMs).2) :=
  Prog.exec_runs _ _ _

theorem pass_admits (startsAtMs : ℤ) : reading.Admits Seen.start (pass startsAtMs).1 := by
  refine Prog.exec_admits (fun t n c => ?_) _ _ _
  cases c with
  | autoMintCandidateStages =>
    refine ⟨List.nodup_singleton _, fun s hs e he => ?_⟩
    obtain rfl := List.mem_singleton.mp hs
    exact absurd he (Option.not_mem_none e)
  | _ => exact trivial

end Sample

/-- A stage that opens in an hour: the plan is armed for a day. -/
theorem reaches_iff_anHour :
    (⟨0, some 3600000, 1440⟩ : Arming).Reaches ↔ (⟨0, some 3600000, 1440⟩ : Arming).WithinDay := by
  have h := reaches_iff .planner (Sample.pass_runs 3600000) (Sample.pass_admits 3600000)
    ⟨0, some 3600000, 1440⟩ (by decide +kernel)
  exact h.1

/-- A stage that opens in two days: its plan is armed for a day. -/
theorem twoDays_missed : ¬ ∀ (armer : Armer) (tr : List (Event signature Thrown))
    (en : Ending signature Thrown Unit), armer.prog.Runs tr en → reading.Admits Seen.start tr →
      ∀ a ∈ (reading.after Seen.start tr).armings, a.Reaches := by
  intro h
  have hreaches := h .planner _ _ (Sample.pass_runs 172800000) (Sample.pass_admits 172800000)
    ⟨0, some 172800000, 1440⟩ (by decide +kernel)
  exact absurd hreaches (by decide)

end PlanCreators
