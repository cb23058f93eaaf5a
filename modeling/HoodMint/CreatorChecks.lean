/-
What the makers of mint plans ask about a phase before they plan it.

* `Phase` — what a wallet needs one plan for;
* `checks` — what one program has found of the phases it has asked about, as a monitor;
* `unasked_createMintPlanAction`, `unasked_armSpecialMintPlansAction` — the ordinary form and the
  console's arming ask about none;
* `createSpecialMintAction_wp`, `runAutoMintPlanner_checks` — the console and the planner do, and
  leave alone what they have found taken;
* `prog_safe` — so every program does.
-/
import HoodMint.PlanCreators

namespace PlanCreators

open AutoMint Effect MintAllowance

open MintWorker (CreateMintPlanInput MintPlan)

/-! ### Phases -/

/-- What a wallet needs one plan for: a stage of a project, or none for a typed fire time. -/
structure Phase where
  projectId : String
  stageId : Option String
  walletId : String
deriving DecidableEq

def planPhase (r : MintPlan) : Phase := ⟨r.projectId, r.stageId, r.walletId⟩

def inputPhase (input : CreateMintPlanInput) : Phase :=
  ⟨input.projectId, input.stageId, input.walletId⟩

/-! ### What one program has found -/

/-- Whether the program is the planner, and whether it has found a phase free: `none` when it has
not asked. -/
structure Here where
  planner : Bool
  found : Phase → Option Bool

/-- The command asks about the phase. -/
def Cmd.asks : Cmd → Phase → Bool
  | .walletsWithLivePlanForStage projectId stageId, f =>
    f.projectId = projectId ∧ f.stageId = stageId
  | .blockingPlanExists walletId stageId, f => f.walletId = walletId ∧ f.stageId = some stageId
  | _, _ => false

/-- The answer to it leaves the phase free. -/
def frees : (c : Cmd) → c.Resp → Phase → Bool
  | .walletsWithLivePlanForStage .., live, f => f.walletId ∉ live
  | .blockingPlanExists .., blocking, _ => ! blocking
  | _, _, _ => false

/-- No phase is planned that has been found taken. -/
def checks : Monitor signature Thrown Here where
  guard t c :=
    match c with
    | .createMintPlan input => t.found (inputPhase input) ≠ some false
    | _ => True
  allowed _ _ _ := True
  next t c x :=
    match x with
    | .ok a => { t with found := fun f => if c.asks f then some (frees c a f) else t.found f }
    | .error _ => t

/-- Who makes and arms plans. -/
inductive Party
  | ordinary (form : MintPlanForm)
  | console (freeStageCap : ℕ) (form : SpecialMintForm)
  | arming (planIds : List String)
  | planner

/-- The program of it, its result dropped. -/
def Party.prog : Party → Creator Unit
  | .ordinary form => do
    let _ ← createMintPlanAction form
  | .console freeStageCap form => do
    let _ ← createSpecialMintAction freeStageCap form
  | .arming planIds => do
    let _ ← armSpecialMintPlansAction planIds
  | .planner => do
    let _ ← runAutoMintPlanner

/-- What it knows when it starts. -/
def Party.here (party : Party) : Here :=
  ⟨match party with
    | .planner => true
    | _ => false, fun _ => none⟩

/-! ### Programs that do not ask -/

/-- The command asks about no phase. -/
def Cmd.Unasked : Cmd → Prop
  | .walletsWithLivePlanForStage .. | .blockingPlanExists .. => False
  | _ => True

abbrev Unasked {α : Type} (p : Creator α) : Prop := p.Only (S := signature) Cmd.Unasked

section

variable {α : Type} {t : Here} {c : Cmd}

theorem unasked_ask (h : c.Unasked) : Unasked (ask c) := Prog.Only.issue h

theorem Cmd.Plain.unasked (h : c.Plain) : c.Unasked := by
  cases c <;> first | exact trivial | exact absurd h id

theorem unasked_of_plain {p : Creator α} (h : Plain p) : Unasked p :=
  h.mono fun _ => Cmd.Plain.unasked

theorem Cmd.Unasked.asks (h : c.Unasked) (f : Phase) : c.asks f = false := by
  cases c <;> first | rfl | exact absurd h id

/-- A command that does not ask finds nothing. -/
theorem unasked_next (c : Cmd) (h : c.Unasked) (x : Except Thrown c.Resp) :
    checks.next t c x = t := by
  cases x with
  | error e => rfl
  | ok a =>
    have hfound : (fun f => if c.asks f then some (frees c a f) else t.found f) = t.found := by
      funext f
      rw [h.asks f, if_neg Bool.false_ne_true]
    show { t with found := _ } = t
    rw [hfound]

/-- A program that does not ask plans what it has not found taken. -/
theorem unasked_wp {p : Creator α} (h : Unasked p) (ht : ∀ f, t.found f = none) :
    p.wp checks (fun _ t' => t' = t) t := by
  refine Prog.Only.wp (I := fun t' => t' = t) h ?_ ?_ rfl
  · rintro t' c hc rfl
    cases c with
    | createMintPlan input =>
      show t'.found _ ≠ some false
      rw [ht]
      exact Option.some_ne_none false ∘ Eq.symm
    | _ => exact trivial
  · rintro t' c x hc rfl _
    exact unasked_next c hc x

end

section

variable {actor projectId : String} {action : AuditAction} {inputs : List CreateMintPlanInput}
  {picked : Option String} {valid : String → Bool}

theorem unasked_pickedStage : Unasked (pickedStage projectId picked valid) := by
  rw [pickedStage]
  split
  · exact .pure _
  · split
    · exact .pure _
    · refine Prog.Only.bind (unasked_ask trivial) fun stage => ?_
      split
      · exact .pure _
      · split
        · exact .pure _
        · exact .pure _

theorem unasked_pickedSigner : Unasked (pickedSigner picked) := by
  rw [pickedSigner]
  split
  · exact .pure _
  · split
    · exact .pure _
    · refine Prog.Only.bind (unasked_ask trivial) fun signer => ?_
      split
      · exact .pure _
      · exact .pure _

theorem unasked_createDrafts : Unasked (createDrafts actor action inputs) := by
  induction inputs with
  | nil => exact .pure _
  | cons input inputs ih =>
    refine Prog.Only.bind ?_ fun _ => ih
    exact Prog.Only.bind (unasked_ask trivial) fun _ => unasked_ask trivial

theorem unasked_createMintPlanAction {form : MintPlanForm} :
    Unasked (createMintPlanAction form) := by
  refine Prog.Only.bind (Prog.Only.attempt (unasked_ask trivial)) fun actor => ?_
  split
  · exact .pure _
  · split
    · exact .pure _
    · refine unasked_pickedStage.bind fun stage => ?_
      split
      · exact .pure _
      · refine unasked_pickedSigner.bind fun signer => ?_
        split
        · exact .pure _
        · exact unasked_createDrafts.bind fun _ => .pure _

theorem unasked_fundAndArm {plan : MintPlan} {stage : Option Eligibility.StageRow}
    {windowMinutes : ℤ} {warnings : List ArmWarning} {quantity : ℕ} {clamped : Bool} :
    Unasked (fundAndArm actor plan stage windowMinutes warnings quantity clamped) := by
  refine Prog.Only.bind (unasked_ask trivial) fun funding => ?_
  split
  · exact unasked_of_plain plain_refuseArm
  · refine Prog.Only.bind (unasked_ask trivial) fun armed => ?_
    split
    · exact Prog.Only.bind (unasked_ask trivial) fun _ => .pure _
    · exact .pure _

theorem unasked_gateAndArm {caches : ArmCaches} {plan : MintPlan}
    {stage : Option Eligibility.StageRow} {windowMinutes : ℤ} :
    Unasked (gateAndArm caches actor plan stage windowMinutes) := by
  have hrefuse : ∀ (problem : ArmProblem) (caches' : ArmCaches), Unasked
      (refuseArm actor plan.id problem >>= fun r => (pure (r, caches') : Creator _)) :=
    fun problem caches' => (unasked_of_plain plain_refuseArm).bind fun _ => .pure _
  rw [gateAndArm]
  split
  · exact hrefuse _ _
  · refine (unasked_of_plain plain_eligibilityGate).bind ?_
    rintro ⟨status | warnings, caches⟩
    · exact hrefuse _ _
    · refine (unasked_of_plain plain_allowanceGate).bind ?_
      rintro ⟨problem | ⟨quantity, clamped⟩, caches⟩
      · cases problem with
        | exhausted => exact hrefuse _ _
        | _ => exact .pure _
      · exact unasked_fundAndArm.bind fun _ => .pure _

theorem unasked_armPlan {caches : ArmCaches} {now : ℤ} {planId : String} :
    Unasked (armPlan caches actor now planId) := by
  rw [armPlan]
  split
  · exact .pure _
  · refine Prog.Only.bind (unasked_ask trivial) fun plan => ?_
    split
    · exact .pure _
    · refine Prog.Only.bind ?_ fun stage => ?_
      · rw [stageOfPlan]
        split
        · exact .pure _
        · exact unasked_ask trivial
      · split
        · exact (unasked_of_plain plain_refuseArm).bind fun _ => .pure _
        · exact unasked_gateAndArm

theorem unasked_armPlans {now : ℤ} {planIds : List String} {caches : ArmCaches} :
    Unasked (armPlans actor now planIds caches) := by
  induction planIds generalizing caches with
  | nil => exact .pure _
  | cons planId planIds ih =>
    rw [armPlans]
    refine unasked_armPlan.bind ?_
    rintro ⟨outcome, caches⟩
    exact ih.bind fun _ => .pure _

theorem unasked_armSpecialMintPlansAction {planIds : List String} :
    Unasked (armSpecialMintPlansAction planIds) := by
  refine Prog.Only.bind (Prog.Only.attempt (unasked_ask trivial)) fun actor => ?_
  split
  · exact .pure _
  · dsimp only
    split
    · exact .pure _
    · split
      · exact .pure _
      · refine Prog.Only.bind (unasked_ask trivial) fun now => ?_
        exact unasked_armPlans.bind fun _ => .pure _

theorem unasked_typedFireAt {value : Option String} : Unasked (typedFireAt value) := by
  rw [typedFireAt]
  split
  · exact .pure _
  · split
    · exact .pure _
    · refine Prog.Only.bind (unasked_ask trivial) fun now => ?_
      split
      · exact .pure _
      · exact .pure _

theorem unasked_managedSelections {wallets : List SpecialMintWalletInput} :
    Unasked (managedSelections wallets) := by
  rw [managedSelections]
  split
  · exact .pure _
  · split
    · exact .pure _
    · split
      · exact .pure _
      · refine Prog.Only.bind (unasked_ask trivial) fun listed => ?_
        dsimp only
        split
        · exact .pure _
        · exact .pure _

end

/-! ### Programs that ask -/

section

variable {t : Here} {projectId : String}

/-- Of the wallets that are planned for a phase none has been found taken. -/
def Here.Clear (t : Here) (projectId : String) (stageId : Option String)
    (selections : List Selection) : Prop :=
  ∀ s ∈ selections, t.found ⟨projectId, stageId, s.walletId⟩ ≠ some false

/-- What is left of the selections has not been found taken. -/
theorem freshSelections_wp {stageId : Option String} {selections : List Selection}
    (ht : ∀ f, t.found f = none) :
    (freshSelections projectId stageId selections).wp checks
      (Prog.onReturn fun fresh t' => t'.Clear projectId stageId fresh) t := by
  refine Prog.wp_bind.mpr (Prog.wp_attempt.mpr (Prog.wp_issue.mpr ⟨trivial, ?_⟩))
  rintro (e | live) _
  · intro s _
    show t.found _ ≠ some false
    rw [ht]
    exact Option.some_ne_none false ∘ Eq.symm
  · intro s hs
    have hfree : s.walletId ∉ orNothing (.ok live) := of_decide_eq_true (List.mem_filter.mp hs).2
    have hfound : (checks.next t (.walletsWithLivePlanForStage projectId stageId) (.ok live)).found
        ⟨projectId, stageId, s.walletId⟩ = some (decide (s.walletId ∉ orNothing (.ok live))) :=
      if_pos (by simp [Cmd.asks])
    rw [hfound, decide_eq_true hfree]
    decide

/-- Sizing keeps to the wallets selected. -/
theorem sizedSelections_wp {caps : List (String × ℕ)} {stage : Option Eligibility.StageRow}
    {stageId : Option String} {selections : List Selection}
    (ht : t.Clear projectId stageId selections) :
    (sizedSelections projectId caps stage selections).wp checks
      (Prog.onReturn fun sized t' => t'.Clear projectId stageId sized) t := by
  rw [sizedSelections]
  split
  · exact ht
  · refine Prog.wp_bind_of (R := fun _ t' => t' = t) ?_ ?_ fun _ _ _ => trivial
    · exact Prog.wp_attempt.mpr (Prog.wp_issue.mpr ⟨trivial, fun x _ =>
        unasked_next (.walletMintTotalsForProject _) trivial x⟩)
    rintro totals _ rfl s hs
    obtain ⟨s', hs', hsize⟩ := List.mem_filterMap.mp hs
    dsimp only at hsize
    split at hsize
    · exact absurd hsize.symm (Option.some_ne_none s)
    · obtain rfl := Option.some_inj.mp hsize
      exact ht s' hs'

/-- Drafts of phases that have not been found taken. -/
theorem createDrafts_wp {actor : String} {action : AuditAction}
    {inputs : List CreateMintPlanInput}
    (ht : ∀ input ∈ inputs, t.found (inputPhase input) ≠ some false) :
    (createDrafts actor action inputs).wp checks (fun _ _ => True) t := by
  induction inputs with
  | nil => exact trivial
  | cons input inputs ih =>
    rw [createDrafts]
    have hdraft : (createDraft actor action input).wp checks (fun _ t' => t' = t) t := by
      refine Prog.wp_issue_bind (ht input List.mem_cons_self) (fun id _ => ?_) fun e _ => ?_
      · refine Prog.wp_issue.mpr ⟨trivial, fun x _ => ?_⟩
        exact (unasked_next (.recordAudit _) trivial x).trans
          (unasked_next (.createMintPlan input) trivial (.ok id))
      · exact unasked_next (.createMintPlan input) trivial (.error e)
    refine Prog.wp_bind_of hdraft ?_ fun _ _ _ => trivial
    rintro _ _ rfl
    exact ih fun input hinput => ht input (List.mem_cons_of_mem _ hinput)

theorem createSpecialDrafts_wp {freeStageCap : ℕ} {actor : String}
    {stage : Option Eligibility.StageRow} {fireAt : Option ℤ} {ceilingWei : ℕ}
    {selections : List Selection} (ht : ∀ f, t.found f = none) :
    (createSpecialDrafts freeStageCap actor projectId stage fireAt ceilingWei selections).wp checks
      (fun _ _ => True) t := by
  have hcaps : Unasked (capsOfStage stage) := by
    cases stage with
    | none => exact .pure _
    | some stage => exact unasked_ask trivial
  rw [createSpecialDrafts]
  refine Prog.wp_bind_of (unasked_wp hcaps ht) ?_ fun _ _ _ => trivial
  rintro caps _ rfl
  refine Prog.wp_bind_of (freshSelections_wp ht) (fun fresh t' hfresh => ?_) fun _ _ _ => trivial
  refine Prog.wp_ite (fun _ => trivial) fun _ => ?_
  refine Prog.wp_bind_of (sizedSelections_wp hfresh) (fun planned t' hplanned => ?_)
    fun _ _ _ => trivial
  refine Prog.wp_ite (fun _ => trivial) fun _ => ?_
  refine Prog.wp_bind_of (createDrafts_wp ?_) (fun _ _ _ => trivial) fun _ _ _ => trivial
  intro input hinput
  obtain ⟨s, hs, rfl⟩ := List.mem_map.mp hinput
  exact hplanned s hs

/-- The console plans no phase that it has found taken. -/
theorem createSpecialMintAction_wp {freeStageCap : ℕ} {form : SpecialMintForm}
    (ht : ∀ f, t.found f = none) :
    (createSpecialMintAction freeStageCap form).wp checks (fun _ _ => True) t := by
  -- until the drafts nothing is asked
  have hbind : ∀ {α β : Type} {p : Creator α} {f : α → Creator β}, Unasked p →
      (∀ a, (f a).wp checks (fun _ _ => True) t) →
        (p >>= f).wp checks (fun _ _ => True) t := by
    intro α β p f hp hf
    refine Prog.wp_bind_of (unasked_wp hp ht) ?_ fun _ _ _ => trivial
    rintro a _ rfl
    exact hf a
  refine hbind (Prog.Only.attempt (unasked_ask trivial)) fun actor => ?_
  split
  · exact trivial
  · split
    · exact trivial
    · split
      · exact trivial
      · refine hbind unasked_pickedStage fun stage => ?_
        split
        · exact trivial
        · refine hbind unasked_typedFireAt fun fireAt => ?_
          split
          · exact trivial
          · split
            · exact trivial
            · refine hbind unasked_managedSelections fun selections => ?_
              split
              · exact trivial
              · exact createSpecialDrafts_wp ht

/-- The planner asks about every phase it plans. -/
theorem planStages_checks {policy : AutoMintPolicy} {owner walletId : String} {nowMs budget : ℤ}
    {stages : List AutoMintCandidate} {summary : AutoMintSummary} :
    (planStages policy owner nowMs walletId stages budget summary).wp checks
      (fun _ _ => True) t := by
  induction stages generalizing budget summary t with
  | nil => exact trivial
  | cons s stages ih =>
    rw [planStages]
    refine Prog.wp_ite (fun _ => trivial) fun _ => ?_
    split
    · exact ih
    · refine Prog.wp_issue_bind trivial (fun (blocking : Bool) _ => ?_) fun _ _ => trivial
      refine Prog.wp_ite (fun _ => ih) fun hfree => ?_
      refine Prog.wp_issue_bind trivial (fun (attempts : ℕ) _ => ?_) fun _ _ => trivial
      refine Prog.wp_ite (fun _ => ih) fun _ => ?_
      refine Prog.wp_bind_of (R := fun _ _ => True) ?_ (fun _ _ _ => ih) fun _ _ _ => trivial
      refine Prog.wp_issue_bind ?_ (fun id _ => ?_) fun _ _ => trivial
      · have hfound : (checks.next t (.blockingPlanExists walletId s.stageId) (.ok blocking)).found
            ⟨s.projectId, some s.stageId, walletId⟩ = some (! blocking) :=
          if_pos (by simp [Cmd.asks])
        have htaken : some (! blocking) ≠ some false := by simpa using hfree
        exact fun h => htaken (hfound.symm.trans h)
      · refine Prog.wp_issue_bind trivial (fun armed _ => ?_) fun _ _ => trivial
        exact Prog.wp_issue.mpr ⟨trivial, fun _ _ => trivial⟩

theorem planWallets_checks {policy : AutoMintPolicy} {owner : String} {nowMs : ℤ}
    {stages : List AutoMintCandidate} {wallets : List String} {summary : AutoMintSummary} :
    (planWallets policy owner nowMs stages wallets summary).wp checks (fun _ _ => True) t := by
  induction wallets generalizing summary t with
  | nil => exact trivial
  | cons walletId wallets ih =>
    rw [planWallets]
    refine Prog.wp_issue_bind trivial (fun executedToday _ => ?_) fun _ _ => trivial
    exact Prog.wp_bind_of planStages_checks (fun _ _ _ => ih) fun _ _ _ => trivial

theorem runAutoMintPlanner_checks : runAutoMintPlanner.wp checks (fun _ _ => True) t := by
  refine Prog.wp_issue_bind trivial (fun stored _ => ?_) fun _ _ => trivial
  split
  · exact trivial
  · split
    · refine Prog.wp_issue_bind trivial (fun wallets _ => ?_) fun _ _ => trivial
      refine Prog.wp_ite (fun _ => trivial) fun _ => ?_
      refine Prog.wp_issue_bind trivial (fun nowMs _ => ?_) fun _ _ => trivial
      refine Prog.wp_issue_bind trivial (fun stages _ => ?_) fun _ _ => trivial
      exact planWallets_checks
    · exact trivial

/-- **Every program** leaves alone what it has found taken. -/
theorem prog_safe (party : Party) :
    party.prog.wp checks (fun _ _ => True) party.here := by
  have hnone : ∀ f, party.here.found f = none := fun _ => rfl
  cases party with
  | ordinary form =>
    exact Prog.wp_bind_of (unasked_wp unasked_createMintPlanAction hnone) (fun _ _ _ => trivial)
      fun _ _ _ => trivial
  | console freeStageCap form =>
    exact Prog.wp_bind_of (createSpecialMintAction_wp hnone) (fun _ _ _ => trivial)
      fun _ _ _ => trivial
  | arming planIds =>
    exact Prog.wp_bind_of (unasked_wp unasked_armSpecialMintPlansAction hnone)
      (fun _ _ _ => trivial) fun _ _ _ => trivial
  | planner =>
    exact Prog.wp_bind_of runAutoMintPlanner_checks (fun _ _ _ => trivial) fun _ _ _ => trivial

end

end PlanCreators
