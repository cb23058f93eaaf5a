/-
Runs of those who make and arm mint plans, over the plans they share.

The ordinary form, the special-mints console and the planner interleave at every command
(`HoodMint.Lib.Interleave`), with the statements of the operators and of the workers that fire,
expire and end plans between them.  A statement that fails has not been executed.

* `CreatorWorld`, `creatorWorld` — the plans, the answers they give, and what the commands change,
  as a monitor;
* `CreatorRun`, `step` — the system, and what is noted beside it;
* `next_cases` — what a command does to the plans is one statement, or nothing;
* `exec_live` — a statement that creates no plan brings none to life.
-/
import HoodMint.CreatorChecks
import HoodMint.Lib.Interleave
import HoodMint.PlanLifecycle

namespace PlanCreators

open AutoMint Effect MintAllowance Relational

open MintWorker (CreateMintPlanInput MintPlan MintPlans Move PlanDb PlanStatement PlanStatus)

/-- A plan in `draft`, `armed` or `executing`. -/
def isLive (status : PlanStatus) : Bool := status = .draft ∨ status = .armed ∨ status = .executing

theorem isLive_iff {status : PlanStatus} : isLive status = true ↔ ¬ status.Terminal := by
  cases status <;> decide

/-! ### What the plans answer -/

section

variable (plans : MintPlans) (now : ℤ)

/-- `walletsWithLivePlanForStage`. -/
def walletsWithLivePlanForStage (projectId : String) (stageId : Option String) : List String :=
  (plans.rows.filter fun r =>
    r.projectId = projectId ∧ r.stageId = stageId ∧ isLive r.status).map (·.walletId)

/-- `blockingPlanExists`. -/
def blockingPlanExists (walletId stageId : String) : Bool :=
  plans.rows.any fun r => r.walletId = walletId ∧ r.stageId = some stageId ∧
    (isLive r.status ∨ r.status = .executed)

/-- `attemptsForStage`. -/
def attemptsForStage (walletId stageId : String) : ℕ :=
  plans.rows.countP fun r => r.walletId = walletId ∧ r.stageId = some stageId

/-- `executedLast24h`. -/
def executedLast24h (walletId : String) : ℕ :=
  plans.rows.countP fun r =>
    r.walletId = walletId ∧ r.status = .executed ∧ r.updatedAt > now - 24 * 60 * 60000

/-- The plan is a draft. -/
def isDraft (planId : String) : Bool := plans.rows.any fun r => r.id = planId ∧ r.status = .draft

end

/-! ### What is shared -/

/-- The plans with the ids that have been given to any, and the clock. -/
structure CreatorWorld where
  db : PlanDb
  issued : List String
  nowMs : ℤ

/-- A statement of the plans. -/
def CreatorWorld.exec (w : CreatorWorld) (s : PlanStatement) : CreatorWorld :=
  { w with db := w.db.exec s }

/-- The plans answer what they hold, and no id is given twice; every stored policy allows a wallet
`cap` mints a day. -/
def creatorWorld (cap : ℕ) : Monitor signature Thrown CreatorWorld where
  guard _ _ := True
  allowed w c x :=
    match c, x with
    | .now, .ok nowMs => nowMs = w.nowMs
    | .loadPolicy, .ok stored =>
      stored.elim True fun o => (parseAutoMintPolicy o).maxPerWalletPerDay = cap
    | .walletsWithLivePlanForStage projectId stageId, .ok live =>
      live = walletsWithLivePlanForStage w.db.plans projectId stageId
    | .blockingPlanExists walletId stageId, .ok blocking =>
      blocking = blockingPlanExists w.db.plans walletId stageId
    | .attemptsForStage walletId stageId, .ok attempts =>
      attempts = attemptsForStage w.db.plans walletId stageId
    | .executedLast24h walletId, .ok executed =>
      executed = executedLast24h w.db.plans w.nowMs walletId
    | .createMintPlan _, .ok id => id ∉ w.issued
    | .armMintPlan planId .., .ok armed => armed = isDraft w.db.plans planId
    | .setDraftMintPlanQuantity planId quantity, .ok stored =>
      stored = if isDraft w.db.plans planId then some quantity else none
    | _, _ => True
  next w c x :=
    match c, x with
    | .createMintPlan input, .ok id =>
      { w.exec (.createMintPlan id input w.nowMs) with issued := id :: w.issued }
    | .armMintPlan planId user windowMinutes, .ok _ =>
      w.exec (.armMintPlan planId user windowMinutes w.nowMs w.nowMs w.nowMs)
    | .setDraftMintPlanQuantity planId quantity, .ok _ =>
      w.exec (.setDraftMintPlanQuantity planId quantity w.nowMs)
    | _, _ => w

instance (cap : ℕ) (w : CreatorWorld) (c : Cmd) (x : Except Thrown c.Resp) :
    Decidable ((creatorWorld cap).allowed w c x) := by
  induction c using Cmd.casesOn with
  | now =>
    exact match x with
      | .error _ => isTrue trivial
      | .ok nowMs => (inferInstance : Decidable (nowMs = w.nowMs))
  | loadPolicy =>
    exact match x with
      | .error _ => isTrue trivial
      | .ok none => isTrue trivial
      | .ok (some o) =>
        (inferInstance : Decidable ((parseAutoMintPolicy o).maxPerWalletPerDay = cap))
  | walletsWithLivePlanForStage projectId stageId =>
    exact match x with
      | .error _ => isTrue trivial
      | .ok live => (inferInstance : Decidable (live =
          walletsWithLivePlanForStage w.db.plans projectId stageId))
  | blockingPlanExists walletId stageId =>
    exact match x with
      | .error _ => isTrue trivial
      | .ok blocking => (inferInstance : Decidable (blocking =
          blockingPlanExists w.db.plans walletId stageId))
  | attemptsForStage walletId stageId =>
    exact match x with
      | .error _ => isTrue trivial
      | .ok attempts => (inferInstance : Decidable (attempts =
          attemptsForStage w.db.plans walletId stageId))
  | executedLast24h walletId =>
    exact match x with
      | .error _ => isTrue trivial
      | .ok executed => (inferInstance : Decidable (executed =
          executedLast24h w.db.plans w.nowMs walletId))
  | createMintPlan input =>
    exact match x with
      | .error _ => isTrue trivial
      | .ok id => (inferInstance : Decidable (id ∉ w.issued))
  | armMintPlan planId user windowMinutes =>
    exact match x with
      | .error _ => isTrue trivial
      | .ok armed => (inferInstance : Decidable (armed = isDraft w.db.plans planId))
  | setDraftMintPlanQuantity planId quantity =>
    exact match x with
      | .error _ => isTrue trivial
      | .ok stored => (inferInstance : Decidable (stored =
          if isDraft w.db.plans planId then some quantity else none))
  | _ => exact isTrue trivial

/-! ### The system -/

/-- A plan of the planner has been executed. -/
structure Execution where
  walletId : String
  nowMs : ℤ
deriving DecidableEq

/-- The plans and the programs under way.  Beside them are noted whether anyone has planned a phase
since a program has asked about it last, the plans of the planner, and their executions. -/
structure CreatorRun where
  world : CreatorWorld
  tasks : List (Task signature Thrown Unit Here)
  since : ℕ → Phase → Bool
  planned : List String
  executed : List Execution

/-- What can happen.  A program that crashes issues no further command. -/
inductive CreatorStep
  | start (party : Party)
  | advance (i : ℕ) (answer : (c : Cmd) → Except Thrown c.Resp)
  | crash (i : ℕ)
  | statement (s : PlanStatement)
  | clock (nowMs : ℤ)

/-- The command plans the phase. -/
def Cmd.plans : Cmd → Phase → Bool
  | .createMintPlan input, f => f = inputPhase input
  | _, _ => false

/-- The statement creates no plan. -/
def creates : PlanStatement → Bool
  | .createMintPlan .. => true
  | _ => false

namespace CreatorRun

variable (d : CreatorRun)

/-- Who has planned what, after a command of the `i`-th program. -/
def sinceAfter (i : ℕ) (c : Cmd) (x : Except Thrown c.Resp) : ℕ → Phase → Bool :=
  match x with
  | .error _ => d.since
  | .ok _ => fun j f => c.plans f || (d.since j f && ! (j = i && c.asks f))

/-- The plans of the planner, after a command. -/
def plannedAfter (here : Here) (c : Cmd) (x : Except Thrown c.Resp) : List String :=
  match c, x with
  | .createMintPlan _, .ok id => if here.planner then id :: d.planned else d.planned
  | _, _ => d.planned

/-- The plan is one of the planner's, and executing. -/
def fires (planId : String) : Option MintPlan :=
  (d.world.db.plans.get? planId).filter fun r => r.status = .executing ∧ planId ∈ d.planned

/-- The executions of the planner's plans, after a statement. -/
def executedAfter : PlanStatement → List Execution
  | .markMintPlanExecuted planId _ =>
    (d.fires planId).elim d.executed fun r => ⟨r.walletId, d.world.nowMs⟩ :: d.executed
  | _ => d.executed

/-- One step. -/
def step (cap : ℕ) (d : CreatorRun) : CreatorStep → Option CreatorRun
  | .start party => some { d with tasks := d.tasks ++ [⟨party.prog, party.here⟩] }
  | .advance i answer =>
    match d.tasks[i]? with
    | some ⟨.call c k, here⟩ =>
      if (creatorWorld cap).allowed d.world c (answer c) then
        some { d with
          world := (creatorWorld cap).next d.world c (answer c)
          tasks := d.tasks.set i ⟨k (answer c), checks.next here c (answer c)⟩
          since := d.sinceAfter i c (answer c)
          planned := d.plannedAfter here c (answer c) }
      else none
    | _ => none
  | .crash i => d.tasks[i]?.map fun t => { d with tasks := d.tasks.set i ⟨.ret (), t.here⟩ }
  | .statement s =>
    if creates s then none
    else some { d with world := d.world.exec s, executed := d.executedAfter s }
  | .clock nowMs =>
    if d.world.nowMs ≤ nowMs then some { d with world := { d.world with nowMs } } else none

/-- No plan, and no program under way. -/
def init : CreatorRun := ⟨⟨⟨.empty, .empty⟩, [], 0⟩, [], fun _ _ => false, [], []⟩

/-- A condition on the command a step issues, and on its answer, in the state before. -/
def OnCommand (φ : CreatorRun → ℕ → Here → (c : Cmd) → Except Thrown c.Resp → Prop)
    (d : CreatorRun) : CreatorStep → Prop
  | .advance i answer => AtCommand d.tasks i answer (φ d i)
  | _ => True

instance (φ : CreatorRun → ℕ → Here → (c : Cmd) → Except Thrown c.Resp → Prop)
    [∀ d i here c x, Decidable (φ d i here c x)] (d : CreatorRun) :
    DecidablePred (OnCommand φ d) := fun l =>
  match l with
  | .advance i answer =>
    (inferInstance : Decidable (AtCommand (S := signature) d.tasks i answer (φ d i)))
  | .start _ | .crash _ | .statement _ | .clock _ => isTrue trivial

end CreatorRun

/-! ### What a step does to the plans -/

section

variable {cap : ℕ} {w : CreatorWorld} {c : Cmd} {x : Except Thrown c.Resp} {db : PlanDb}
  {s : PlanStatement} {r r' : MintPlan}

/-- A command that plans nothing is one statement, or none. -/
theorem next_cases (hc : ∀ input, c ≠ .createMintPlan input) :
    (creatorWorld cap).next w c x = w ∨
      ∃ s, creates s = false ∧ (creatorWorld cap).next w c x = w.exec s := by
  cases c with
  | createMintPlan input => exact absurd rfl (hc input)
  | armMintPlan planId user windowMinutes =>
    cases x with
    | error => exact Or.inl rfl
    | ok => exact Or.inr ⟨_, rfl, rfl⟩
  | setDraftMintPlanQuantity planId quantity =>
    cases x with
    | error => exact Or.inl rfl
    | ok => exact Or.inr ⟨_, rfl, rfl⟩
  | _ => exact Or.inl (by cases x <;> rfl)

/-- What no statement changes of a plan. -/
def tag (r : MintPlan) : String × Phase := (r.id, planPhase r)

theorem update_tags {p : MintPlan → Prop} [DecidablePred p] {f : MintPlan → MintPlan}
    {plans : MintPlans} (hf : ∀ r, (f r).id = r.id) (htag : ∀ r, tag (f r) = tag r) :
    (plans.update p f hf).rows.map tag ⊆ plans.rows.map tag := by
  rw [Table.map_update htag]
  exact List.Subset.refl _

/-- A statement that creates no plan leaves the plans their phases. -/
theorem exec_tags (hs : creates s = false) :
    (db.exec s).plans.rows.map tag ⊆ db.plans.rows.map tag := by
  cases s with
  | createMintPlan => cases hs
  | deleteMintPlan id => exact List.map_subset _ (List.filter_subset_self _)
  | stages => exact List.Subset.refl _
  | claimArmedMintPlan now leaseMs leadMs dbNow locked =>
    show (MintPlans.claimArmedMintPlan ..).2.rows.map tag ⊆ _
    rw [MintPlans.claimArmedMintPlan]
    split
    · exact List.Subset.refl _
    · show (MintPlans.claimRow ..).rows.map tag ⊆ _
      rw [MintPlans.claimRow]
      exact update_tags _ fun _ => rfl
  | setDraftMintPlanQuantity planId quantity now =>
    show (MintPlans.setDraftMintPlanQuantity ..).rows.map tag ⊆ _
    rw [MintPlans.setDraftMintPlanQuantity]
    split
    · exact List.Subset.refl _
    · exact update_tags _ fun _ => rfl
  | _ => exact update_tags (by exact fun _ => rfl) fun _ => rfl

/-- A statement that creates no plan brings none to life. -/
theorem exec_live (hs : creates s = false) (hr' : r' ∈ (db.exec s).plans)
    (hlive : isLive r'.status = true) :
    ∃ r ∈ db.plans, r.id = r'.id ∧ planPhase r = planPhase r' ∧ isLive r.status = true := by
  obtain ⟨r, hr, htag⟩ := List.mem_map.mp (exec_tags hs (List.mem_map_of_mem hr'))
  obtain ⟨hid, hphase⟩ := Prod.mk.inj htag
  refine ⟨r, hr, hid, hphase, isLive_iff.mpr fun hended => ?_⟩
  -- what has ended stays as it is
  obtain ⟨hsame, hmove⟩ := MintWorker.exec_move hr hr' hid.symm
  have hstatus := (hmove.outlives hsame hended.ne_draft).terminal hended
  exact isLive_iff.mp hlive (hstatus ▸ hended)

/-- What a command does to the live plans: it plans a phase, or brings no plan to life. -/
theorem next_live (hc : ∀ input, c ≠ .createMintPlan input)
    (hr' : r' ∈ ((creatorWorld cap).next w c x).db.plans) (hlive : isLive r'.status = true) :
    ∃ r ∈ w.db.plans, r.id = r'.id ∧ planPhase r = planPhase r' ∧ isLive r.status = true := by
  rcases @next_cases cap w c x hc with hnext | ⟨s, hs, hnext⟩
  · rw [hnext] at hr'
    exact ⟨r', hr', rfl, rfl, hlive⟩
  · rw [hnext] at hr'
    exact exec_live hs hr' hlive

end

section

variable {cap : ℕ} {d d' : CreatorRun}

/-- A command of a program. -/
theorem step_advance_cases {i : ℕ} {answer : (c : Cmd) → Except Thrown c.Resp}
    (h : d.step cap (.advance i answer) = some d') :
    ∃ c k here, d.tasks[i]? = some ⟨.call c k, here⟩ ∧
      (creatorWorld cap).allowed d.world c (answer c) ∧
      d' = { d with
        world := (creatorWorld cap).next d.world c (answer c)
        tasks := d.tasks.set i ⟨k (answer c), checks.next here c (answer c)⟩
        since := d.sinceAfter i c (answer c)
        planned := d.plannedAfter here c (answer c) } := by
  simp only [CreatorRun.step] at h
  split at h
  · next c k here hi =>
    split at h
    · next hx => exact ⟨c, k, here, hi, hx, (Option.some_inj.mp h).symm⟩
    · exact absurd h.symm (Option.some_ne_none d')
  · exact absurd h.symm (Option.some_ne_none d')

end

end PlanCreators
