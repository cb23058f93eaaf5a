/-
How many mints the planner executes for a wallet within a day.

* `livePlans`, `executions` — the planner's plans of a wallet that may still be executed, and those
  that have been within a day;
* `LeavesRoom` — what a run must spare the planner: to create a plan while these are as many as the
  policy allows already;
* `capped_step`, `executions_le_of_reach` — in runs that do, no more are executed within any day;
* `planner_exceeds` — a pass counts the plans executed and not those still armed, so that two
  passes plan twice as many.
-/
import HoodMint.CreatorRuns
import HoodMint.Lib.Rolling

namespace PlanCreators

open Effect Relational Rolling Transition

open MintWorker (CreateMintPlanInput MintPlan MintPlans PlanDb PlanStatement)

/-! ### What is counted -/

/-- A live plan of the planner, for the wallet. -/
def mayFire (planned : List String) (walletId : String) (r : MintPlan) : Bool :=
  r.walletId = walletId ∧ r.id ∈ planned ∧ isLive r.status

/-- The planner's plans of a wallet that may still be executed. -/
def livePlans (d : CreatorRun) (walletId : String) : ℕ :=
  d.world.db.plans.rows.countP (mayFire d.planned walletId)

/-- The planner's plans of a wallet that were executed within a day, up to `t`. -/
def executions (d : CreatorRun) (walletId : String) (t : ℤ) : ℕ :=
  rolling Execution.nowMs (24 * 60 * 60000) t (d.executed.filter fun e => e.walletId = walletId)

/-- The planner creates a plan for a wallet only while the plans that may be executed, and those
that have been, are fewer than `cap`. -/
def LeavesRoom (cap : ℕ) (d : CreatorRun) (_ : ℕ) (here : Here) (c : Cmd)
    (x : Except Thrown c.Resp) : Prop :=
  match c, x with
  | .createMintPlan input, .ok _ => here.planner = true →
    executions d input.walletId d.world.nowMs + livePlans d input.walletId < cap
  | _, _ => True

instance (cap : ℕ) (d : CreatorRun) (i : ℕ) (here : Here) (c : Cmd) (x : Except Thrown c.Resp) :
    Decidable (LeavesRoom cap d i here c x) := by
  induction c using Cmd.casesOn with
  | createMintPlan input =>
    exact match x with
      | .error _ => isTrue trivial
      | .ok _ => (inferInstance : Decidable (here.planner = true →
          executions d input.walletId d.world.nowMs + livePlans d input.walletId < cap))
  | _ => exact isTrue trivial

/-! ### Live plans -/

section

variable {db : PlanDb} {s : PlanStatement} {planned : List String} {walletId : String}
  {r : MintPlan}

theorem mayFire_iff : mayFire planned walletId r = true ↔
    r.walletId = walletId ∧ r.id ∈ planned ∧ isLive r.status = true :=
  decide_eq_true_iff

/-- A statement that creates no plan makes the live ones no more. -/
theorem countP_exec_le (hs : creates s = false) :
    (db.exec s).plans.rows.countP (mayFire planned walletId) ≤
      db.plans.rows.countP (mayFire planned walletId) := by
  refine Table.countP_le_of_key fun r' hr' hfire => ?_
  obtain ⟨hwallet, hplanned, hlive⟩ := mayFire_iff.mp hfire
  obtain ⟨r, hr, hid, hphase, hrlive⟩ := exec_live hs hr' hlive
  have hsame : r.walletId = r'.walletId := congrArg Phase.walletId hphase
  exact ⟨r, hr, hid, mayFire_iff.mpr ⟨hsame.trans hwallet, hid ▸ hplanned, hrlive⟩⟩

/-- An executed plan is live no more. -/
theorem countP_executed_lt {now : ℤ} (hr : r ∈ db.plans) (hexecuting : r.status = .executing)
    (hplanned : r.id ∈ planned) :
    (db.exec (.markMintPlanExecuted r.id now)).plans.rows.countP (mayFire planned r.walletId) <
      db.plans.rows.countP (mayFire planned r.walletId) := by
  refine Table.countP_lt_of_key (k := r.id) (fun r' hr' hfire => ?_) hr rfl ?_
  · obtain ⟨hwallet, hplanned', hlive⟩ := mayFire_iff.mp hfire
    obtain ⟨r₀, hr₀, hid, hphase, hrlive⟩ := exec_live rfl hr' hlive
    have hsame : r₀.walletId = r'.walletId := congrArg Phase.walletId hphase
    have hfire₀ : mayFire planned r.walletId r₀ = true :=
      mayFire_iff.mpr ⟨hsame.trans hwallet, hid ▸ hplanned', hrlive⟩
    refine ⟨fun hkey => ?_, r₀, hr₀, hid, hfire₀⟩
    -- the row that has been executed is not live
    have hmem : r' ∈ db.plans.endExecution r.id .executed now := hr'
    rw [MintPlans.endExecution] at hmem
    rcases Table.update_cases hmem with ⟨r₁, _, _, rfl⟩ | ⟨hr', hnot⟩
    · cases hlive
    · obtain rfl := Table.eq_of_key hr' hr hkey
      exact hnot ⟨rfl, hexecuting⟩
  · exact mayFire_iff.mpr ⟨rfl, hplanned, isLive_iff.mpr (by rw [hexecuting]; decide)⟩

/-- A plan created is one more of its wallet, if it is the planner's. -/
theorem countP_create {plans : MintPlans} {id : String} {input : CreateMintPlanInput} {now : ℤ}
    {planned' : List String} (hnew : ∀ r ∈ plans, r.id ≠ id)
    (hold : ∀ r ∈ plans, (r.id ∈ planned' ↔ r.id ∈ planned)) :
    (plans.createMintPlan id input now).rows.countP (mayFire planned' walletId) =
      plans.rows.countP (mayFire planned walletId) +
        if input.walletId = walletId ∧ id ∈ planned' then 1 else 0 := by
  have hsame : plans.rows.countP (mayFire planned' walletId) =
      plans.rows.countP (mayFire planned walletId) := by
    refine List.countP_congr fun r hr => ?_
    rw [mayFire_iff, mayFire_iff, hold r hr]
  rw [MintPlans.createMintPlan, Table.insert_rows hnew, List.countP_cons, hsame]
  congr 1
  simp [mayFire, isLive]

end

/-! ### Runs -/

/-- Every id is known, every execution is past; of a wallet no more plans may be executed or have
been within the last day than the cap, and no more have been within any. -/
structure Capped (cap : ℕ) (d : CreatorRun) : Prop where
  rows : ∀ r ∈ d.world.db.plans, r.id ∈ d.world.issued
  planned : ∀ id ∈ d.planned, id ∈ d.world.issued
  past : ∀ e ∈ d.executed, e.nowMs ≤ d.world.nowMs
  room : ∀ walletId, executions d walletId d.world.nowMs + livePlans d walletId ≤ cap
  bounded : ∀ walletId t, executions d walletId t ≤ cap

section

variable {cap : ℕ} {d d' : CreatorRun} {c : Cmd} {x : Except Thrown c.Resp} {here : Here} {i : ℕ}
  {s : PlanStatement}

/-- The executions of one wallet are past as well. -/
theorem Capped.past_of (h : Capped cap d) (walletId : String) :
    ∀ e ∈ d.executed.filter fun e => e.walletId = walletId, e.nowMs ≤ d.world.nowMs :=
  fun e he => h.past e (List.mem_of_mem_filter he)

/-- The plans of before with fewer live ones, and no more executions. -/
theorem Capped.of_fewer (h : Capped cap d) (hexecuted : d'.executed = d.executed)
    (hnow : d'.world.nowMs = d.world.nowMs) (hplanned : d'.planned = d.planned)
    (hissued : d'.world.issued = d.world.issued)
    (hrows : ∀ r ∈ d'.world.db.plans, r.id ∈ d.world.issued)
    (hlive : ∀ walletId, livePlans d' walletId ≤ livePlans d walletId) : Capped cap d' := by
  have hsame : ∀ walletId t, executions d' walletId t = executions d walletId t := by
    intro walletId t
    rw [executions, executions, hexecuted]
  refine ⟨?_, ?_, ?_, fun walletId => ?_, fun walletId t => ?_⟩
  · rwa [hissued]
  · rw [hplanned, hissued]
    exact h.planned
  · rw [hexecuted, hnow]
    exact h.past
  · have hroom := h.room walletId
    have hle := hlive walletId
    rw [hsame, hnow]
    omega
  · rw [hsame]
    exact h.bounded walletId t

/-- The rows after a statement that creates none have ids of before. -/
theorem Capped.rows_exec (h : Capped cap d) (hs : creates s = false) :
    ∀ r ∈ (d.world.exec s).db.plans, r.id ∈ d.world.issued := by
  intro r hr
  obtain ⟨r₀, hr₀, htag⟩ := List.mem_map.mp (exec_tags hs (List.mem_map_of_mem hr))
  have hid : r₀.id = r.id := congrArg Prod.fst htag
  exact hid ▸ h.rows r₀ hr₀

/-- A plan is created. -/
theorem Capped.create (h : Capped cap d) {input : CreateMintPlanInput} {id : String}
    (hid : id ∉ d.world.issued) (hroom : LeavesRoom cap d i here (.createMintPlan input) (.ok id))
    {since : ℕ → Phase → Bool} {tasks : List (Task signature Thrown Unit Here)} :
    Capped cap { d with
      world := (creatorWorld cap).next d.world (.createMintPlan input) (.ok id)
      tasks, since
      planned := d.plannedAfter here (.createMintPlan input) (.ok id) } := by
  have hnew : ∀ r ∈ d.world.db.plans, r.id ≠ id := by
    rintro r hr rfl
    exact hid (h.rows r hr)
  have hmem : ∀ id', id' ∈ d.plannedAfter here (.createMintPlan input) (.ok id) ↔
      (here.planner = true ∧ id' = id) ∨ id' ∈ d.planned := by
    intro id'
    show id' ∈ (if here.planner then id :: d.planned else d.planned) ↔ _
    split
    · next hplanner => simp [hplanner]
    · next hplanner => simp [hplanner]
  refine ⟨fun r hr => ?_, fun id' hid' => ?_, h.past, fun walletId => ?_, h.bounded⟩
  · rcases Table.mem_insert.mp hr with hr | ⟨rfl, _⟩
    · exact List.mem_cons_of_mem _ (h.rows r hr)
    · exact List.mem_cons_self
  · rcases (hmem id').mp hid' with ⟨_, rfl⟩ | hid'
    · exact List.mem_cons_self
    · exact List.mem_cons_of_mem _ (h.planned id' hid')
  · have hcount : (d.world.db.plans.createMintPlan id input d.world.nowMs).rows.countP
        (mayFire (d.plannedAfter here (.createMintPlan input) (.ok id)) walletId) =
          livePlans d walletId + if input.walletId = walletId ∧
            id ∈ d.plannedAfter here (.createMintPlan input) (.ok id) then 1 else 0 := by
      refine countP_create hnew fun r hr => ?_
      rw [hmem]
      simp [hnew r hr]
    have hbefore := h.room walletId
    show executions d walletId d.world.nowMs +
      (d.world.db.plans.createMintPlan id input d.world.nowMs).rows.countP
        (mayFire (d.plannedAfter here (.createMintPlan input) (.ok id)) walletId) ≤ cap
    rw [hcount]
    split
    · next hthis =>
      -- the plan is the planner's, which has been left room for it
      obtain ⟨rfl, hplanned⟩ := hthis
      have hplanner : here.planner = true := by
        rcases (hmem id).mp hplanned with ⟨hplanner, _⟩ | hold
        · exact hplanner
        · exact absurd (h.planned id hold) hid
      have hless := hroom hplanner
      omega
    · omega

theorem filter_executions_pos {mine walletId : String} {t : ℤ} {executed : List Execution}
    (h : mine = walletId) :
    ((⟨mine, t⟩ :: executed).filter fun e => e.walletId = walletId) =
      ⟨mine, t⟩ :: executed.filter fun e => e.walletId = walletId := by
  simp [h]

theorem filter_executions_neg {mine walletId : String} {t : ℤ} {executed : List Execution}
    (h : mine ≠ walletId) :
    ((⟨mine, t⟩ :: executed).filter fun e => e.walletId = walletId) =
      executed.filter fun e => e.walletId = walletId := by
  simp [h]

/-- A plan of the planner is executed: it moves from the one count to the other. -/
theorem Capped.room_execute (h : Capped cap d) {r : MintPlan} (now : ℤ)
    (hr : r ∈ d.world.db.plans) (hexecuting : r.status = .executing) (hplanned : r.id ∈ d.planned)
    (walletId : String) :
    rolling Execution.nowMs (24 * 60 * 60000) d.world.nowMs
        ((⟨r.walletId, d.world.nowMs⟩ :: d.executed).filter fun e => e.walletId = walletId) +
      (d.world.db.exec (.markMintPlanExecuted r.id now)).plans.rows.countP
        (mayFire d.planned walletId) ≤ cap := by
  have hbefore := h.room walletId
  rw [executions, livePlans] at hbefore
  by_cases hwallet : r.walletId = walletId
  · subst hwallet
    have hlt : (d.world.db.exec (.markMintPlanExecuted r.id now)).plans.rows.countP
        (mayFire d.planned r.walletId) < d.world.db.plans.rows.countP
          (mayFire d.planned r.walletId) := countP_executed_lt hr hexecuting hplanned
    have hself : d.world.nowMs - 24 * 60 * 60000 < d.world.nowMs ∧
        d.world.nowMs ≤ d.world.nowMs := by omega
    have hone : ∀ events : List Execution, rolling Execution.nowMs (24 * 60 * 60000) d.world.nowMs
        (⟨r.walletId, d.world.nowMs⟩ :: events) =
          rolling Execution.nowMs (24 * 60 * 60000) d.world.nowMs events + 1 :=
      fun _ => rolling_cons_of_le hself
    rw [filter_executions_pos rfl, hone]
    omega
  · have hle : (d.world.db.exec (.markMintPlanExecuted r.id now)).plans.rows.countP
        (mayFire d.planned walletId) ≤ d.world.db.plans.rows.countP
          (mayFire d.planned walletId) := countP_exec_le rfl
    rw [filter_executions_neg hwallet]
    omega

theorem Capped.execute (h : Capped cap d) {r : MintPlan} {now : ℤ} (hr : r ∈ d.world.db.plans)
    (hexecuting : r.status = .executing) (hplanned : r.id ∈ d.planned) :
    Capped cap { d with
      world := d.world.exec (.markMintPlanExecuted r.id now)
      executed := ⟨r.walletId, d.world.nowMs⟩ :: d.executed } := by
  have hroom := h.room_execute now hr hexecuting hplanned
  refine ⟨h.rows_exec rfl, h.planned, List.forall_mem_cons.mpr ⟨le_refl _, h.past⟩, hroom,
    fun walletId t => ?_⟩
  have hbounded := h.bounded walletId t
  show rolling Execution.nowMs _ t (List.filter _ (_ :: d.executed)) ≤ cap
  by_cases hwallet : r.walletId = walletId
  · subst hwallet
    have hnow := hroom r.walletId
    rw [filter_executions_pos rfl] at hnow ⊢
    refine rolling_cons_le (h.past_of r.walletId) rfl hbounded ?_
    omega
  · rw [filter_executions_neg hwallet]
    exact hbounded

/-- **Step.**  A step that leaves room keeps to the cap. -/
theorem capped_step {l : CreatorStep} (h : Capped cap d)
    (hφ : CreatorRun.OnCommand (LeavesRoom cap) d l) (hstep : d.step cap l = some d') :
    Capped cap d' := by
  cases l with
  | start party =>
    obtain rfl := Option.some_inj.mp hstep
    exact h.of_fewer rfl rfl rfl rfl h.rows fun _ => le_refl _
  | advance i answer =>
    obtain ⟨c, k, here, hi, hx, rfl⟩ := step_advance_cases hstep
    have hroom : LeavesRoom cap d i here c (answer c) := (atCommand_iff hi).mp hφ
    -- only a plan that is created takes room
    by_cases hc : ∃ input, c = .createMintPlan input
    · obtain ⟨input, rfl⟩ := hc
      revert hx hroom
      cases answer (.createMintPlan input) with
      | error e => exact fun _ _ => h.of_fewer rfl rfl rfl rfl h.rows fun _ => le_refl _
      | ok id => exact fun hx hroom => h.create hx hroom
    · have hc' : ∀ input, c ≠ .createMintPlan input := fun input heq => hc ⟨input, heq⟩
      have hplanned : d.plannedAfter here c (answer c) = d.planned := by
        cases c with
        | createMintPlan input => exact absurd rfl (hc' input)
        | _ => rfl
      rcases @next_cases cap d.world c (answer c) hc' with hnext | ⟨s, hs, hnext⟩
      · rw [hnext, hplanned]
        exact h.of_fewer rfl rfl rfl rfl h.rows fun _ => le_refl _
      · rw [hnext, hplanned]
        exact h.of_fewer rfl rfl rfl rfl (h.rows_exec hs) fun _ => countP_exec_le hs
  | crash i =>
    obtain ⟨t, _, rfl⟩ := Option.map_eq_some_iff.mp hstep
    exact h.of_fewer rfl rfl rfl rfl h.rows fun _ => le_refl _
  | statement s =>
    simp only [CreatorRun.step] at hstep
    split at hstep
    · exact absurd hstep.symm (Option.some_ne_none d')
    · next hs =>
      obtain rfl := Option.some_inj.mp hstep
      have hs' := Bool.eq_false_iff.mpr hs
      -- the end of a planner's plan turns the room it has taken into an execution
      by_cases hfires : ∃ r planId now,
          s = .markMintPlanExecuted planId now ∧ d.fires planId = some r
      · obtain ⟨r, planId, now, rfl, hfires⟩ := hfires
        obtain ⟨hget, hrun⟩ := Option.filter_eq_some_iff.mp hfires
        obtain ⟨hr, rfl⟩ := Table.get?_eq_some.mp hget
        obtain ⟨hexecuting, hplanned⟩ := of_decide_eq_true hrun
        rw [CreatorRun.executedAfter, hfires]
        exact h.execute hr hexecuting hplanned
      · have hsame : d.executedAfter s = d.executed := by
          cases s with
          | markMintPlanExecuted planId now =>
            cases hnone : d.fires planId with
            | none => rw [CreatorRun.executedAfter, hnone, Option.elim_none]
            | some r => exact absurd ⟨r, planId, now, rfl, hnone⟩ hfires
          | _ => rfl
        rw [hsame]
        exact h.of_fewer rfl rfl rfl rfl (h.rows_exec hs') fun _ => countP_exec_le hs'
  | clock nowMs =>
    simp only [CreatorRun.step] at hstep
    split at hstep
    · next hle =>
      obtain rfl := Option.some_inj.mp hstep
      refine ⟨h.rows, h.planned, fun e he => (h.past e he).trans hle, fun walletId => ?_, h.bounded⟩
      -- as time goes by executions only leave the window
      have hroom := h.room walletId
      have hlater : executions d walletId nowMs ≤ executions d walletId d.world.nowMs :=
        rolling_le_of_le (h.past_of walletId) hle
      show executions d walletId nowMs + livePlans d walletId ≤ cap
      omega
    · exact absurd hstep.symm (Option.some_ne_none d')

/-- **Run.**  In every run that leaves the planner room, the plans of a wallet that are executed
within any day are no more than the policy allows. -/
theorem executions_le_of_reach
    (h : Transition.Reach (CreatorRun.step cap) (CreatorRun.OnCommand (LeavesRoom cap))
      CreatorRun.init d) (walletId : String) (t : ℤ) : executions d walletId t ≤ cap := by
  have hcapped : Capped cap d := by
    refine h.invariant ⟨?_, ?_, ?_, ?_, ?_⟩ fun d l d' _ hd hφ hstep => capped_step hd hφ hstep
    · exact fun r hr => absurd hr Table.not_mem_empty
    · exact fun id hid => absurd hid List.not_mem_nil
    · exact fun e he => absurd he List.not_mem_nil
    · exact fun walletId => Nat.zero_le cap
    · exact fun walletId t => Nat.zero_le cap
  exact hcapped.bounded walletId t

end

/-! ### Samples -/

namespace Sample

/-- Two free public stages that have just opened. -/
def stages : List AutoMint.AutoMintCandidate := [candidate "p" "a" 0, candidate "q" "b" 0]

/-- An environment in which the wallet has a plan for the stages `taken`. -/
def planning (id : String) (taken : List String) : (c : Cmd) → Except Thrown c.Resp
  | .createMintPlan _ => .ok id
  | .blockingPlanExists _ stageId => .ok (stageId ∈ taken)
  | c => answer stages c

/-- The rows of the stages, and a pass of the planner, which may plan one mint a day. -/
def firstPass : List CreatorStep :=
  [.statement (.stages ⟨[⟨"a", 0, false⟩, ⟨"b", 0, false⟩], by decide⟩), .start .planner] ++
    List.replicate 10 (.advance 0 (planning "p1" []))

/-- A second pass before the plan has been executed. -/
def secondPass : List CreatorStep :=
  [.start .planner] ++ List.replicate 11 (.advance 1 (planning "p2" ["a"]))

/-- A plan is claimed, while others have locked `locked`, and executed. -/
def fire (planId : String) (locked : List String) : List CreatorStep :=
  [.statement (.claimArmedMintPlan 0 0 0 0 locked), .statement (.markMintPlanExecuted planId 0)]

/-- The only wallet of the policy. -/
def minter : String := "11111111-1111-1111-1111-111111111111"

end Sample

/-- One pass, and its plan is executed. -/
theorem executions_le_of_reach_onePass :
    ∃ d, Transition.Reach (CreatorRun.step 1) (CreatorRun.OnCommand (LeavesRoom 1))
      CreatorRun.init d ∧ d.executed = [⟨Sample.minter, 0⟩] ∧
        executions d Sample.minter 0 ≤ 1 := by
  obtain ⟨d, hreach, hexecuted⟩ := exists_reach_of_run (CreatorRun.step 1)
    (CreatorRun.OnCommand (LeavesRoom 1)) CreatorRun.init (Sample.firstPass ++ Sample.fire "p1" [])
    (fun d => d.executed = [⟨Sample.minter, 0⟩]) (by decide +kernel) (by decide +kernel)
  exact ⟨d, hreach, of_decide_eq_true hexecuted, executions_le_of_reach hreach Sample.minter 0⟩

/-- Two passes plan two mints, where the policy allows one a day; both are executed. -/
theorem planner_exceeds : ¬ ∀ d, Transition.Reachable (CreatorRun.step 1) CreatorRun.init d →
    ∀ walletId t, executions d walletId t ≤ 1 := by
  intro h
  obtain ⟨d, hreach, htwo⟩ := exists_reachable_of_run (CreatorRun.step 1) CreatorRun.init
    (Sample.firstPass ++ Sample.secondPass ++ Sample.fire "p1" ["p2"] ++ Sample.fire "p2" ["p1"])
    (fun d => executions d Sample.minter 0 = 2) (by decide +kernel)
  have hone := h d hreach Sample.minter 0
  have htwo' := of_decide_eq_true htwo
  omega

end PlanCreators
