/-
One live plan for a phase and a wallet.

* `OnePlan` — no two live plans are for one phase;
* `Undisturbed` — what a run must spare a program that creates a plan: one that has asked about the
  phase, that another plan is created for it in between; one that has not, a live plan;
* `sound_step`, `onePlan_of_reach` — in runs that do, no phase has two live plans;
* `twoForms_plan_twice` — the ordinary form does not ask, so that sending it twice makes two.
-/
import HoodMint.CreatorRuns

namespace PlanCreators

open Effect Relational Transition

open MintWorker (CreateMintPlanInput MintPlan MintPlans PlanDb)

/-! ### Live plans -/

/-- No two live plans are for one phase.  Ids are compared as texts: two spellings of one wallet's
UUID, which the database would take for one, are two wallets here. -/
def OnePlan (plans : MintPlans) : Prop :=
  ∀ r ∈ plans, ∀ r' ∈ plans, planPhase r = planPhase r' → isLive r.status = true →
    isLive r'.status = true → r.id = r'.id

/-- No live plan is for the phase. -/
def Free (plans : MintPlans) (f : Phase) : Prop :=
  ∀ r ∈ plans, planPhase r = f → isLive r.status = false

instance (plans : MintPlans) (f : Phase) : Decidable (Free plans f) :=
  (inferInstance : Decidable (∀ r ∈ plans, planPhase r = f → isLive r.status = false))

instance (plans : MintPlans) : Decidable (OnePlan plans) :=
  (inferInstance : Decidable (∀ r ∈ plans, ∀ r' ∈ plans, _ → _ → _ → r.id = r'.id))

/-- Every live plan was a live plan of the phase before. -/
def Fades (plans plans' : MintPlans) : Prop :=
  ∀ r' ∈ plans', isLive r'.status = true →
    ∃ r ∈ plans, r.id = r'.id ∧ planPhase r = planPhase r' ∧ isLive r.status = true

section

variable {plans plans' : MintPlans} {f : Phase}

theorem OnePlan.fades (h : OnePlan plans) (hfades : Fades plans plans') : OnePlan plans' := by
  intro r₁ hr₁ r₂ hr₂ hphase hlive₁ hlive₂
  obtain ⟨s₁, hs₁, hid₁, hphase₁, hs₁live⟩ := hfades r₁ hr₁ hlive₁
  obtain ⟨s₂, hs₂, hid₂, hphase₂, hs₂live⟩ := hfades r₂ hr₂ hlive₂
  have hsame := h s₁ hs₁ s₂ hs₂ (hphase₁.trans (hphase.trans hphase₂.symm)) hs₁live hs₂live
  exact hid₁.symm.trans (hsame.trans hid₂)

theorem Free.fades (h : Free plans f) (hfades : Fades plans plans') : Free plans' f := by
  intro r' hr' hphase
  refine Bool.eq_false_iff.mpr fun hlive => ?_
  obtain ⟨r, hr, _, hphase', hrlive⟩ := hfades r' hr' hlive
  have hdead := h r hr (hphase'.trans hphase)
  exact Bool.eq_false_iff.mp hdead hrlive

end

section

variable {plans : MintPlans} {id : String} {input : CreateMintPlanInput} {now : ℤ} {f : Phase}
  {r : MintPlan}

/-- A plan created is one for the phase of the input, or was there before. -/
theorem mem_createMintPlan (hr : r ∈ plans.createMintPlan id input now) :
    r ∈ plans ∨ planPhase r = inputPhase input ∧ r.id = id := by
  rcases Table.mem_insert.mp hr with hr | ⟨rfl, _⟩
  · exact Or.inl hr
  · exact Or.inr ⟨rfl, rfl⟩

theorem OnePlan.create (h : OnePlan plans) (hfree : Free plans (inputPhase input)) :
    OnePlan (plans.createMintPlan id input now) := by
  intro r hr r' hr' hphase hlive hlive'
  rcases mem_createMintPlan hr with hr | ⟨hnew, hid⟩
  · rcases mem_createMintPlan hr' with hr' | ⟨hnew', _⟩
    · exact h r hr r' hr' hphase hlive hlive'
    · exact absurd hlive (Bool.eq_false_iff.mp (hfree r hr (hphase.trans hnew')))
  · rcases mem_createMintPlan hr' with hr' | ⟨_, hid'⟩
    · exact absurd hlive' (Bool.eq_false_iff.mp (hfree r' hr' (hphase.symm.trans hnew)))
    · exact hid.trans hid'.symm

theorem Free.create (h : Free plans f) (hother : f ≠ inputPhase input) :
    Free (plans.createMintPlan id input now) f := by
  intro r hr hphase
  rcases mem_createMintPlan hr with hr | ⟨hnew, _⟩
  · exact h r hr hphase
  · exact absurd (hphase.symm.trans hnew) hother

end

/-! ### One command -/

/-- A program that has asked about the phase it plans is not disturbed since, and one that has not
finds no live plan for it. -/
def Undisturbed (d : CreatorRun) (i : ℕ) (here : Here) (c : Cmd) (x : Except Thrown c.Resp) :
    Prop :=
  match c, x with
  | .createMintPlan input, .ok _ =>
    if here.found (inputPhase input) = none then Free d.world.db.plans (inputPhase input)
    else d.since i (inputPhase input) = false
  | _, _ => True

instance (d : CreatorRun) (i : ℕ) (here : Here) (c : Cmd) (x : Except Thrown c.Resp) :
    Decidable (Undisturbed d i here c x) := by
  induction c using Cmd.casesOn with
  | createMintPlan input =>
    exact match x with
      | .error _ => isTrue trivial
      | .ok _ => (inferInstance : Decidable (if here.found (inputPhase input) = none then
          Free d.world.db.plans (inputPhase input) else d.since i (inputPhase input) = false))
  | _ => exact isTrue trivial

section

variable {cap : ℕ} {w : CreatorWorld} {c : Cmd} {f : Phase}

/-- What is answered free, is free. -/
theorem free_of_frees {a : c.Resp} (hx : (creatorWorld cap).allowed w c (.ok a))
    (hasks : c.asks f = true) (hfrees : frees c a f = true) : Free w.db.plans f := by
  intro r hr hphase
  refine Bool.eq_false_iff.mpr fun hlive => ?_
  cases c with
  | walletsWithLivePlanForStage projectId stageId =>
    obtain ⟨rfl, rfl⟩ := of_decide_eq_true hasks
    have hout := of_decide_eq_true hfrees
    rw [show a = _ from hx] at hout
    refine hout (List.mem_map.mpr ⟨r, List.mem_filter.mpr ⟨hr, ?_⟩, ?_⟩)
    · rw [← hphase]
      exact decide_eq_true ⟨rfl, rfl, hlive⟩
    · rw [← hphase]
      rfl
  | blockingPlanExists walletId stageId =>
    obtain ⟨rfl, hstage⟩ := of_decide_eq_true hasks
    have hblocking : blockingPlanExists w.db.plans f.walletId stageId = true := by
      refine List.any_eq_true.mpr ⟨r, hr, decide_eq_true ⟨?_, ?_, Or.inl hlive⟩⟩
      · rw [← hphase]
        rfl
      · rw [← hstage, ← hphase]
        rfl
    rw [← show a = _ from hx] at hblocking
    rw [frees, hblocking] at hfrees
    cases hfrees
  | _ => cases hasks

/-- A phase that is not planned stays free. -/
theorem Free.next {x : Except Thrown c.Resp} (h : Free w.db.plans f)
    (hplans : ∀ a, x = .ok a → c.plans f = false) :
    Free ((creatorWorld cap).next w c x).db.plans f := by
  by_cases hc : ∃ input, c = .createMintPlan input
  · obtain ⟨input, rfl⟩ := hc
    cases x with
    | error e => exact h
    | ok id => exact h.create (of_decide_eq_false (hplans id rfl))
  · refine h.fades fun r' hr' hlive => next_live ?_ hr' hlive
    exact fun input heq => hc ⟨input, heq⟩

end

/-! ### Runs -/

/-- No phase has two live plans; what a program has found free and nobody has planned since is
free; and every program leaves alone what it has found taken. -/
structure Sound (d : CreatorRun) : Prop where
  one : OnePlan d.world.db.plans
  free : ∀ (i : ℕ) (t : Task signature Thrown Unit Here) (f : Phase), d.tasks[i]? = some t →
    t.here.found f = some true → d.since i f = false → Free d.world.db.plans f
  safe : ∀ t ∈ d.tasks, t.Safe checks fun _ _ => True

section

variable {cap : ℕ} {d d' : CreatorRun} {i j : ℕ} {c : Cmd} {x : Except Thrown c.Resp} {here : Here}
  {f : Phase}

/-- What is found free after a command was free before it. -/
theorem Sound.free_before (hd : Sound d) {k : Except Thrown c.Resp → Creator Unit}
    (hi : d.tasks[i]? = some ⟨.call c k, here⟩) (hx : (creatorWorld cap).allowed d.world c x)
    {t : Task signature Thrown Unit Here}
    (ht : (d.tasks.set i ⟨k x, checks.next here c x⟩)[j]? = some t)
    (hfound : t.here.found f = some true) (hsince : d.sinceAfter i c x j f = false) :
    Free d.world.db.plans f ∧ ∀ a, x = .ok a → c.plans f = false := by
  cases x with
  | error e =>
    refine ⟨?_, fun a h => by cases h⟩
    by_cases hij : i = j
    · subst hij
      rw [List.getElem?_set_self (List.getElem?_eq_some_iff.mp hi).1] at ht
      obtain rfl := Option.some_inj.mp ht
      exact hd.free i _ f hi hfound hsince
    · rw [List.getElem?_set_ne hij] at ht
      exact hd.free j t f ht hfound hsince
  | ok a =>
    obtain ⟨hplans, hquiet⟩ := Bool.or_eq_false_iff.mp hsince
    refine ⟨?_, fun _ _ => hplans⟩
    by_cases hij : i = j
    · subst hij
      rw [List.getElem?_set_self (List.getElem?_eq_some_iff.mp hi).1] at ht
      obtain rfl := Option.some_inj.mp ht
      cases hasks : c.asks f with
      | true =>
        -- it has just been asked about, and the answer was that it is free
        have hfrees : (if c.asks f then some (frees c a f) else here.found f) = some true := hfound
        rw [if_pos hasks] at hfrees
        exact free_of_frees hx hasks (Option.some_inj.mp hfrees)
      | false =>
        have hfound' : (if c.asks f then some (frees c a f) else here.found f) = some true := hfound
        rw [hasks, if_neg Bool.false_ne_true] at hfound'
        rw [hasks] at hquiet
        exact hd.free i _ f hi hfound' (by simpa using hquiet)
    · rw [List.getElem?_set_ne hij] at ht
      have hne : decide (j = i) = false := decide_eq_false fun h => hij h.symm
      refine hd.free j t f ht hfound ?_
      simpa [hne] using hquiet

/-- A plan that is created is the only live one of its phase. -/
theorem Sound.one_next (hd : Sound d) {k : Except Thrown c.Resp → Creator Unit}
    (hi : d.tasks[i]? = some ⟨.call c k, here⟩) (hφ : Undisturbed d i here c x)
    (hguard : checks.guard here c) :
    OnePlan ((creatorWorld cap).next d.world c x).db.plans := by
  by_cases hc : ∃ input, c = .createMintPlan input
  · obtain ⟨input, rfl⟩ := hc
    cases x with
    | error e => exact hd.one
    | ok id =>
      refine hd.one.create ?_
      have hφ' : if here.found (inputPhase input) = none then
          Free d.world.db.plans (inputPhase input) else d.since i (inputPhase input) = false := hφ
      split at hφ'
      · exact hφ'
      · next hasked =>
        -- it has asked, and what it has found taken it does not plan
        have hfound : here.found (inputPhase input) = some true := by
          cases hvalue : here.found (inputPhase input) with
          | none => exact absurd hvalue hasked
          | some b =>
            cases b with
            | true => rfl
            | false => exact absurd hvalue hguard
        exact hd.free i _ _ hi hfound hφ'
  · refine hd.one.fades fun r' hr' hlive => next_live ?_ hr' hlive
    exact fun input heq => hc ⟨input, heq⟩

/-- **Step.**  What an undisturbed step starts from, it keeps. -/
theorem sound_step {l : CreatorStep} (hd : Sound d) (hφ : CreatorRun.OnCommand Undisturbed d l)
    (h : d.step cap l = some d') : Sound d' := by
  cases l with
  | start party =>
    obtain rfl := Option.some_inj.mp h
    refine ⟨hd.one, fun i t f ht hfound hsince => ?_, fun t ht => ?_⟩
    · rcases getElem?_append_cases ht with ht | rfl
      · exact hd.free i t f ht hfound hsince
      · cases hfound
    · exact of_mem_enter ht hd.safe (prog_safe party)
  | advance i answer =>
    obtain ⟨c, k, here, hi, hx, rfl⟩ := step_advance_cases h
    obtain ⟨hguard, hsafe⟩ := safe_advance hi hd.safe (x := answer c) trivial
    -- the phase of the plan that is created was found free, and no one has planned it since
    have hone : OnePlan ((creatorWorld cap).next d.world c (answer c)).db.plans :=
      hd.one_next hi ((atCommand_iff hi).mp hφ) hguard
    refine ⟨hone, fun j t f ht hfound hsince => ?_, hsafe⟩
    obtain ⟨hfree, hplans⟩ := hd.free_before hi hx ht hfound hsince
    have hnext : Free ((creatorWorld cap).next d.world c (answer c)).db.plans f :=
      hfree.next hplans
    exact hnext
  | crash i =>
    obtain ⟨t₀, hi, rfl⟩ := Option.map_eq_some_iff.mp h
    refine ⟨hd.one, fun j t f ht hfound hsince => ?_, fun t ht => ?_⟩
    · by_cases hij : i = j
      · subst hij
        rw [List.getElem?_set_self (List.getElem?_eq_some_iff.mp hi).1] at ht
        obtain rfl := Option.some_inj.mp ht
        exact hd.free i t₀ f hi hfound hsince
      · rw [List.getElem?_set_ne hij] at ht
        exact hd.free j t f ht hfound hsince
    · exact of_mem_replace ht hd.safe trivial
  | statement s =>
    simp only [CreatorRun.step] at h
    split at h
    · exact absurd h.symm (Option.some_ne_none d')
    · next hs =>
      obtain rfl := Option.some_inj.mp h
      -- a statement from outside makes no plan live
      have hfades : Fades d.world.db.plans (d.world.exec s).db.plans := fun r' hr' hlive =>
        exec_live (Bool.eq_false_iff.mpr hs) hr' hlive
      exact ⟨hd.one.fades hfades, fun i t f ht hfound hsince =>
        (hd.free i t f ht hfound hsince).fades hfades, hd.safe⟩
  | clock nowMs =>
    simp only [CreatorRun.step] at h
    split at h
    · obtain rfl := Option.some_inj.mp h
      exact ⟨hd.one, hd.free, hd.safe⟩
    · exact absurd h.symm (Option.some_ne_none d')

/-- **Run.**  In every run that leaves those who create plans undisturbed, no phase has two live
plans. -/
theorem onePlan_of_reach
    (h : Transition.Reach (CreatorRun.step cap) (CreatorRun.OnCommand Undisturbed)
      CreatorRun.init d) : OnePlan d.world.db.plans := by
  have hsound : Sound d := by
    refine h.invariant ⟨?_, ?_, ?_⟩ fun d l d' _ hd hφ hstep => sound_step hd hφ hstep
    · exact fun r hr => absurd hr Table.not_mem_empty
    · exact fun i t f ht => absurd ht (by simp [CreatorRun.init])
    · exact fun t ht => absurd ht List.not_mem_nil
  exact hsound.one

end

/-! ### Samples -/

namespace Sample

def projectId : String := "22222222-2222-2222-2222-222222222222"

def stageId : String := "33333333-3333-3333-3333-333333333333"

def walletId : String := "11111111-1111-1111-1111-111111111111"

/-- A public stage of the project. -/
def stageRow : Eligibility.StageRow where
  id := stageId
  projectId := projectId
  providerStageId := "public"
  version := 1
  label := "Public"
  type := .publicSale
  priceWei := none
  currency := none
  maxPerWallet := none
  startsAt := 0
  endsAt := none
  paused := false
  updatedAt := 0

/-- The ordinary form, for one wallet. -/
def ordinary : Party :=
  .ordinary ⟨projectId, [walletId], some stageId, none, some 1, "1"⟩

/-- The console, for the same. -/
def console : Party := .console 0 ⟨projectId, some stageId, none, [⟨walletId, some 1⟩], "1"⟩

/-- An environment with that stage, in which the next plan is given the id. -/
def creating (id : String) (live : List String) : (c : Cmd) → Except Thrown c.Resp
  | .createMintPlan _ => .ok id
  | .getDropStage _ => .ok (some stageRow)
  | .listEnabledWallets => .ok [⟨walletId, true⟩]
  | .walletsWithLivePlanForStage .. => .ok live
  | c => answer [] c

/-- The console is sent twice, one submission after the other. -/
def consoleTwice : List CreatorStep :=
  [.start console] ++ List.replicate 7 (.advance 0 (creating "p1" [])) ++
    [.start console] ++ List.replicate 5 (.advance 1 (creating "p2" [walletId]))

/-- The ordinary form is sent twice, one submission after the other. -/
def formTwice : List CreatorStep :=
  [.start ordinary] ++ List.replicate 4 (.advance 0 (creating "p1" [])) ++
    [.start ordinary] ++ List.replicate 4 (.advance 1 (creating "p2" []))

end Sample

/-- The console asks, so that the second submission plans nothing. -/
theorem onePlan_of_reach_consoleTwice :
    ∃ d, Transition.Reach (CreatorRun.step 1) (CreatorRun.OnCommand Undisturbed)
      CreatorRun.init d ∧ d.world.db.plans.rows.length = 1 ∧ OnePlan d.world.db.plans := by
  obtain ⟨d, hreach, hlength⟩ := exists_reach_of_run (CreatorRun.step 1)
    (CreatorRun.OnCommand Undisturbed) CreatorRun.init Sample.consoleTwice
    (fun d => d.world.db.plans.rows.length = 1) (by decide +kernel) (by decide +kernel)
  exact ⟨d, hreach, of_decide_eq_true hlength, onePlan_of_reach hreach⟩

/-- The ordinary form does not, so that it makes two plans for one phase. -/
theorem twoForms_plan_twice : ¬ ∀ d, Transition.Reachable (CreatorRun.step 1) CreatorRun.init d →
    OnePlan d.world.db.plans := by
  intro h
  obtain ⟨d, hreach, htwo⟩ := exists_reachable_of_run (CreatorRun.step 1) CreatorRun.init
    Sample.formTwice (fun d => ! decide (OnePlan d.world.db.plans)) (by decide +kernel)
  have hone := h d hreach
  rw [decide_eq_true hone] at htwo
  cases htwo

end PlanCreators
