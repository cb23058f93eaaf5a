/-
No open phase is a whitelist hit.

Passes of the eligibility engine interleave at every command, with the statements of those who
report stages and of the other writers of checks between them.  A statement that fails has not been
executed.

* `EngineWorld`, `world` — the stages and the checks, and what the commands change;
* `CheckRun`, `step` — the system, with the hits that have been written or alerted;
* `NoOpenHit` — no public stage is shown as a hit, and none of unknown kind ever was;
* `Settled` — what it takes: no answer makes a hit of a stage of unknown kind, no transient failure
  writes a hit again whose stage is no longer restricted, and a stage that is a hit, or is about to
  be one, is not reported to be public (`noOpenHit_of_reach`).
-/
import HoodMint.EligibilityHits
import HoodMint.Lib.Interleave
import HoodMint.Lib.Transition

namespace EligibilityEngine

open Effect Eligibility Projects Relational

/-! ### What is shared -/

structure EngineWorld where
  stages : StageRows
  checks : CheckTable

/-- The kind of a stage. -/
def EngineWorld.kind (w : EngineWorld) (stageId : String) : Option StageKind :=
  (w.stages.get? stageId).map (·.type)

/-- The due checks listed are stored ones, and the stages read are those of the project. -/
def world : Monitor signature Thrown EngineWorld where
  guard _ _ := True
  allowed w c x :=
    match c, x with
    | .dueEligibilityChecks .., .ok due => ∀ check ∈ due, ∃ r ∈ w.checks,
      r.key = (check.walletId, check.projectId, check.stageId) ∧ r.status = check.currentStatus
    | .stagesOf projectId, .ok rows =>
      rows.Perm (w.stages.rows.filter fun s => s.projectId = projectId)
    | _, _ => True
  next w c x :=
    match c, x with
    | .upsertEligibilityCheck input, .ok _ =>
      { w with checks := upsertEligibilityCheck w.checks input }
    | _, _ => w

instance (w : EngineWorld) (c : Cmd) (x : Except Thrown c.Resp) :
    Decidable (world.allowed w c x) := by
  induction c using Cmd.casesOn with
  | dueEligibilityChecks now limit =>
    exact match x with
      | .error _ => isTrue trivial
      | .ok due => (inferInstance : Decidable (∀ check ∈ due, ∃ r ∈ w.checks,
          r.key = (check.walletId, check.projectId, check.stageId) ∧
            r.status = check.currentStatus))
  | stagesOf projectId =>
    exact match x with
      | .error _ => isTrue trivial
      | .ok rows => (inferInstance : Decidable (rows.Perm
          (w.stages.rows.filter fun s => s.projectId = projectId)))
  | _ => exact isTrue trivial

/-! ### The system -/

/-- A stage has been called a hit, when it was of this kind. -/
structure Hit where
  stageId : String
  kind : Option StageKind
deriving DecidableEq

/-- The stage that a command calls a hit. -/
def Cmd.hit : Cmd → Option String
  | .upsertEligibilityCheck input =>
    if input.status = .eligibleRestricted then some input.stageId else none
  | .enqueueAlert input => some input.stageId
  | _ => none

/-- The tables, the passes under way, and the hits that have been written or alerted. -/
structure CheckRun where
  world : EngineWorld
  tasks : List (Task signature Thrown Unit Here)
  hits : List Hit

/-- What can happen.  A pass that crashes issues no further command. -/
inductive CheckStep
  | start (config : Config) (limit : Option ℕ)
  | advance (i : ℕ) (answer : (c : Cmd) → Except Thrown c.Resp)
  | crash (i : ℕ)
  | stage (l : StageStatement)
  | check (l : CheckStatement)

namespace CheckRun

/-- The hits after a command. -/
def hitsAfter (d : CheckRun) (c : Cmd) (x : Except Thrown c.Resp) : List Hit :=
  match x with
  | .error _ => d.hits
  | .ok _ => (c.hit.map fun stageId => ⟨stageId, d.world.kind stageId⟩).toList ++ d.hits

/-- One step. -/
def step (d : CheckRun) : CheckStep → Option CheckRun
  | .start config limit =>
    some { d with tasks := d.tasks ++ [⟨runEligibilityPass config limit, .start config⟩] }
  | .advance i answer =>
    match d.tasks[i]? with
    | some ⟨.call c k, here⟩ =>
      if EligibilityEngine.world.allowed d.world c (answer c) then
        some
          { world := EligibilityEngine.world.next d.world c (answer c)
            tasks := d.tasks.set i ⟨k (answer c), reads.next here c (answer c)⟩
            hits := d.hitsAfter c (answer c) }
      else none
    | _ => none
  | .crash i => d.tasks[i]?.map fun t => { d with tasks := d.tasks.set i ⟨.ret (), t.here⟩ }
  | .stage l => some { d with world := { d.world with stages := l.exec d.world.stages } }
  | .check l => some { d with world := { d.world with checks := l.exec d.world.checks } }

/-- No stage, no check, and no pass under way. -/
def init : CheckRun := ⟨⟨.empty, .empty⟩, [], []⟩

end CheckRun

/-- **No open phase is a hit.** -/
structure NoOpenHit (d : CheckRun) : Prop where
  stored : ∀ c ∈ d.world.checks, c.status = .eligibleRestricted →
    ∀ s ∈ d.world.stages, s.id = c.stageId → s.type ≠ .publicSale
  made : ∀ hit ∈ d.hits, hit.kind ≠ some .unknown ∧ hit.kind ≠ some .publicSale

/-! ### What it takes -/

/-- Neither public nor of unknown kind. -/
def IsRestricted (kind : StageKind) : Prop := kind ≠ .publicSale ∧ kind ≠ .unknown

instance : DecidablePred IsRestricted := fun kind =>
  (inferInstance : Decidable (kind ≠ .publicSale ∧ kind ≠ .unknown))

/-- The stage is restricted. -/
def Restricted (stages : StageRows) (stageId : String) : Prop :=
  ∃ s ∈ stages, s.id = stageId ∧ IsRestricted s.type

instance (stages : StageRows) (stageId : String) : Decidable (Restricted stages stageId) :=
  (inferInstance : Decidable (∃ s ∈ stages, s.id = stageId ∧ IsRestricted s.type))

/-- No answer makes a hit of a stage of unknown kind, and none that a transient failure keeps has
ceased to be restricted. -/
def Heard (d : CheckRun) (here : Here) (c : Cmd) (x : Except Thrown c.Resp) : Prop :=
  match c, x with
  | .stagesOf _, .ok rows => ∀ row ∈ here.hitRows rows, row.type ≠ .unknown
  | c, .error e => ∀ stageId ∈ ((here.calls c).failed e).kept, Restricted d.world.stages stageId
  | _, _ => True

instance (d : CheckRun) (here : Here) (c : Cmd) (x : Except Thrown c.Resp) :
    Decidable (Heard d here c x) := by
  cases x with
  | error e =>
    have hdec : Decidable
        (∀ stageId ∈ ((here.calls c).failed e).kept, Restricted d.world.stages stageId) :=
      inferInstance
    cases c <;> exact hdec
  | ok a =>
    induction c using Cmd.casesOn with
    | stagesOf projectId =>
      exact (inferInstance : Decidable (∀ row ∈ here.hitRows a, row.type ≠ .unknown))
    | _ => exact isTrue trivial

/-- A pass under way is about to call the stage a hit. -/
def Awaited (d : CheckRun) (stageId : String) : Prop :=
  ∃ t ∈ d.tasks, ¬ t.Done ∧ stageId ∈ t.here.pending

instance (d : CheckRun) (stageId : String) : Decidable (Awaited d stageId) :=
  (inferInstance : Decidable (∃ t ∈ d.tasks, ¬ t.Done ∧ stageId ∈ t.here.pending))

/-- The stage is shown as a hit. -/
def Shown (d : CheckRun) (stageId : String) : Prop :=
  ∃ c ∈ d.world.checks, c.status = .eligibleRestricted ∧ c.stageId = stageId

instance (d : CheckRun) (stageId : String) : Decidable (Shown d stageId) :=
  (inferInstance : Decidable
    (∃ c ∈ d.world.checks, c.status = .eligibleRestricted ∧ c.stageId = stageId))

/-- The condition on a step, in the state before it. -/
def Settled (d : CheckRun) : CheckStep → Prop
  | .advance i answer => AtCommand d.tasks i answer (Heard d)
  | .stage (.set id stage _) => (stage.kind = .publicSale → ¬ Shown d id) ∧
      (¬ IsRestricted stage.kind → ¬ Awaited d id)
  | _ => True

instance (d : CheckRun) : DecidablePred (Settled d) := fun l =>
  match l with
  | .advance i answer =>
    (inferInstance : Decidable (AtCommand (S := signature) d.tasks i answer (Heard d)))
  | .stage (.set id stage _) => (inferInstance : Decidable ((stage.kind = .publicSale →
      ¬ Shown d id) ∧ (¬ IsRestricted stage.kind → ¬ Awaited d id)))
  | .start .. | .crash _ | .check _ | .stage (.insert ..) | .stage (.respell ..)
  | .stage (.pause ..) => isTrue trivial

/-! ### One command -/

section

variable {d d' : CheckRun} {here : Here} {c : Cmd} {x : Except Thrown c.Resp} {stageId : String}

/-- A command of a pass. -/
theorem step_advance_cases {i : ℕ} {answer : (c : Cmd) → Except Thrown c.Resp}
    (h : d.step (.advance i answer) = some d') :
    ∃ c k here, d.tasks[i]? = some ⟨.call c k, here⟩ ∧ world.allowed d.world c (answer c) ∧
      d' =
        { world := world.next d.world c (answer c)
          tasks := d.tasks.set i ⟨k (answer c), reads.next here c (answer c)⟩
          hits := d.hitsAfter c (answer c) } := by
  simp only [CheckRun.step] at h
  split at h
  · next c k here hi =>
    split at h
    · next hx => exact ⟨c, k, here, hi, hx, (Option.some_inj.mp h).symm⟩
    · exact absurd h.symm (Option.some_ne_none d')
  · exact absurd h.symm (Option.some_ne_none d')

/-- No command changes the stages. -/
theorem next_stages (w : EngineWorld) : (world.next w c x).stages = w.stages := by
  cases c <;> cases x <;> rfl

/-- A command calls a hit what the pass was about to. -/
theorem pending_of_hit (hguard : reads.guard here c) (hhit : c.hit = some stageId) :
    stageId ∈ here.pending := by
  cases c with
  | upsertEligibilityCheck input =>
    rw [Cmd.hit] at hhit
    split at hhit
    · next hstatus =>
      obtain rfl := Option.some_inj.mp hhit
      exact hguard hstatus
    · cases hhit
  | enqueueAlert input =>
    obtain rfl := Option.some_inj.mp hhit
    exact hguard
  | _ => cases hhit

/-- A check that shows a hit after a command showed it before, or the command is what does. -/
theorem shown_next {w : EngineWorld} {r : EligibilityCheck} (hr : r ∈ (world.next w c x).checks)
    (hstatus : r.status = .eligibleRestricted) :
    r ∈ w.checks ∨ c.hit = some r.stageId := by
  cases c with
  | upsertEligibilityCheck input =>
    cases x with
    | error e => exact Or.inl hr
    | ok a =>
      rcases mem_upsertEligibilityCheck hr with rfl | hr
      · refine Or.inr ?_
        rw [EligibilityUpsert.status_row] at hstatus
        exact if_pos hstatus
      · exact Or.inl hr
  | _ => exact Or.inl (by cases x <;> exact hr)

/-- **What a pass is told** to call hits is restricted, under the condition. -/
theorem restricted_next (hx : world.allowed d.world c x) (hφ : Heard d here c x)
    (hbefore : ∀ stageId ∈ here.pending, Restricted d.world.stages stageId) :
    ∀ stageId ∈ (reads.next here c x).pending, Restricted d.world.stages stageId := by
  intro stageId hmem
  cases x with
  | error e =>
    have hkept : stageId ∈ ((here.calls c).failed e).kept :=
      (List.mem_append.mp hmem).resolve_left List.not_mem_nil
    have hall : ∀ stageId ∈ ((here.calls c).failed e).kept, Restricted d.world.stages stageId := by
      cases c <;> exact hφ
    exact hall stageId hkept
  | ok a =>
    cases c with
    | stagesOf projectId =>
      rcases List.mem_append.mp hmem with htold | hkept
      · -- a row that has just been read is in the table
        obtain ⟨row, hrow, rfl⟩ := List.mem_map.mp htold
        obtain ⟨hread, hpublic⟩ := mem_hitRows hrow
        have hperm : a.Perm (d.world.stages.rows.filter fun s => s.projectId = projectId) := hx
        exact ⟨row, (List.mem_filter.mp (hperm.mem_iff.mp hread)).1, rfl, hpublic, hφ row hrow⟩
      · exact hbefore stageId (List.mem_append_right _ hkept)
    | upsertEligibilityCheck input =>
      have hwritten : stageId ∈ (if input.status = .eligibleRestricted then
          { here with kept := here.kept.tail } else here).pending := hmem
      split at hwritten
      · rcases List.mem_append.mp hwritten with htold | hkept
        · exact hbefore stageId (List.mem_append_left _ htold)
        · exact hbefore stageId (List.mem_append_right _ (List.mem_of_mem_tail hkept))
      · exact hbefore stageId hwritten
    | enqueueAlert input =>
      rcases List.mem_append.mp hmem with htold | hkept
      · exact hbefore stageId (List.mem_append_left _ (List.mem_of_mem_tail htold))
      · exact hbefore stageId (List.mem_append_right _ hkept)
    | _ => exact hbefore stageId hmem

end

/-! ### Runs -/

/-- What is shown is not public, what is about to be is restricted, and so was what ever was. -/
structure Sound (d : CheckRun) : Prop where
  shown : ∀ c ∈ d.world.checks, c.status = .eligibleRestricted →
    ∃ s ∈ d.world.stages, s.id = c.stageId ∧ s.type ≠ .publicSale
  awaited : ∀ stageId, Awaited d stageId → Restricted d.world.stages stageId
  made : ∀ hit ∈ d.hits, ∃ kind, hit.kind = some kind ∧ IsRestricted kind
  safe : ∀ t ∈ d.tasks, t.Safe reads fun _ _ => True

section

variable {d d' : CheckRun}

theorem Sound.noOpenHit (h : Sound d) : NoOpenHit d := by
  refine ⟨fun c hc hstatus s hs hid => ?_, fun hit hhit => ?_⟩
  · obtain ⟨s', hs', hid', hpublic⟩ := h.shown c hc hstatus
    rw [Table.eq_of_key hs hs' (hid.trans hid'.symm)]
    exact hpublic
  · obtain ⟨kind, hkind, hpublic, hunknown⟩ := h.made hit hhit
    rw [hkind]
    exact ⟨fun heq => hunknown (Option.some_inj.mp heq),
      fun heq => hpublic (Option.some_inj.mp heq)⟩

theorem kind_of_restricted {w : EngineWorld} {stageId : String}
    (h : Restricted w.stages stageId) : ∃ kind, w.kind stageId = some kind ∧ IsRestricted kind := by
  obtain ⟨s, hs, hid, hkind⟩ := h
  have hget : w.stages.get? stageId = some s := Table.get?_eq_some.mpr ⟨hs, hid⟩
  exact ⟨s.type, by rw [EngineWorld.kind, hget]; rfl, hkind⟩

/-- A command. -/
theorem sound_advance {i : ℕ} {answer : (c : Cmd) → Except Thrown c.Resp} (hd : Sound d)
    (hφ : Settled d (.advance i answer)) (h : d.step (.advance i answer) = some d') :
    Sound d' := by
  obtain ⟨c, k, here, hi, hx, rfl⟩ := step_advance_cases h
  have hheard : Heard d here c (answer c) := (atCommand_iff hi).mp hφ
  obtain ⟨hguard, hsafe⟩ := safe_advance hi hd.safe (x := answer c) trivial
  -- the pass has not ended, so that what it is about to claim is restricted
  have hpending : ∀ stageId ∈ here.pending, Restricted d.world.stages stageId :=
    fun stageId hmem => hd.awaited stageId ⟨_, List.mem_of_getElem? hi, id, hmem⟩
  have hhit : ∀ {stageId}, c.hit = some stageId → Restricted d.world.stages stageId :=
    fun heq => hpending _ (pending_of_hit hguard heq)
  refine ⟨fun r hr hstatus => ?_, fun stageId hawaited => ?_, fun hit hmade => ?_, hsafe⟩
  · show ∃ s ∈ (world.next d.world c (answer c)).stages, _
    rw [next_stages]
    rcases shown_next hr hstatus with hr | heq
    · exact hd.shown r hr hstatus
    · obtain ⟨s, hs, hid, hkind⟩ := hhit heq
      exact ⟨s, hs, hid, hkind.1⟩
  · show Restricted (world.next d.world c (answer c)).stages stageId
    rw [next_stages]
    obtain ⟨t, ht, hdone, hmem⟩ := hawaited
    rcases List.mem_or_eq_of_mem_set ht with ht | rfl
    · exact hd.awaited stageId ⟨t, ht, hdone, hmem⟩
    · exact restricted_next hx hheard hpending stageId hmem
  · cases hanswer : answer c with
    | error e =>
      rw [hanswer] at hmade
      exact hd.made hit hmade
    | ok a =>
      rw [hanswer] at hmade
      rcases List.mem_append.mp hmade with hnew | hold
      · obtain ⟨stageId, heq, rfl⟩ := Option.map_eq_some_iff.mp (Option.mem_toList.mp hnew)
        exact kind_of_restricted (hhit heq)
      · exact hd.made hit hold

/-- A statement about stages. -/
theorem sound_stage {l : StageStatement} (hd : Sound d) (hφ : Settled d (.stage l)) :
    Sound { d with world := { d.world with stages := l.exec d.world.stages } } := by
  have hretype : ∀ {stageId kind}, l.retypes stageId = some kind →
      (kind = .publicSale → ¬ Shown d stageId) ∧ (¬ IsRestricted kind → ¬ Awaited d stageId) := by
    intro stageId kind hkind
    cases l with
    | set id stage now =>
      rw [StageStatement.retypes] at hkind
      split at hkind
      · next hid =>
        obtain rfl := Option.some_inj.mp hkind
        rw [hid]
        exact hφ
      · cases hkind
    | _ => cases hkind
  refine ⟨fun c hc hstatus => ?_, fun stageId hawaited => ?_, hd.made, hd.safe⟩
  · obtain ⟨s, hs, hid, hpublic⟩ := hd.shown c hc hstatus
    obtain ⟨s', hs', hid', htype⟩ := exec_stage hs l
    refine ⟨s', hs', hid'.trans hid, ?_⟩
    rw [htype]
    cases hkind : l.retypes s.id with
    | none => exact hpublic
    | some kind => exact fun heq => (hretype hkind).1 heq ⟨c, hc, hstatus, hid.symm⟩
  · have hbefore : Awaited d stageId := hawaited
    obtain ⟨s, hs, hid, hrestricted⟩ := hd.awaited stageId hbefore
    obtain ⟨s', hs', hid', htype⟩ := exec_stage hs l
    refine ⟨s', hs', hid'.trans hid, ?_⟩
    rw [htype]
    cases hkind : l.retypes s.id with
    | none => exact hrestricted
    | some kind => exact not_not.mp fun h => (hretype hkind).2 h (hid ▸ hbefore)

/-- **Step.**  What a settled step starts from, it keeps. -/
theorem sound_step {l : CheckStep} (hd : Sound d) (hφ : Settled d l) (h : d.step l = some d') :
    Sound d' := by
  cases l with
  | start config limit =>
    obtain rfl := Option.some_inj.mp h
    refine ⟨hd.shown, fun stageId hawaited => ?_, hd.made, fun t ht => ?_⟩
    · obtain ⟨t, ht, hdone, hmem⟩ := hawaited
      rcases List.mem_append.mp ht with ht | ht
      · exact hd.awaited stageId ⟨t, ht, hdone, hmem⟩
      · obtain rfl := List.mem_singleton.mp ht
        exact absurd hmem List.not_mem_nil
    · exact of_mem_enter ht hd.safe (runEligibilityPass_safe config limit)
  | advance i answer => exact sound_advance hd hφ h
  | crash i =>
    obtain ⟨t₀, hi, rfl⟩ := Option.map_eq_some_iff.mp h
    refine ⟨hd.shown, fun stageId hawaited => ?_, hd.made, fun t ht => ?_⟩
    · obtain ⟨t, ht, hdone, hmem⟩ := hawaited
      rcases List.mem_or_eq_of_mem_set ht with ht | rfl
      · exact hd.awaited stageId ⟨t, ht, hdone, hmem⟩
      · exact absurd trivial hdone
    · exact of_mem_replace ht hd.safe trivial
  | stage l =>
    obtain rfl := Option.some_inj.mp h
    exact sound_stage hd hφ
  | check l =>
    obtain rfl := Option.some_inj.mp h
    exact ⟨fun c hc hstatus => hd.shown c (mem_exec_eligible hc hstatus) hstatus, hd.awaited,
      hd.made, hd.safe⟩

/-- **Run.**  In every run whose steps are all settled, no open phase is a hit. -/
theorem noOpenHit_of_reach (h : Transition.Reach CheckRun.step Settled CheckRun.init d) :
    NoOpenHit d := by
  have hsound : Sound d := by
    refine h.invariant ⟨?_, ?_, ?_, ?_⟩ fun d l d' _ hd hφ hstep => sound_step hd hφ hstep
    · exact fun c hc => absurd hc Table.not_mem_empty
    · intro stageId hawaited
      obtain ⟨t, ht, _⟩ := hawaited
      exact absurd ht List.not_mem_nil
    · exact fun hit hhit => absurd hhit List.not_mem_nil
    · exact fun t ht => absurd ht List.not_mem_nil
  exact hsound.noOpenHit

end

/-! ### Samples -/

namespace Sample

/-- A stage as it is reported. -/
def stage (kind : StageKind) : StageUpsert :=
  ⟨"phase", "Phase 1", kind, none, none, none, 0, none, false⟩

/-- Its row, when it is first an allowlist. -/
def row : StageRow := { (stage .allowlist).row "project" 1 0 with id := "stage" }

/-- The wallet the token speaks for. -/
def config : Config := ⟨120, some "0xAA"⟩

/-- An environment with one due check, whose stage has the row and is called eligible. -/
def answer (row : StageRow) : (c : Cmd) → Except Thrown c.Resp
  | .now => .ok 0
  | .resolveOpenSeaKey => .ok ["key"]
  | .dueEligibilityChecks .. =>
    .ok [⟨"wallet", "project", some "slug", "stage", 0, .unknown, .live⟩]
  | .getWalletJwt => .ok (some "jwt")
  | .listWallets => .ok [⟨⟨"wallet", "0xaa", true⟩, none⟩]
  | .getEligibility .. => .ok [⟨"PHASE", true, some 2, none⟩]
  | .stagesOf _ => .ok [row]
  | .upsertEligibilityCheck _ => .ok ()
  | .enqueueAlert _ => .ok ()
  | .publishUpdated .. => .ok ()

/-- The stage is reported, and its check is seeded. -/
def seeded : List CheckStep :=
  [.stage (.insert "stage" "project" (stage .allowlist) 0),
    .check (.ensureEligibilityRow "wallet" "project" "stage" 0 0)]

/-- A pass, to its end. -/
def pass (row : StageRow) : List CheckStep :=
  .start config none :: List.replicate 15 (.advance 0 (answer row))

/-- The stage is reported to be of another kind. -/
def retype (kind : StageKind) : CheckStep := .stage (.set "stage" (stage kind) 1)

end Sample

/-- A hit of a restricted stage is written and alerted, and the stage turns out to be a presale. -/
theorem noOpenHit_of_reach_presale :
    ∃ d, Transition.Reach CheckRun.step Settled CheckRun.init d ∧
      (d.hits.length = 2 ∧ Shown d "stage") ∧ NoOpenHit d := by
  obtain ⟨d, hreach, hhits⟩ := Transition.exists_reach_of_run CheckRun.step Settled CheckRun.init
    (Sample.seeded ++ Sample.pass Sample.row ++ [Sample.retype .presale])
    (fun d => d.hits.length = 2 ∧ Shown d "stage") (by decide +kernel) (by decide +kernel)
  exact ⟨d, hreach, of_decide_eq_true hhits, noOpenHit_of_reach hreach⟩

/-- It turns out to be public, and stays a hit; or it is of unknown kind when a pass finds it. -/
theorem openPhase_is_hit :
    (∃ d, Transition.Reachable CheckRun.step CheckRun.init d ∧
      ∃ c ∈ d.world.checks, c.status = .eligibleRestricted ∧
        ∃ s ∈ d.world.stages, s.id = c.stageId ∧ s.type = .publicSale) ∧
    (∃ d, Transition.Reachable CheckRun.step CheckRun.init d ∧
      ∃ hit ∈ d.hits, hit.kind = some .unknown) ∧
    ¬ ∀ d, Transition.Reachable CheckRun.step CheckRun.init d → NoOpenHit d := by
  have hpublic : ∃ d, Transition.Reachable CheckRun.step CheckRun.init d ∧
      ∃ c ∈ d.world.checks, c.status = .eligibleRestricted ∧
        ∃ s ∈ d.world.stages, s.id = c.stageId ∧ s.type = .publicSale := by
    obtain ⟨d, hreach, hhit⟩ := Transition.exists_reachable_of_run CheckRun.step CheckRun.init
      (Sample.seeded ++ Sample.pass Sample.row ++ [Sample.retype .publicSale])
      (fun d => ∃ c ∈ d.world.checks, c.status = .eligibleRestricted ∧
        ∃ s ∈ d.world.stages, s.id = c.stageId ∧ s.type = .publicSale) (by decide +kernel)
    exact ⟨d, hreach, of_decide_eq_true hhit⟩
  have hunknown : ∃ d, Transition.Reachable CheckRun.step CheckRun.init d ∧
      ∃ hit ∈ d.hits, hit.kind = some .unknown := by
    obtain ⟨d, hreach, hhit⟩ := Transition.exists_reachable_of_run CheckRun.step CheckRun.init
      (Sample.seeded ++ [Sample.retype .unknown] ++
        Sample.pass (setStage (Sample.stage .unknown) 1 Sample.row))
      (fun d => ∃ hit ∈ d.hits, hit.kind = some .unknown) (by decide +kernel)
    exact ⟨d, hreach, of_decide_eq_true hhit⟩
  refine ⟨hpublic, hunknown, fun h => ?_⟩
  obtain ⟨d, hreach, c, hc, hstatus, s, hs, hid, htype⟩ := hpublic
  exact (h d hreach).stored c hc hstatus s hs hid htype

end EligibilityEngine
