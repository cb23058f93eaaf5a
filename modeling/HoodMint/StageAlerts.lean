/-
Alerts for stages that open soon (`apps/worker/src/workers/stage-alerts.ts`,
`packages/core/src/stage-alerts.ts`, `ALERT_STAGE_WINDOWS_MINUTES` of
`packages/config/src/index.ts`, `upcomingDropStages` of `packages/db/src/repositories/projects.ts`).

* `stageWindows` — the windows as the configuration gives them, the widest one first;
* `dueStageStartingWindows` — those a stage has crossed;
* `runStageStartingPass` — one pass, and `AlertRun` — passes, dispatchers of the outbox and writers
  of the stages, side by side;
* `stage_alerted` — a pass that returns has left a row for every window that any stage had crossed
  when it read them;
* `alerts_exact` — there are no other rows of this kind, and the passes count each row once.

What an alert says is whatever `render` makes of its stage; and what else is done to the outbox is
left open.
-/
import HoodMint.AutoMint
import HoodMint.DedupeKeys

namespace StageAlerts

open Effect Transition Utf16
open Notifications (AlertKeyParts EnqueueAlertInput OutboxRow OutboxRun OutboxStep Payload
  alertDedupeKey keyText ofText_keyText)

/-! ### Windows -/

/-- `ALERT_STAGE_WINDOWS_MINUTES`; nothing where the configuration is refused. -/
def stageWindows (text : String) : Option (List ℤ) :=
  let parts := (((Text.trim text).toList.splitOn ',').map fun part =>
    Text.trim (String.ofList part)).filter (· ≠ "")
  -- a part that is no number is not positive either
  match parts.mapM AutoMint.parseInt with
  | none => none
  | some minutes =>
    if minutes ≠ [] ∧ minutes.all (0 < ·) then some (minutes.insertionSort (· ≥ ·)) else none

example : stageWindows " 5, 60 ,15" = some [60, 15, 5] := by decide +kernel

/-- `dueStageStartingWindows`. -/
def dueStageStartingWindows (msUntilStart : ℤ) (windows : List ℤ) : List ℤ :=
  if msUntilStart ≤ 0 then [] else windows.filter fun minutes => msUntilStart ≤ minutes * 60000

theorem mem_due {ms w : ℤ} {windows : List ℤ} :
    w ∈ dueStageStartingWindows ms windows ↔ 0 < ms ∧ w ∈ windows ∧ ms ≤ w * 60000 := by
  rw [dueStageStartingWindows]
  split
  · simp only [List.not_mem_nil, false_iff]
    omega
  · next hms =>
    simp only [List.mem_filter, decide_eq_true_eq]
    exact ⟨fun h => ⟨by omega, h⟩, fun h => h.2⟩

/-- **The first window is the widest.** -/
theorem le_head_of_stageWindows {text : String} {windows : List ℤ} {widest w : ℤ}
    (h : stageWindows text = some windows) (hhead : windows.head? = some widest)
    (hw : w ∈ windows) : w ≤ widest := by
  rw [stageWindows] at h
  split at h
  · exact absurd h nofun
  · next minutes _ =>
    split at h
    · obtain rfl := Option.some_inj.mp h
      obtain ⟨rest, hrest⟩ := List.head?_eq_some_iff.mp hhead
      have hsorted := List.pairwise_insertionSort (fun a b : ℤ => a ≥ b) minutes
      rw [hrest] at hsorted hw
      rcases List.mem_cons.mp hw with rfl | hw
      · exact le_rfl
      · exact (List.pairwise_cons.mp hsorted).1 w hw
    · exact absurd h nofun

theorem ne_nil_of_stageWindows {text : String} {windows : List ℤ}
    (h : stageWindows text = some windows) : windows ≠ [] := by
  rw [stageWindows] at h
  split at h
  · exact absurd h nofun
  · next minutes _ =>
    split at h
    · next hminutes =>
      obtain rfl := Option.some_inj.mp h
      intro hnil
      have hlength := List.length_insertionSort (fun a b : ℤ => a ≥ b) minutes
      rw [hnil] at hlength
      exact hminutes.1 (List.eq_nil_of_length_eq_zero hlength.symm)
    · exact absurd h nofun

/-! ### Stages -/

/-- A row of `drop_stages` with its project's name and slug. -/
structure StageRow where
  stageId : String
  projectId : String
  projectName : String
  projectSlug : Option String
  stageLabel : String
  stagePriceWei : Option String
  stageMaxPerWallet : Option ℕ
  startsAt : Option ℤ
  endsAt : Option ℤ
  paused : Bool

/-- `UpcomingStage`. -/
structure UpcomingStage where
  stageId : String
  projectId : String
  projectName : String
  projectSlug : Option String
  stageLabel : String
  stagePriceWei : Option String
  stageMaxPerWallet : Option ℕ
  startsAt : ℤ
  endsAt : Option ℤ
deriving DecidableEq

/-- A row that `upcomingDropStages` selects. -/
def StageRow.upcoming? (now maxWindowMinutes : ℤ) (r : StageRow) : Option UpcomingStage :=
  match r.startsAt with
  | none => none
  | some startsAt =>
    if now < startsAt ∧ startsAt ≤ now + maxWindowMinutes * 60000 ∧ r.paused = false then
      some ⟨r.stageId, r.projectId, r.projectName, r.projectSlug, r.stageLabel, r.stagePriceWei,
        r.stageMaxPerWallet, startsAt, r.endsAt⟩
    else none

/-- What `upcomingDropStages` can answer: the rows it selects, the soonest first. -/
def Upcoming (now maxWindowMinutes : ℤ) (rows : List StageRow) (answer : List UpcomingStage) :
    Prop :=
  answer.Perm (rows.filterMap (StageRow.upcoming? now maxWindowMinutes)) ∧
    answer.Pairwise fun a b => a.startsAt ≤ b.startsAt

/-! ### One pass -/

/-- What makes two of these alerts the same. -/
def keyParts (stage : UpcomingStage) (thresholdMinutes : ℤ) : AlertKeyParts where
  deploymentId := ofText "default"
  walletId := []
  projectId := ofText stage.projectId
  stageId := ofText stage.stageId
  alertType := ofText "stage_starting"
  thresholdMinutes := thresholdMinutes

def dedupeKey (stage : UpcomingStage) (thresholdMinutes : ℤ) : String :=
  keyText ["default", "", stage.projectId, stage.stageId, "stage_starting", thresholdMinutes.repr]

/-- Its key is that of its parts. -/
theorem ofText_dedupeKey (stage : UpcomingStage) (thresholdMinutes : ℤ) :
    ofText (dedupeKey stage thresholdMinutes) =
      alertDedupeKey (keyParts stage thresholdMinutes) :=
  ofText_keyText _

/-- What a pass asks for. -/
inductive Cmd
  | upcomingDropStages (now maxWindowMinutes : ℤ)
  | enqueueAlert (input : EnqueueAlertInput)

/-- An insert returns the identifier of its row, if there was none with that key. -/
abbrev Cmd.Resp : Cmd → Type
  | .upcomingDropStages .. => List UpcomingStage
  | .enqueueAlert _ => Option String

/-- A command that has thrown. -/
structure Thrown where
  message : String

abbrev signature : Signature := ⟨Cmd, Cmd.Resp⟩

abbrev Pass := Prog signature Thrown

abbrev ask (c : Cmd) : Pass c.Resp := Prog.issue (S := signature) c

structure StageStartingSummary where
  candidates : ℕ
  enqueued : ℕ
deriving DecidableEq

section

variable (render : UpcomingStage → ℤ → ℤ → Payload)

/-- `enqueueStageStarting`; whether a row was made. -/
def enqueueStageStarting (now : ℤ) (stage : UpcomingStage) (thresholdMinutes : ℤ) : Pass Bool := do
  let rows ← ask (.enqueueAlert
    { dedupeKey := dedupeKey stage thresholdMinutes
      alertType := "stage_starting"
      projectId := some stage.projectId
      stageId := some stage.stageId
      thresholdMinutes
      payload := render stage thresholdMinutes now })
  return rows.isSome

/-- The inner loop. -/
def enqueueWindows (now : ℤ) (stage : UpcomingStage) : List ℤ → ℕ → Pass ℕ
  | [], enqueued => return enqueued
  | thresholdMinutes :: rest, enqueued => do
    let created ← enqueueStageStarting render now stage thresholdMinutes
    enqueueWindows now stage rest (if created then enqueued + 1 else enqueued)

/-- The outer loop. -/
def enqueueStages (windows : List ℤ) (now : ℤ) : List UpcomingStage → ℕ → Pass ℕ
  | [], enqueued => return enqueued
  | stage :: rest, enqueued => do
    let enqueued ← enqueueWindows render now stage
      (dueStageStartingWindows (stage.startsAt - now) windows) enqueued
    enqueueStages windows now rest enqueued

/-- `runStageStartingPass`, begun at `now`. -/
def runStageStartingPass (windows : List ℤ) (now : ℤ) : Pass StageStartingSummary :=
  match windows.head? with
  | none => return ⟨0, 0⟩
  | some maxWindowMinutes => do
    let stages ← ask (.upcomingDropStages now maxWindowMinutes)
    let enqueued ← enqueueStages render windows now stages 0
    return ⟨stages.length, enqueued⟩

end

/-! ### Passes side by side -/

/-- What a pass has read, the keys it has asked for and those it has made rows of. -/
structure Here where
  now : ℤ
  read : Option (List UpcomingStage) := none
  asked : List String := []
  made : List String := []

/-- The stages of a pass and the windows they had crossed. -/
def Here.Due (windows : List ℤ) (here : Here) (key : String) : Prop :=
  ∃ stages, here.read = some stages ∧ ∃ stage ∈ stages,
    ∃ w ∈ dueStageStartingWindows (stage.startsAt - here.now) windows, key = dedupeKey stage w

/-- A pass reads once, with the widest window, and asks for what is due. -/
def turns (windows : List ℤ) : Monitor signature Thrown Here where
  guard here c :=
    match c with
    | .upcomingDropStages now maxWindowMinutes =>
      now = here.now ∧ windows.head? = some maxWindowMinutes ∧ here.read = none
    | .enqueueAlert input => here.Due windows input.dedupeKey
  allowed _ _ _ := True
  next here c x :=
    match c, x with
    | .upcomingDropStages .., .ok stages => { here with read := some stages }
    | .enqueueAlert input, .ok none => { here with asked := input.dedupeKey :: here.asked }
    | .enqueueAlert input, .ok (some _) =>
      { here with
        asked := input.dedupeKey :: here.asked
        made := input.dedupeKey :: here.made }
    | _, .error _ => here

/-- The outbox with its dispatchers, the stages, and the time. -/
structure AlertWorld where
  outbox : OutboxRun
  stages : List StageRow
  clock : ℤ

namespace AlertWorld

/-- `enqueueAlert`, with the identifier the database has drawn. -/
def enqueue (w : AlertWorld) (id : String) (input : EnqueueAlertInput) : AlertWorld :=
  { w with outbox := ⟨{ w.outbox.world with
    outbox := w.outbox.world.outbox.enqueueAlert id w.clock input }, w.outbox.dispatchers⟩ }

end AlertWorld

/-- The tables answer what they hold; anything may fail, and has then changed nothing. -/
def alertWorld : Monitor signature Thrown AlertWorld where
  guard _ _ := True
  allowed w c x :=
    match c, x with
    | .upcomingDropStages now maxWindowMinutes, .ok stages =>
      Upcoming now maxWindowMinutes w.stages stages
    | .enqueueAlert input, .ok none => ∃ r ∈ w.outbox.world.outbox, r.dedupeKey = input.dedupeKey
    | .enqueueAlert input, .ok (some id) =>
      (∀ r ∈ w.outbox.world.outbox, r.dedupeKey ≠ input.dedupeKey) ∧
        ∀ r ∈ w.outbox.world.outbox, r.id ≠ id
    | _, .error _ => True
  next w c x :=
    match c, x with
    | .enqueueAlert input, .ok (some id) => w.enqueue id input
    | _, _ => w

instance (w : AlertWorld) (c : Cmd) (x : Except Thrown c.Resp) :
    Decidable (alertWorld.allowed w c x) := by
  induction c using Cmd.casesOn with
  | upcomingDropStages now maxWindowMinutes =>
    exact match x with
      | .error _ => isTrue trivial
      | .ok stages => (inferInstance : Decidable (stages.Perm
          (w.stages.filterMap (StageRow.upcoming? now maxWindowMinutes)) ∧
            stages.Pairwise fun a b => a.startsAt ≤ b.startsAt))
  | enqueueAlert input =>
    exact match x with
      | .error _ => isTrue trivial
      | .ok none =>
        (inferInstance : Decidable (∃ r ∈ w.outbox.world.outbox, r.dedupeKey = input.dedupeKey))
      | .ok (some id) =>
        (inferInstance : Decidable ((∀ r ∈ w.outbox.world.outbox,
          r.dedupeKey ≠ input.dedupeKey) ∧ ∀ r ∈ w.outbox.world.outbox, r.id ≠ id))

abbrev PassTask := Task signature Thrown StageStartingSummary Here

/-- The tables, and the passes that have been started. -/
structure AlertRun where
  world : AlertWorld
  passes : List PassTask

/-- Something else is done to the outbox, the stages are written, time goes by, a pass is started,
or one of a pass's commands answered. -/
inductive AlertStep
  | outbox (l : OutboxStep)
  | stages (rows : List StageRow)
  | tick (now : ℤ)
  | pass
  | advance (i : ℕ) (answer : (c : Cmd) → Except Thrown c.Resp)

namespace AlertRun

def step (windows : List ℤ) (iso : ℤ → String) (render : UpcomingStage → ℤ → ℤ → Payload)
    (s : AlertRun) : AlertStep → Option AlertRun
  | .outbox l => (s.world.outbox.step iso l).map fun outbox => ⟨{ s.world with outbox }, s.passes⟩
  | .stages rows => some ⟨{ s.world with stages := rows }, s.passes⟩
  | .tick now => some ⟨{ s.world with clock := now }, s.passes⟩
  | .pass => some ⟨s.world, s.passes ++
      [⟨runStageStartingPass render windows s.world.clock, { now := s.world.clock }⟩]⟩
  | .advance i answer =>
    (advance alertWorld (turns windows) s.world s.passes i answer).map fun r => ⟨r.1, r.2⟩

/-- Nothing enqueued, and no pass started. -/
def start (stages : List StageRow) (clock : ℤ) : AlertRun := ⟨⟨.start, stages, clock⟩, []⟩

end AlertRun

/-! ### One pass's turns -/

section

variable {windows : List ℤ} {render : UpcomingStage → ℤ → ℤ → Payload} {here here' : Here}
  {now : ℤ} {stage : UpcomingStage}

/-- A pass goes on. -/
structure Here.Follows (here here' : Here) : Prop where
  now : here'.now = here.now
  read : here'.read = here.read
  asked : ∀ key ∈ here.asked, key ∈ here'.asked

theorem Here.Follows.refl (here : Here) : here.Follows here := ⟨rfl, rfl, fun _ h => h⟩

theorem Here.Follows.trans {here'' : Here} (h : here.Follows here') (h' : here'.Follows here'') :
    here.Follows here'' :=
  ⟨h'.now.trans h.now, h'.read.trans h.read, fun key hk => h'.asked key (h.asked key hk)⟩

theorem Here.Due.follows {key : String} (hdue : here.Due windows key) (h : here.Follows here') :
    here'.Due windows key := by
  obtain ⟨stages, hread, hstage⟩ := hdue
  refine ⟨stages, h.read.trans hread, ?_⟩
  rwa [h.now]

theorem enqueueStageStarting_turns {w : ℤ} (hdue : here.Due windows (dedupeKey stage w)) :
    (enqueueStageStarting render now stage w).wp (turns windows)
      (Prog.onReturn fun created here' => here.Follows here' ∧ dedupeKey stage w ∈ here'.asked ∧
        here'.made.length = here.made.length + if created then 1 else 0) here := by
  refine Prog.onReturn_issue_bind hdue fun answer _ => ?_
  have hkeep : ∀ key ∈ here.asked, key ∈ dedupeKey stage w :: here.asked :=
    fun key hk => List.mem_cons_of_mem _ hk
  cases answer with
  | none => exact ⟨⟨rfl, rfl, hkeep⟩, List.mem_cons_self, rfl⟩
  | some id => exact ⟨⟨rfl, rfl, hkeep⟩, List.mem_cons_self, rfl⟩

theorem enqueueWindows_turns {ws : List ℤ} (hdue : ∀ w ∈ ws, here.Due windows (dedupeKey stage w)) :
    (enqueueWindows render now stage ws here.made.length).wp (turns windows)
      (Prog.onReturn fun enqueued here' => here.Follows here' ∧
        (∀ w ∈ ws, dedupeKey stage w ∈ here'.asked) ∧ enqueued = here'.made.length) here := by
  induction ws generalizing here with
  | nil => exact ⟨.refl here, fun w hw => absurd hw List.not_mem_nil, rfl⟩
  | cons w ws ih =>
    refine Prog.onReturn_bind (enqueueStageStarting_turns (hdue w List.mem_cons_self)) ?_
    rintro created here₁ ⟨hfollows, hasked, hmade⟩
    have hcount : (if created then here.made.length + 1 else here.made.length) =
        here₁.made.length := by
      rw [hmade]
      split <;> rfl
    rw [hcount]
    refine Prog.wp_mono (ih fun w' hw' =>
      (hdue w' (List.mem_cons_of_mem _ hw')).follows hfollows) ?_
    rintro (e | enqueued) here₂ hpost
    · trivial
    · obtain ⟨hfollows₂, hrest, henqueued⟩ := hpost
      refine ⟨hfollows.trans hfollows₂, fun w' hw' => ?_, henqueued⟩
      rcases List.mem_cons.mp hw' with rfl | hw'
      · exact hfollows₂.asked _ hasked
      · exact hrest w' hw'

theorem enqueueStages_turns {stages all : List UpcomingStage} (here : Here)
    (hread : here.read = some all) (hsub : ∀ stage ∈ stages, stage ∈ all) :
    (enqueueStages render windows here.now stages here.made.length).wp (turns windows)
      (Prog.onReturn fun enqueued here' => here.Follows here' ∧
        (∀ stage ∈ stages, ∀ w ∈ dueStageStartingWindows (stage.startsAt - here.now) windows,
          dedupeKey stage w ∈ here'.asked) ∧ enqueued = here'.made.length) here := by
  induction stages generalizing here with
  | nil => exact ⟨.refl here, fun stage hstage => absurd hstage List.not_mem_nil, rfl⟩
  | cons stage rest ih =>
    have hdue : ∀ w ∈ dueStageStartingWindows (stage.startsAt - here.now) windows,
        here.Due windows (dedupeKey stage w) :=
      fun w hw => ⟨all, hread, stage, hsub stage List.mem_cons_self, w, hw, rfl⟩
    refine Prog.onReturn_bind (enqueueWindows_turns hdue) ?_
    rintro enqueued here₁ ⟨hfollows, hasked, rfl⟩
    rw [← hfollows.now]
    refine Prog.wp_mono (ih here₁ (hfollows.read.trans hread)
      fun stage' hstage' => hsub stage' (List.mem_cons_of_mem _ hstage')) ?_
    rintro (e | enqueued) here₂ hpost
    · trivial
    · obtain ⟨hfollows₂, hrest, henqueued⟩ := hpost
      refine ⟨hfollows.trans hfollows₂, fun stage' hstage' w hw => ?_, henqueued⟩
      rw [hfollows.now] at hw hrest
      rcases List.mem_cons.mp hstage' with rfl | hstage'
      · exact hfollows₂.asked _ (hasked w hw)
      · exact hrest stage' hstage' w hw

/-- What a pass that returns has done. -/
def Returned (windows : List ℤ) (summary : StageStartingSummary) (here : Here) : Prop :=
  ∃ stages, here.read = some stages ∧ summary = ⟨stages.length, here.made.length⟩ ∧
    ∀ key, here.Due windows key → key ∈ here.asked

theorem runStageStartingPass_turns (hwindows : windows ≠ []) :
    (runStageStartingPass render windows now).wp (turns windows)
      (Prog.onReturn (Returned windows)) { now } := by
  obtain ⟨widest, rest, rfl⟩ := List.exists_cons_of_ne_nil hwindows
  refine Prog.onReturn_issue_bind ⟨rfl, rfl, rfl⟩ fun stages _ => ?_
  refine Prog.onReturn_bind (enqueueStages_turns ⟨now, some stages, [], []⟩ rfl fun _ h => h) ?_
  rintro enqueued here ⟨hfollows, hasked, rfl⟩
  refine ⟨stages, hfollows.read, rfl, ?_⟩
  rintro key ⟨stages', hread', stage, hstage, w, hw, rfl⟩
  obtain rfl := Option.some_inj.mp (hfollows.read.symm.trans hread')
  rw [hfollows.now] at hw
  exact hasked stage hstage w hw

end

/-! ### What holds of every run -/

/-- The key of an alert of this kind. -/
def StageStarting (key : String) : Prop :=
  ∃ parts : AlertKeyParts, parts.alertType = ofText "stage_starting" ∧
    ofText key = alertDedupeKey parts

theorem stageStarting_dedupeKey (stage : UpcomingStage) (w : ℤ) :
    StageStarting (dedupeKey stage w) :=
  ⟨keyParts stage w, rfl, ofText_dedupeKey stage w⟩

/-- What is enqueued elsewhere is of another kind. -/
def Others (_ : AlertRun) : AlertStep → Prop
  | .outbox (.enqueueAlert _ _ input) => ¬ StageStarting input.dedupeKey
  | _ => True

/-- The keys of which the passes have made rows. -/
def made (passes : List PassTask) : List String := passes.flatMap fun t => t.here.made

theorem made_perm {passes : List PassTask} {i : ℕ} {t : PassTask} (hi : passes[i]? = some t) :
    (made passes).Perm (t.here.made ++ made (passes.eraseIdx i)) := by
  obtain ⟨hlt, rfl⟩ := List.getElem?_eq_some_iff.mp hi
  exact (List.getElem_cons_eraseIdx_perm hlt).symm.flatMap_right _

theorem made_set_perm {passes : List PassTask} {i : ℕ} {t : PassTask} (hi : passes[i]? = some t)
    (t' : PassTask) :
    (made (passes.set i t')).Perm (t'.here.made ++ made (passes.eraseIdx i)) :=
  (List.set_perm_cons_eraseIdx (List.getElem?_eq_some_iff.mp hi).1 t').flatMap_right _

/-- A step of the outbox adds a row for what it enqueues only, and keeps every key. -/
theorem keys_of_step {iso : ℤ → String} {o o' : OutboxRun} {l : OutboxStep} (hok : o.Ok)
    (h : o.step iso l = some o') :
    (∀ r' ∈ o'.world.outbox, (∃ r ∈ o.world.outbox, r.dedupeKey = r'.dedupeKey) ∨
      ∃ id now input, l = .enqueueAlert id now input ∧ r'.dedupeKey = input.dedupeKey) ∧
    ∀ r ∈ o.world.outbox, ∃ r' ∈ o'.world.outbox, r'.dedupeKey = r.dedupeKey := by
  have hevolves := OutboxRun.Evolves.of_step hok h
  refine ⟨fun r' hr' => ?_, fun r hr => ?_⟩
  · cases l with
    | dispatch deps =>
      obtain rfl := Option.some_inj.mp h
      exact Or.inl ⟨r', hr', rfl⟩
    | enqueueAlert id now input =>
      rw [OutboxRun.step] at h
      split at h
      · exact absurd h.symm (Option.some_ne_none _)
      · obtain rfl := Option.some_inj.mp h
        by_cases hkey : ∃ r ∈ o.world.outbox, r.dedupeKey = input.dedupeKey
        · rw [Notifications.Outbox.enqueueAlert, if_pos hkey] at hr'
          exact Or.inl ⟨r', hr', rfl⟩
        · rw [Notifications.Outbox.enqueueAlert, if_neg hkey] at hr'
          rcases Relational.Table.mem_insert.mp hr' with hr' | ⟨rfl, -⟩
          · exact Or.inl ⟨r', hr', rfl⟩
          · exact Or.inr ⟨id, now, input, rfl, rfl⟩
    | advance i answer =>
      -- a dispatcher's command moves rows and adds none
      obtain ⟨c, k, here, hi, hx, rfl⟩ := OutboxRun.step_advance_cases h
      have hc := hok.consistent.perm (OutboxRun.held_perm hi)
      have hguard := (safe_advance hi hok.safe (hc.turns_allowed hx)).1
      obtain ⟨r, hr, hfollows⟩ := ((Notifications.turn_next hguard hx).follows hc).2 r' hr'
      exact Or.inl ⟨r, hr, hfollows.dedupeKey.symm⟩
  · obtain ⟨r', hr', hfollows⟩ := hevolves.kept r hr
    exact ⟨r', hr', hfollows.dedupeKey⟩

/-- The rows of these alerts are those the passes have made, one by one. -/
structure Inv (windows : List ℤ) (s : AlertRun) : Prop where
  ok : s.world.outbox.Ok
  safe : ∀ t ∈ s.passes, t.Safe (turns windows) (Prog.onReturn (Returned windows))
  due : ∀ t ∈ s.passes, ∀ key ∈ t.here.asked, t.here.Due windows key
  sub : ∀ t ∈ s.passes, ∀ key ∈ t.here.made, key ∈ t.here.asked
  rows : ∀ t ∈ s.passes, ∀ key ∈ t.here.asked,
    ∃ r ∈ s.world.outbox.world.outbox, r.dedupeKey = key
  known : ∀ r ∈ s.world.outbox.world.outbox, StageStarting r.dedupeKey →
    r.dedupeKey ∈ made s.passes
  once : (made s.passes).Nodup

namespace Inv

variable {windows : List ℤ} {iso : ℤ → String} {render : UpcomingStage → ℤ → ℤ → Payload}
  {s s' : AlertRun}

theorem start (stages : List StageRow) (clock : ℤ) : Inv windows (.start stages clock) where
  ok := OutboxRun.ok_start
  safe _ ht := absurd ht List.not_mem_nil
  due _ ht := absurd ht List.not_mem_nil
  sub _ ht := absurd ht List.not_mem_nil
  rows _ ht := absurd ht List.not_mem_nil
  known _ hr := absurd hr List.not_mem_nil
  once := List.nodup_nil

/-- What else is done to the outbox. -/
theorem outbox (h : Inv windows s) {l : OutboxStep} {o : OutboxRun}
    (hl : Others s (.outbox l)) (hstep : s.world.outbox.step iso l = some o) :
    Inv windows ⟨{ s.world with outbox := o }, s.passes⟩ := by
  obtain ⟨hnew, hkept⟩ := keys_of_step h.ok hstep
  refine ⟨h.ok.step hstep, h.safe, h.due, h.sub, fun t ht key hkey => ?_, fun r' hr' hkind => ?_,
    h.once⟩
  · obtain ⟨r, hr, rfl⟩ := h.rows t ht key hkey
    exact hkept r hr
  · rcases hnew r' hr' with ⟨r, hr, heq⟩ | ⟨id, now, input, rfl, heq⟩
    · exact heq ▸ h.known r hr (heq ▸ hkind)
    · exact absurd (heq ▸ hkind) hl

theorem pass (h : Inv windows s) (hwindows : windows ≠ []) : Inv windows ⟨s.world, s.passes ++
    [⟨runStageStartingPass render windows s.world.clock, { now := s.world.clock }⟩]⟩ := by
  have hmade : made (s.passes ++ [⟨runStageStartingPass render windows s.world.clock,
      { now := s.world.clock }⟩]) = made s.passes := by
    simp [made]
  refine ⟨h.ok, fun t ht => ?_, fun t ht => ?_, fun t ht => ?_, fun t ht => ?_, ?_, ?_⟩
  · exact of_mem_enter ht h.safe (runStageStartingPass_turns hwindows)
  · exact of_mem_enter ht h.due (fun key hkey => absurd hkey List.not_mem_nil)
  · exact of_mem_enter ht h.sub (fun key hkey => absurd hkey List.not_mem_nil)
  · exact of_mem_enter ht h.rows (fun key hkey => absurd hkey List.not_mem_nil)
  · rw [hmade]
    exact h.known
  · rw [hmade]
    exact h.once

/-- A pass has moved on without making a row. -/
theorem set (h : Inv windows s) {i : ℕ} {t t' : PassTask} (hi : s.passes[i]? = some t)
    (hsafe : ∀ u ∈ s.passes.set i t', u.Safe (turns windows) (Prog.onReturn (Returned windows)))
    (hdue : ∀ key ∈ t'.here.asked, t'.here.Due windows key)
    (hsub : ∀ key ∈ t'.here.made, key ∈ t'.here.asked)
    (hrows : ∀ key ∈ t'.here.asked, ∃ r ∈ s.world.outbox.world.outbox, r.dedupeKey = key)
    (hmade : t'.here.made = t.here.made) : Inv windows ⟨s.world, s.passes.set i t'⟩ := by
  have hperm : (StageAlerts.made (s.passes.set i t')).Perm (StageAlerts.made s.passes) := by
    have hset := made_set_perm hi t'
    rw [hmade] at hset
    exact hset.trans (made_perm hi).symm
  refine ⟨h.ok, hsafe, fun u hu => ?_, fun u hu => ?_, fun u hu => ?_, fun r hr hkind => ?_,
    hperm.nodup_iff.mpr h.once⟩
  · exact of_mem_replace hu h.due hdue
  · exact of_mem_replace hu h.sub hsub
  · exact of_mem_replace hu h.rows hrows
  · exact hperm.mem_iff.mpr (h.known r hr hkind)

/-- A pass has made a row. -/
theorem enqueue (iso : ℤ → String) (h : Inv windows s) {i : ℕ} {t t' : PassTask}
    (hi : s.passes[i]? = some t) {id : String} {input : EnqueueAlertInput}
    (hfresh : ∀ r ∈ s.world.outbox.world.outbox, r.dedupeKey ≠ input.dedupeKey)
    (hid : ∀ r ∈ s.world.outbox.world.outbox, r.id ≠ id)
    (hsafe : ∀ u ∈ s.passes.set i t', u.Safe (turns windows) (Prog.onReturn (Returned windows)))
    (hdue : t.here.Due windows input.dedupeKey) (hhere : t'.here =
      { t.here with
        asked := input.dedupeKey :: t.here.asked, made := input.dedupeKey :: t.here.made }) :
    Inv windows ⟨s.world.enqueue id input, s.passes.set i t'⟩ := by
  have hmem := List.mem_of_getElem? hi
  have hstep : s.world.outbox.step iso (.enqueueAlert id s.world.clock input) =
      some (s.world.enqueue id input).outbox := by
    have hno : ¬ ∃ r ∈ s.world.outbox.world.outbox, r.id = id := by
      rintro ⟨r, hr, heq⟩
      exact hid r hr heq
    rw [OutboxRun.step, if_neg hno]
    rfl
  obtain ⟨hnew, hkept⟩ := keys_of_step h.ok hstep
  have hrow : ∃ r ∈ (s.world.enqueue id input).outbox.world.outbox,
      r.dedupeKey = input.dedupeKey := by
    refine ⟨⟨id, input.dedupeKey, input.alertType, input.walletId, input.projectId, input.stageId,
      input.thresholdMinutes, input.payload, .pending, 0, s.world.clock, none, none, none⟩, ?_, rfl⟩
    show _ ∈ s.world.outbox.world.outbox.enqueueAlert id s.world.clock input
    have hno : ¬ ∃ r ∈ s.world.outbox.world.outbox, r.dedupeKey = input.dedupeKey := by
      rintro ⟨r, hr, heq⟩
      exact hfresh r hr heq
    rw [Notifications.Outbox.enqueueAlert, if_neg hno]
    exact Relational.Table.mem_insert.mpr (Or.inr ⟨rfl, fun r hr heq => hid r hr heq⟩)
  have hset : (made (s.passes.set i t')).Perm (input.dedupeKey :: made s.passes) := by
    have hperm := made_set_perm hi t'
    rw [hhere] at hperm
    exact hperm.trans ((made_perm hi).symm.cons _)
  -- the key is new: a key that a pass has made stands in a row
  have hnot : input.dedupeKey ∉ made s.passes := by
    intro hmade
    obtain ⟨u, hu, hkey⟩ := List.mem_flatMap.mp hmade
    obtain ⟨r, hr, heq⟩ := h.rows u hu _ (h.sub u hu _ hkey)
    exact hfresh r hr heq
  refine ⟨h.ok.step hstep, hsafe, fun u hu => ?_, fun u hu => ?_, fun u hu => ?_,
    fun r' hr' hkind => ?_, hset.nodup_iff.mpr (List.nodup_cons.mpr ⟨hnot, h.once⟩)⟩
  · rcases List.mem_or_eq_of_mem_set hu with hu | rfl
    · exact h.due u hu
    · rw [hhere]
      exact List.forall_mem_cons.mpr ⟨hdue, h.due t hmem⟩
  · rcases List.mem_or_eq_of_mem_set hu with hu | rfl
    · exact h.sub u hu
    · rw [hhere]
      refine List.forall_mem_cons.mpr ⟨List.mem_cons_self, fun key hkey => ?_⟩
      exact List.mem_cons_of_mem _ (h.sub t hmem key hkey)
  · have hold : ∀ v ∈ s.passes, ∀ key ∈ v.here.asked,
        ∃ r ∈ (s.world.enqueue id input).outbox.world.outbox, r.dedupeKey = key := by
      intro v hv key hkey
      obtain ⟨r, hr, rfl⟩ := h.rows v hv key hkey
      exact hkept r hr
    rcases List.mem_or_eq_of_mem_set hu with hu | rfl
    · exact hold u hu
    · rw [hhere]
      exact List.forall_mem_cons.mpr ⟨hrow, hold t hmem⟩
  · refine hset.mem_iff.mpr ?_
    rcases hnew r' hr' with ⟨r, hr, heq⟩ | ⟨_, _, _, hl, heq⟩
    · exact List.mem_cons_of_mem _ (heq ▸ h.known r hr (heq ▸ hkind))
    · obtain ⟨-, -, rfl⟩ := OutboxStep.enqueueAlert.inj hl
      exact heq ▸ List.mem_cons_self

/-- **The step.** -/
theorem step (h : Inv windows s) (hwindows : windows ≠ []) {l : AlertStep} (hl : Others s l)
    (hstep : s.step windows iso render l = some s') : Inv windows s' := by
  cases l with
  | outbox l =>
    obtain ⟨o, ho, rfl⟩ := Option.map_eq_some_iff.mp hstep
    exact h.outbox hl ho
  | stages rows =>
    obtain rfl := Option.some_inj.mp hstep
    exact ⟨h.ok, h.safe, h.due, h.sub, h.rows, h.known, h.once⟩
  | tick now =>
    obtain rfl := Option.some_inj.mp hstep
    exact ⟨h.ok, h.safe, h.due, h.sub, h.rows, h.known, h.once⟩
  | pass =>
    obtain rfl := Option.some_inj.mp hstep
    exact h.pass hwindows
  | advance i answer =>
    obtain ⟨⟨w', ts'⟩, ha, rfl⟩ := Option.map_eq_some_iff.mp hstep
    obtain ⟨c, k, here, hi, hx, rfl, rfl⟩ := advance_cases ha
    obtain ⟨hguard, hsafe⟩ := safe_advance hi h.safe (x := answer c) trivial
    have hdue : ∀ key ∈ here.asked, here.Due windows key := h.due _ (List.mem_of_getElem? hi)
    have hsub : ∀ key ∈ here.made, key ∈ here.asked := h.sub _ (List.mem_of_getElem? hi)
    have hrows : ∀ key ∈ here.asked, ∃ r ∈ s.world.outbox.world.outbox, r.dedupeKey = key :=
      h.rows _ (List.mem_of_getElem? hi)
    generalize hanswer : answer c = x at hx hsafe ⊢
    cases c with
    | upcomingDropStages now widest =>
      obtain ⟨-, -, hread⟩ := hguard
      -- nothing is asked for before the stages are read
      have hnone : ∀ key, key ∉ here.asked := by
        intro key hkey
        obtain ⟨stages, hsome, -⟩ := hdue key hkey
        exact absurd (hread.symm.trans hsome) nofun
      cases x with
      | error e => exact h.set hi hsafe hdue hsub hrows rfl
      | ok stages =>
        exact h.set hi hsafe (fun key hkey => absurd hkey (hnone key)) hsub hrows rfl
    | enqueueAlert input =>
      cases x with
      | error e => exact h.set hi hsafe hdue hsub hrows rfl
      | ok row =>
        cases row with
        | none =>
          refine h.set hi hsafe ?_ ?_ ?_ rfl
          · exact List.forall_mem_cons.mpr ⟨hguard, hdue⟩
          · exact fun key hkey => List.mem_cons_of_mem _ (hsub key hkey)
          · exact List.forall_mem_cons.mpr ⟨hx, hrows⟩
        | some id => exact h.enqueue iso hi hx.1 hx.2 hsafe hguard rfl

theorem of_reach (hwindows : windows ≠ []) {stages : List StageRow} {clock : ℤ}
    (h : Reach (AlertRun.step windows iso render) Others (.start stages clock) s) :
    Inv windows s :=
  h.invariant (.start stages clock) fun _ _ _ _ hi hl hstep => hi.step hwindows hl hstep

end Inv

section

variable {text : String} {windows : List ℤ} {iso : ℤ → String}
  {render : UpcomingStage → ℤ → ℤ → Payload} {stages : List StageRow} {clock : ℤ}
  {s s₁ s₂ : AlertRun}

/-- **Exactness.**  The rows of these alerts are those that the passes have made, one for a key;
each is for a stage that a pass had read, and for a window that the stage had crossed and that
was still open; and what a pass returns is what it has read and made. -/
theorem alerts_exact (htext : stageWindows text = some windows)
    (h : Reach (AlertRun.step windows iso render) Others (.start stages clock) s) :
    (made s.passes).Nodup ∧
    (∀ r ∈ s.world.outbox.world.outbox, ∀ r' ∈ s.world.outbox.world.outbox,
      r.dedupeKey = r'.dedupeKey → r = r') ∧
    (∀ key, key ∈ made s.passes ↔
      StageStarting key ∧ ∃ r ∈ s.world.outbox.world.outbox, r.dedupeKey = key) ∧
    (∀ r ∈ s.world.outbox.world.outbox, StageStarting r.dedupeKey →
      ∃ t ∈ s.passes, ∃ read, t.here.read = some read ∧ ∃ stage ∈ read, ∃ w ∈ windows,
        t.here.now < stage.startsAt ∧ stage.startsAt ≤ t.here.now + w * 60000 ∧
          r.StandsFor (keyParts stage w)) ∧
    ∀ t ∈ s.passes, ∀ summary, t.prog = .ret summary →
      ∃ read, t.here.read = some read ∧ summary = ⟨read.length, t.here.made.length⟩ := by
  have hinv := Inv.of_reach (ne_nil_of_stageWindows htext) h
  have hdue : ∀ t ∈ s.passes, ∀ key ∈ t.here.made, t.here.Due windows key :=
    fun t ht key hkey => hinv.due t ht key (hinv.sub t ht key hkey)
  have hkeys : ∀ r ∈ s.world.outbox.world.outbox, ∀ r' ∈ s.world.outbox.world.outbox,
      r.dedupeKey = r'.dedupeKey → r = r' := fun r hr r' hr' heq =>
    List.inj_on_of_nodup_map hinv.ok.consistent.keys hr hr' heq
  refine ⟨hinv.once, hkeys, fun key => ⟨fun hkey => ?_, ?_⟩, fun r hr hkind => ?_, ?_⟩
  · obtain ⟨t, ht, hmade⟩ := List.mem_flatMap.mp hkey
    obtain ⟨-, -, stage, -, w, -, rfl⟩ := hdue t ht key hmade
    exact ⟨stageStarting_dedupeKey stage w, hinv.rows t ht _ (hinv.sub t ht _ hmade)⟩
  · rintro ⟨hkind, r, hr, rfl⟩
    exact hinv.known r hr hkind
  · obtain ⟨t, ht, hmade⟩ := List.mem_flatMap.mp (hinv.known r hr hkind)
    obtain ⟨read, hread, stage, hstage, w, hw, hkey⟩ := hdue t ht _ hmade
    obtain ⟨hopen, hw, hcrossed⟩ := mem_due.mp hw
    refine ⟨t, ht, read, hread, stage, hstage, w, hw, by omega, by omega, ?_⟩
    rw [OutboxRow.StandsFor, hkey, ofText_dedupeKey]
  · rintro ⟨-, here⟩ ht summary rfl
    obtain ⟨read, hread, hsummary, -⟩ := hinv.safe _ ht
    exact ⟨read, hread, hsummary⟩

/-- What a pass has read stays as it is. -/
theorem read_kept (hwindows : windows ≠ []) {i : ℕ} {now : ℤ} {read : List UpcomingStage}
    (hinv : Inv windows s₁)
    (hread : ∃ t, s₁.passes[i]? = some t ∧ t.here.read = some read ∧ t.here.now = now)
    (h : Reach (AlertRun.step windows iso render) Others s₁ s₂) :
    Inv windows s₂ ∧
      ∃ t, s₂.passes[i]? = some t ∧ t.here.read = some read ∧ t.here.now = now := by
  refine h.invariant (I := fun s => Inv windows s ∧
    ∃ t, s.passes[i]? = some t ∧ t.here.read = some read ∧ t.here.now = now) ⟨hinv, hread⟩ ?_
  rintro s l s' - ⟨hinv, t, hi, hread, hnow⟩ hl hstep
  refine ⟨hinv.step hwindows hl hstep, ?_⟩
  cases l with
  | outbox l =>
    obtain ⟨o, -, rfl⟩ := Option.map_eq_some_iff.mp hstep
    exact ⟨t, hi, hread, hnow⟩
  | stages rows =>
    obtain rfl := Option.some_inj.mp hstep
    exact ⟨t, hi, hread, hnow⟩
  | tick now =>
    obtain rfl := Option.some_inj.mp hstep
    exact ⟨t, hi, hread, hnow⟩
  | pass =>
    obtain rfl := Option.some_inj.mp hstep
    exact ⟨t, (List.getElem?_append_left (List.getElem?_eq_some_iff.mp hi).1).trans hi, hread,
      hnow⟩
  | advance j answer =>
    obtain ⟨⟨w', ts'⟩, ha, rfl⟩ := Option.map_eq_some_iff.mp hstep
    obtain ⟨c, k, here, hj, -, rfl, rfl⟩ := advance_cases ha
    have hguard := (safe_advance hj hinv.safe (x := answer c) trivial).1
    by_cases hij : j = i
    · subst hij
      obtain rfl := Option.some_inj.mp (hj.symm.trans hi)
      have hlt := (List.getElem?_eq_some_iff.mp hj).1
      refine ⟨_, List.getElem?_set_self hlt, ?_⟩
      generalize answer c = x
      cases c with
      | upcomingDropStages now' widest => exact absurd (hguard.2.2.symm.trans hread) nofun
      | enqueueAlert input =>
        cases x with
        | error e => exact ⟨hread, hnow⟩
        | ok row => cases row <;> exact ⟨hread, hnow⟩
    · exact ⟨t, (List.getElem?_set_ne hij).trans hi, hread, hnow⟩

/-- **Completeness.**  A stage that is not paused, and that opens within one of the windows of the
time a pass has begun at, has the row for that window, and only one, once that pass has returned:
whatever other passes, the dispatchers and the writers of the stages do meanwhile. -/
theorem stage_alerted (htext : stageWindows text = some windows)
    (h : Reach (AlertRun.step windows iso render) Others (.start stages clock) s)
    {i : ℕ} {now widest : ℤ} {k : Except Thrown (List UpcomingStage) → Pass StageStartingSummary}
    {here : Here} (hi : s.passes[i]? = some ⟨.call (.upcomingDropStages now widest) k, here⟩)
    {answer : (c : Cmd) → Except Thrown c.Resp} {read : List UpcomingStage}
    (hanswer : answer (.upcomingDropStages now widest) = .ok read)
    (hstep : s.step windows iso render (.advance i answer) = some s₁)
    (hrest : Reach (AlertRun.step windows iso render) Others s₁ s₂)
    {summary : StageStartingSummary} {here₂ : Here}
    (hreturned : s₂.passes[i]? = some ⟨.ret summary, here₂⟩) {row : StageRow}
    (hrow : row ∈ s.world.stages) (hpaused : row.paused = false) {startsAt w : ℤ}
    (hstarts : row.startsAt = some startsAt) (hw : w ∈ windows) (hopen : now < startsAt)
    (hcrossed : startsAt ≤ now + w * 60000) :
    ∃! r, r ∈ s₂.world.outbox.world.outbox ∧ r.StandsFor ⟨ofText "default", [],
      ofText row.projectId, ofText row.stageId, ofText "stage_starting", w⟩ := by
  have hwindows := ne_nil_of_stageWindows htext
  have hinv := Inv.of_reach hwindows h
  have hinv₁ : Inv windows s₁ := hinv.step hwindows (l := .advance i answer) trivial hstep
  obtain ⟨⟨w', ts'⟩, ha, rfl⟩ := Option.map_eq_some_iff.mp hstep
  obtain ⟨c, k', here', hi', hx, rfl, rfl⟩ := advance_cases ha
  rw [hi, Option.some_inj, Task.mk.injEq] at hi'
  obtain ⟨hcall, rfl⟩ := hi'
  obtain ⟨rfl, hk⟩ := Prog.call.inj hcall
  obtain rfl := eq_of_heq hk
  rw [hanswer] at hx
  obtain ⟨hnow, hwidest, -⟩ := (safe_advance hi hinv.safe (x := .ok read) trivial).1
  -- the row is read, since the first window is the widest
  have hmem : (⟨row.stageId, row.projectId, row.projectName, row.projectSlug, row.stageLabel,
      row.stagePriceWei, row.stageMaxPerWallet, startsAt, row.endsAt⟩ : UpcomingStage) ∈ read := by
    have hle := le_head_of_stageWindows htext hwidest hw
    refine hx.1.mem_iff.mpr (List.mem_filterMap.mpr ⟨row, hrow, ?_⟩)
    simp only [StageRow.upcoming?, hstarts]
    rw [if_pos ⟨hopen, by omega, hpaused⟩]
  have hset := List.getElem?_set_self (a := (⟨k (.ok read), { here with read := some read }⟩ :
    PassTask)) (List.getElem?_eq_some_iff.mp hi).1
  rw [hanswer] at hinv₁ hrest
  obtain ⟨hinv₂, t, ht, hread, hnow₂⟩ := read_kept hwindows hinv₁ ⟨_, hset, rfl, hnow.symm⟩ hrest
  have hdue : w ∈ dueStageStartingWindows (startsAt - t.here.now) windows :=
    mem_due.mpr ⟨by omega, hw, by omega⟩
  obtain rfl := Option.some_inj.mp (ht.symm.trans hreturned)
  obtain ⟨read', hread', -, hasked⟩ := hinv₂.safe _ (List.mem_of_getElem? ht)
  obtain ⟨r, hr, hkey⟩ := hinv₂.rows _ (List.mem_of_getElem? ht) _ (hasked _
    ⟨read, hread, _, hmem, w, hdue, rfl⟩)
  have hstands : r.StandsFor ⟨ofText "default", [], ofText row.projectId, ofText row.stageId,
      ofText "stage_starting", w⟩ := by
    rw [OutboxRow.StandsFor, hkey, ofText_dedupeKey]
    rfl
  refine ⟨r, ⟨hr, hstands⟩, ?_⟩
  rintro r' ⟨hr', hstands'⟩
  exact (OutboxRun.eq_iff_of_standsFor hinv₂.ok hr' hr hstands' hstands).mpr rfl

end

/-! ### A pass -/

namespace Sample

def row : StageRow :=
  ⟨"s", "p", "Drop", none, "Public", none, none, some 600000, none, false⟩

def upcoming : UpcomingStage := ⟨"s", "p", "Drop", none, "Public", none, none, 600000, none⟩

def render (_ : UpcomingStage) (_ _ : ℤ) : Payload := ⟨none, none, ""⟩

/-- Reads find the stage, and inserts make a row. -/
def answer (id : String) : (c : Cmd) → Except Thrown c.Resp
  | .upcomingDropStages .. => .ok [upcoming]
  | .enqueueAlert _ => .ok (some id)

def step : AlertRun → AlertStep → Option AlertRun :=
  AlertRun.step [60, 15, 5] (fun _ => "") render

def start : AlertRun := .start [row] 0

/-- Ten minutes before the stage opens. -/
def read : List AlertStep := [.pass, .advance 0 (answer "a")]

def enqueue : List AlertStep := [.advance 0 (answer "a"), .advance 0 (answer "b")]

theorem windows : stageWindows "60,15,5" = some [60, 15, 5] := by decide +kernel

/-- Nothing else is done to the outbox. -/
def quiet : AlertStep → Bool
  | .outbox _ => false
  | _ => true

theorem reach_of_run {ls : List AlertStep} {s s' : AlertRun} (hls : ls.all quiet = true)
    (h : run step s ls = some s') : Reach step Others s s' := by
  induction ls generalizing s with
  | nil =>
    obtain rfl := Option.some_inj.mp h
    exact .refl
  | cons l ls ih =>
    rw [run_cons] at h
    obtain ⟨s₁, hs₁, hrest⟩ := Option.bind_eq_some_iff.mp h
    obtain ⟨hl, hls⟩ := Bool.and_eq_true_iff.mp hls
    have hothers : Others s l := by
      cases l with
      | outbox => exact absurd hl nofun
      | _ => trivial
    exact (Reach.refl.tail hothers hs₁).trans (ih hls hrest)

end Sample

/-- Both windows are alerted. -/
theorem alerts_exact_twoWindows : ∃ s, Reach Sample.step Others Sample.start s ∧
    (made s.passes).Nodup ∧ (made s.passes).length = 2 := by
  obtain ⟨s, hrun, hlength⟩ : ∃ s, run Sample.step Sample.start (Sample.read ++ Sample.enqueue) =
      some s ∧ (made s.passes).length = 2 := ⟨_, rfl, rfl⟩
  have hs := Sample.reach_of_run rfl hrun
  exact ⟨s, hs, (alerts_exact Sample.windows hs).1, hlength⟩

/-- The window of a quarter of an hour. -/
theorem stage_alerted_quarter : ∃ s, Reach Sample.step Others Sample.start s ∧
    ∃! r, r ∈ s.world.outbox.world.outbox ∧ r.StandsFor (keyParts Sample.upcoming 15) := by
  obtain ⟨s, hrun, ⟨k, here, hi⟩, hstages⟩ : ∃ s, run Sample.step Sample.start [.pass] = some s ∧
      (∃ k here, s.passes[0]? = some ⟨.call (.upcomingDropStages 0 60) k, here⟩) ∧
        s.world.stages = [Sample.row] := ⟨_, rfl, ⟨_, _, rfl⟩, rfl⟩
  have hs := Sample.reach_of_run rfl hrun
  obtain ⟨s₁, hstep, s₂, hrest, summary, here₂, hreturned⟩ : ∃ s₁,
      Sample.step s (.advance 0 (Sample.answer "a")) = some s₁ ∧ ∃ s₂,
        run Sample.step s₁ Sample.enqueue = some s₂ ∧ ∃ summary here₂,
          s₂.passes[0]? = some ⟨.ret summary, here₂⟩ := by
    obtain rfl := Option.some_inj.mp hrun
    exact ⟨_, rfl, _, rfl, _, _, rfl⟩
  have hreach := Sample.reach_of_run rfl hrest
  have hone := stage_alerted Sample.windows hs hi rfl hstep hreach hreturned
    (hstages ▸ List.mem_cons_self) rfl rfl (by decide : (15 : ℤ) ∈ [60, 15, 5]) (by decide)
      (by decide)
  have hs₁ : Reach Sample.step Others Sample.start s₁ :=
    hs.tail (l := .advance 0 (Sample.answer "a")) trivial hstep
  exact ⟨s₂, hs₁.trans hreach, hone⟩

end StageAlerts
