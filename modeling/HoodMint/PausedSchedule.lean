/-
A project whose whole schedule is paused (`packages/db/src/repositories/projects.ts`).

The recompute step of an upsert drops the paused rows and passes `paused` in their place; a
pause counts for `computeLifecycle` while a stage is live or to come, and there is none left.

* `scheduleOf_paused` — the recompute step on such a project;
* `paused_schedule_not_paused` — an upsert never stores PAUSED for it.
-/
import HoodMint.ProjectLifecycle

namespace Projects

open Relational

/-- All rows of the project are paused, and one of them is open or to come. -/
def FullyPaused (stages : List DropStage) (projectId : String) (now : ℤ) : Prop :=
  (∀ s ∈ stages, s.projectId = projectId → s.paused = true) ∧
    ∃ s ∈ stages, s.projectId = projectId ∧
      (isStageLive s.view now = true ∨ now < s.startsAt)

instance (stages : List DropStage) (projectId : String) (now : ℤ) :
    Decidable (FullyPaused stages projectId now) :=
  (inferInstance : Decidable ((∀ s ∈ stages, s.projectId = projectId → s.paused = true) ∧
    ∃ s ∈ stages, s.projectId = projectId ∧
      (isStageLive s.view now = true ∨ now < s.startsAt)))

/-- The project is stored with the status. -/
def StoredAs (db : ProjectDb) (projectId : String) (status : LifecycleStatus) : Prop :=
  ∃ p, db.projects.get? projectId = some p ∧ p.lifecycleStatus = status

variable {stages : List DropStage} {snapshots : List SupplySnapshot} {projectId newId : String}
  {now : ℤ} {db db' : ProjectDb} {input : ProjectUpsert} {r : UpsertResult}

/-- Nothing of a paused schedule is active. -/
theorem activeRows_of_paused
    (h : ∀ s ∈ stages, s.projectId = projectId → s.paused = true) :
    activeRows stages projectId = [] := by
  refine List.eq_nil_iff_forall_not_mem.mpr fun s hs => ?_
  obtain ⟨hmem, hid, hactive⟩ := mem_activeRows.mp hs
  rw [h s hmem hid] at hactive
  exact Bool.false_ne_true hactive.symm

/-- **The recompute step on a paused schedule**: with the paused rows dropped nothing is live
or to come, and a paused project without that has ended. -/
theorem scheduleOf_paused (h : FullyPaused stages projectId now)
    (hsupply : (supplyFacts (latestSupplyFor snapshots projectId)).soldOut = false) :
    scheduleOf stages snapshots projectId now = (.ended, none) := by
  obtain ⟨hpaused, s, hs, hid, -⟩ := h
  have hlength : ((stages.filter fun s => s.projectId = projectId).insertionSort
      fun a b => a.startsAt ≤ b.startsAt).length > 0 := by
    rw [List.length_insertionSort]
    exact List.length_pos_of_mem (List.mem_filter.mpr ⟨hs, decide_eq_true hid⟩)
  have hnone := activeRows_of_paused hpaused
  rw [activeRows] at hnone
  rw [scheduleOf]
  simp only [hnone, List.map_nil, List.length_nil, hlength, and_self, if_true]
  have hended : computeLifecycle [] now (some true)
      (supplyFacts (latestSupplyFor snapshots projectId)) = .ended := by
    rw [computeLifecycle, if_neg (fun h => h.2 rfl), hsupply]
    rfl
  rw [hended]
  rfl

/-- An upsert stores what its recompute step gives on the tables it leaves. -/
theorem storedAs_scheduleOf (h : upsertProjectFromSource db newId input = some (r, db')) :
    StoredAs db' r.projectId
      (scheduleOf db'.stages.rows db'.snapshots r.projectId input.now).1 := by
  obtain ⟨-, -, stages, -, rfl, rfl⟩ := upsertProjectFromSource_eq_some h
  refine ⟨_, Table.get?_upsert.trans (if_pos rfl), rfl⟩

/-- **A fully paused schedule is never stored as PAUSED**: whatever an upsert reports, when
every row it leaves of the project is paused and one of them is open or to come, a supply that
is not sold out leaves the project ENDED. -/
theorem paused_schedule_not_paused
    (h : upsertProjectFromSource db newId input = some (r, db'))
    (hpaused : FullyPaused db'.stages.rows r.projectId input.now)
    (hsupply : (supplyFacts (latestSupplyFor db'.snapshots r.projectId)).soldOut = false) :
    ¬StoredAs db' r.projectId .paused ∧ StoredAs db' r.projectId .ended := by
  have hstored := storedAs_scheduleOf h
  rw [scheduleOf_paused hpaused hsupply] at hstored
  refine ⟨fun h => ?_, hstored⟩
  obtain ⟨p, hp, hended⟩ := hstored
  obtain ⟨p', hp', hstatus⟩ := h
  obtain rfl := Option.some_inj.mp (hp.symm.trans hp')
  rw [hended] at hstatus
  cases hstatus

/-- A drop that is reported with its only stage paused, an hour before it opens. -/
def pausedReport : ProjectUpsert where
  providerKind := "opensea"
  externalId := "drop"
  chainId := 4663
  contractAddress := none
  name := "Drop"
  slug := none
  imageUrl := none
  confidence := .singleSource
  stages := [⟨"a", "Public", .publicSale, none, none, none, 3600000, none, true⟩]
  supply := none
  evidenceKind := none
  now := 0

theorem pausedReport_stored : (upsertProjectFromSource ProjectDb.empty "p" pausedReport).isSome := by
  decide

/-- What is stored of it. -/
def afterReport : UpsertResult × ProjectDb :=
  (upsertProjectFromSource ProjectDb.empty "p" pausedReport).get pausedReport_stored

theorem afterReport_eq :
    upsertProjectFromSource ProjectDb.empty "p" pausedReport = some (afterReport.1, afterReport.2) :=
  (Option.some_get pausedReport_stored).symm

theorem afterReport_paused :
    FullyPaused afterReport.2.stages.rows afterReport.1.projectId pausedReport.now := by
  decide

theorem paused_schedule_not_paused_report :
    ¬StoredAs afterReport.2 afterReport.1.projectId .paused ∧
      StoredAs afterReport.2 afterReport.1.projectId .ended :=
  paused_schedule_not_paused afterReport_eq afterReport_paused (by decide)

/-- The report is paused, its stage is to come, nothing says that it is sold out, and the
project is stored as ENDED. -/
theorem paused_report_ended :
    upsertProjectFromSource ProjectDb.empty "p" pausedReport = some (afterReport.1, afterReport.2) ∧
      FullyPaused afterReport.2.stages.rows afterReport.1.projectId pausedReport.now ∧
      (supplyFacts (latestSupplyFor afterReport.2.snapshots afterReport.1.projectId)).soldOut =
        false ∧
      (afterReport.2.projects.get? afterReport.1.projectId).map Project.lifecycleStatus =
        some .ended ∧
      ¬StoredAs afterReport.2 afterReport.1.projectId .paused := by
  have hended : (afterReport.2.projects.get? afterReport.1.projectId).map
      Project.lifecycleStatus = some .ended := by decide
  refine ⟨afterReport_eq, afterReport_paused, by decide, hended, fun h => ?_⟩
  obtain ⟨p, hp, hstatus⟩ := h
  rw [hp, Option.map_some, hstatus] at hended
  cases hended

end Projects
