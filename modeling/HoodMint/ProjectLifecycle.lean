/-
The lifecycle as SQL computes it and as the upserts do.

* `newest_perm` — the latest snapshot does not depend on the order snapshots are listed in;
* `scheduleOf_eq` — the recompute step of `upsertProjectFromSource` on a project with a schedule
  is the `case` of `recomputeLifecycles`;
* `recomputeLifecycles_refines` — so both store the same status and `next_stage_start`.
-/
import HoodMint.Projects

namespace Projects

open Relational

/-! ### The latest snapshot -/

theorem newest_spec {l : List SupplySnapshot} {s : SupplySnapshot} (h : newest l = some s) :
    s ∈ l ∧ ∀ s' ∈ l, s'.observedAt ≤ s.observedAt := by
  induction l generalizing s with
  | nil => exact absurd h.symm (Option.some_ne_none s)
  | cons a rest ih =>
    rw [newest] at h
    cases hrest : newest rest with
    | none =>
      rw [hrest] at h
      obtain rfl := Option.some_inj.mp h
      have hnil : rest = [] := by
        cases rest with
        | nil => rfl
        | cons b rest =>
          rw [newest] at hrest
          split at hrest
          · split at hrest
            · exact absurd hrest (Option.some_ne_none _)
            · exact absurd hrest (Option.some_ne_none _)
          · exact absurd hrest (Option.some_ne_none _)
      subst hnil
      exact ⟨List.mem_cons_self, fun s' hs' => by rw [List.mem_singleton.mp hs']⟩
    | some b =>
      obtain ⟨hmem, hmax⟩ := ih hrest
      rw [hrest] at h
      have h : (if b.observedAt ≤ a.observedAt then some a else some b) = some s := h
      split at h
      · next hle =>
        obtain rfl := Option.some_inj.mp h
        refine ⟨List.mem_cons_self, fun s' hs' => ?_⟩
        rcases List.mem_cons.mp hs' with rfl | hs'
        · exact le_rfl
        · exact (hmax s' hs').trans hle
      · next hlt =>
        obtain rfl := Option.some_inj.mp h
        refine ⟨List.mem_cons_of_mem _ hmem, fun s' hs' => ?_⟩
        rcases List.mem_cons.mp hs' with rfl | hs'
        · omega
        · exact hmax s' hs'

theorem newest_eq_none {l : List SupplySnapshot} : newest l = none ↔ l = [] := by
  cases l with
  | nil => exact iff_of_true rfl rfl
  | cons a rest =>
    refine iff_of_false ?_ (List.cons_ne_nil a rest)
    rw [newest]
    split
    · split
      · exact Option.some_ne_none _
      · exact Option.some_ne_none _
    · exact Option.some_ne_none _

/-- The latest of snapshots with distinct observation times. -/
theorem newest_perm {l l' : List SupplySnapshot} (hp : l.Perm l')
    (hdistinct : (l.map SupplySnapshot.observedAt).Nodup) : newest l = newest l' := by
  cases h : newest l with
  | none =>
    rw [newest_eq_none.mp h] at hp
    exact (newest_eq_none.mpr hp.nil_eq.symm).symm
  | some s =>
    cases h' : newest l' with
    | none =>
      rw [newest_eq_none.mp h'] at hp
      rw [hp.eq_nil] at h
      exact absurd h.symm (Option.some_ne_none s)
    | some s' =>
      obtain ⟨hs, hmax⟩ := newest_spec h
      obtain ⟨hs', hmax'⟩ := newest_spec h'
      have heq : s.observedAt = s'.observedAt :=
        le_antisymm (hmax' s (hp.mem_iff.mp hs)) (hmax s' (hp.mem_iff.mpr hs'))
      rw [List.inj_on_of_nodup_map hdistinct hs (hp.mem_iff.mpr hs') heq]

/-- The supply is sold out, in either spelling. -/
theorem soldOut_supplyFacts (snapshot : Option SupplySnapshot) :
    (supplyFacts snapshot).soldOut = snapshot.elim false fun ss =>
      ss.verified && ss.maxSupply.elim false fun maxSupply => ss.minted ≥ maxSupply := by
  cases snapshot with
  | none => rfl
  | some ss =>
    obtain ⟨_, _, maxSupply, _, _, verified⟩ := ss
    cases verified with
    | false => rfl
    | true =>
      cases maxSupply with
      | none => rfl
      | some maxSupply => rfl

/-! ### The schedule -/

section

variable {db : ProjectDb} {rows : List DropStage} {projectId : String} {now : ℤ}

/-- The rows of a project that are not paused, as the recompute step lists them. -/
def activeRows (stages : List DropStage) (projectId : String) : List DropStage :=
  ((stages.filter fun s => s.projectId = projectId).insertionSort
    fun a b => a.startsAt ≤ b.startsAt).filter fun s => ¬ s.paused

theorem mem_activeRows {stages : List DropStage} {s : DropStage} :
    s ∈ activeRows stages projectId ↔
      s ∈ stages ∧ s.projectId = projectId ∧ s.paused = false := by
  rw [activeRows, List.mem_filter, (List.perm_insertionSort _ _).mem_iff, List.mem_filter,
    decide_eq_true_iff, decide_eq_true_iff, Bool.not_eq_true, and_assoc]

theorem isStageLive_iff {stage : StageView} : isStageLive stage now = true ↔
    stage.startsAt ≤ now ∧ (stage.endsAt = none ∨ ∃ endsAt ∈ stage.endsAt, endsAt > now) := by
  rw [isStageLive]
  split
  · next hlater => exact iff_of_false Bool.false_ne_true fun h => by omega
  · next hstarted =>
    rw [and_iff_right (not_lt.mp hstarted)]
    cases stage.endsAt with
    | none => exact iff_of_true rfl (Or.inl rfl)
    | some endsAt =>
      show decide (¬ endsAt ≤ now) = true ↔ _
      rw [decide_eq_true_iff, not_le]
      constructor
      · exact fun h => Or.inr ⟨endsAt, rfl, h⟩
      · rintro (h | ⟨_, ⟨⟩, h⟩)
        · exact absurd h (Option.some_ne_none endsAt)
        · exact h

theorem live_activeRows (hrows : ∀ s, s ∈ rows ↔ s ∈ db.stages) :
    ((activeRows rows projectId).map DropStage.view).any (isStageLive · now) =
      (projectState db now projectId).live := by
  rw [Bool.eq_iff_iff, List.any_map, List.any_eq_true, projectState, decide_eq_true_iff]
  constructor
  · rintro ⟨s, hs, hlive⟩
    obtain ⟨hmem, hid, hpaused⟩ := mem_activeRows.mp hs
    exact ⟨s, (hrows s).mp hmem, hid, hpaused, isStageLive_iff.mp hlive⟩
  · rintro ⟨s, hmem, hid, hpaused, hlive⟩
    exact ⟨s, mem_activeRows.mpr ⟨(hrows s).mpr hmem, hid, hpaused⟩, isStageLive_iff.mpr hlive⟩

/-- The first of a list in order is its least element. -/
theorem head?_insertionSort (l : List ℤ) : (l.insertionSort (· ≤ ·)).head? = l.min? := by
  have hperm := List.perm_insertionSort (· ≤ ·) l
  have hsorted := List.pairwise_insertionSort (· ≤ ·) l
  cases h : l.insertionSort (· ≤ ·) with
  | nil =>
    rw [h] at hperm
    rw [← hperm.nil_eq]
    rfl
  | cons x rest =>
    rw [h] at hperm hsorted
    refine (List.min?_eq_some_iff.mpr ⟨hperm.mem_iff.mp List.mem_cons_self, fun b hb => ?_⟩).symm
    rcases List.mem_cons.mp (hperm.mem_iff.mpr hb) with rfl | hb
    · exact le_rfl
    · exact List.rel_of_pairwise_cons hsorted hb

theorem min?_congr {l l' : List ℤ} (h : ∀ x, x ∈ l ↔ x ∈ l') : l.min? = l'.min? := by
  cases hmin : l.min? with
  | none =>
    rw [List.min?_eq_none_iff] at hmin
    subst hmin
    have hnil : l' = [] := List.eq_nil_iff_forall_not_mem.mpr fun x hx =>
      List.not_mem_nil ((h x).mpr hx)
    rw [hnil]
    rfl
  | some a =>
    obtain ⟨ha, hle⟩ := List.min?_eq_some_iff.mp hmin
    exact (List.min?_eq_some_iff.mpr ⟨(h a).mp ha, fun b hb => hle b ((h b).mpr hb)⟩).symm

theorem nextStart_activeRows (hrows : ∀ s, s ∈ rows ↔ s ∈ db.stages) :
    ((((activeRows rows projectId).map DropStage.startsAt).filter
      (· > now)).insertionSort (· ≤ ·)).head? = (projectState db now projectId).nextStart := by
  rw [head?_insertionSort]
  refine min?_congr fun x => ?_
  rw [List.mem_filter, List.mem_map, List.mem_map, decide_eq_true_iff]
  constructor
  · rintro ⟨⟨s, hs, rfl⟩, hlater⟩
    obtain ⟨hmem, hid, hpaused⟩ := mem_activeRows.mp hs
    exact ⟨s, List.mem_filter.mpr ⟨(hrows s).mp hmem, decide_eq_true ⟨hid, hpaused, hlater⟩⟩, rfl⟩
  · rintro ⟨s, hs, rfl⟩
    obtain ⟨hmem, hs⟩ := List.mem_filter.mp hs
    obtain ⟨hid, hpaused, hlater⟩ := of_decide_eq_true hs
    exact ⟨⟨s, mem_activeRows.mpr ⟨(hrows s).mpr hmem, hid, hpaused⟩, rfl⟩, hlater⟩

theorem future_activeRows (hrows : ∀ s, s ∈ rows ↔ s ∈ db.stages) :
    ((activeRows rows projectId).map DropStage.view).any (fun s => s.startsAt > now) =
      decide ((projectState db now projectId).nextStart ≠ none) := by
  rw [Bool.eq_iff_iff, decide_eq_true_iff, ← nextStart_activeRows hrows, head?_insertionSort, ne_eq,
    List.min?_eq_none_iff, List.any_map, List.any_eq_true]
  constructor
  · rintro ⟨s, hs, hlater⟩ hnil
    have hlater : decide (s.startsAt > now) = true := hlater
    have hmem : s.startsAt ∈ ((activeRows rows projectId).map DropStage.startsAt).filter
        (· > now) := List.mem_filter.mpr ⟨List.mem_map_of_mem hs, hlater⟩
    rw [hnil] at hmem
    exact List.not_mem_nil hmem
  · intro hne
    obtain ⟨x, hx⟩ := List.exists_mem_of_ne_nil _ hne
    obtain ⟨hx, hlater⟩ := List.mem_filter.mp hx
    obtain ⟨s, hs, rfl⟩ := List.mem_map.mp hx
    exact ⟨s, hs, hlater⟩

/-- **Two spellings of one decision.**  On a project with a schedule the recompute step of an
upsert comes to what `recomputeLifecycles` selects. -/
theorem scheduleOf_eq (current : LifecycleStatus) (hrows : ∀ s, s ∈ rows ↔ s ∈ db.stages)
    (hstages : ∃ s ∈ db.stages, s.projectId = projectId) :
    scheduleOf rows db.snapshots projectId now =
      ((projectState db now projectId).status current,
        (projectState db now projectId).nextStart) := by
  have hlength : ((rows.filter fun s => s.projectId = projectId).insertionSort
      fun a b => a.startsAt ≤ b.startsAt).length > 0 := by
    obtain ⟨s, hs, hid⟩ := hstages
    rw [List.length_insertionSort]
    exact List.length_pos_of_mem (List.mem_filter.mpr ⟨(hrows s).mpr hs, decide_eq_true hid⟩)
  -- The project counts as paused when nothing active remains.
  have hpaused : (if ((rows.filter fun s => s.projectId = projectId).insertionSort
        fun a b => a.startsAt ≤ b.startsAt).length > 0 ∧
          (activeRows rows projectId).length = 0 then some true else none) =
      if (activeRows rows projectId).map DropStage.view = [] then some true else none :=
    if_congr ((and_iff_right hlength).trans
      (List.length_eq_zero_iff.trans List.map_eq_nil_iff.symm)) rfl rfl
  have hactive : ∀ stage ∈ (activeRows rows projectId).map DropStage.view,
      stage.paused = false := by
    intro stage hstage
    obtain ⟨s, hs, rfl⟩ := List.mem_map.mp hstage
    exact (mem_activeRows.mp hs).2.2
  have hstatus : computeLifecycle ((activeRows rows projectId).map DropStage.view) now
      (if ((rows.filter fun s => s.projectId = projectId).insertionSort
        fun a b => a.startsAt ≤ b.startsAt).length > 0 ∧
          (activeRows rows projectId).length = 0 then some true else none)
      (supplyFacts (latestSupplyFor db.snapshots projectId)) =
        (projectState db now projectId).status current := by
    have hhas : (projectState db now projectId).hasStages = true := decide_eq_true hstages
    rw [hpaused, computeLifecycle_active hactive, live_activeRows hrows, future_activeRows hrows,
      soldOut_supplyFacts, ProjectState.status, if_pos hhas]
    simp only [decide_eq_true_eq]
    rfl
  exact Prod.ext hstatus (nextStart_activeRows hrows)

/-- The latest snapshot of a project in another listing of the table. -/
theorem latestSupplyFor_perm {snapshots snapshots' : List SupplySnapshot}
    (hp : snapshots.Perm snapshots')
    (hdistinct : ((snapshots.filter fun s => s.projectId = projectId).map
      SupplySnapshot.observedAt).Nodup) :
    latestSupplyFor snapshots projectId = latestSupplyFor snapshots' projectId :=
  newest_perm (hp.filter _) hdistinct

end

/-! ### The statement -/

section

variable (db : ProjectDb) (now : ℤ) (p : Project)

/-- A project of the sweep, as the sweep leaves it. -/
theorem mem_recomputeLifecycles (hp : p ∈ db.projects)
    (hstatus : p.lifecycleStatus ∈ [.live, .next, .soldOut, .paused]) :
    ∃ p' ∈ (recomputeLifecycles db now).projects, p'.id = p.id ∧
      p'.lifecycleStatus = (projectState db now p.id).status p.lifecycleStatus ∧
      p'.nextStageStart = (projectState db now p.id).nextStart := by
  refine ⟨_, List.mem_map_of_mem hp, ?_⟩
  split
  · exact ⟨rfl, rfl, rfl⟩
  · next hskip =>
    -- What the statement passes over has both columns as selected.
    obtain ⟨hsame, hsameStart⟩ := not_or.mp fun hchanged => hskip ⟨hstatus, hchanged⟩
    exact ⟨rfl, not_not.mp hsame, not_not.mp hsameStart⟩

/-- What the sweep leaves: rows it has written and rows it has passed over. -/
theorem recomputeLifecycles_cases {p' : Project} (hp' : p' ∈ (recomputeLifecycles db now).projects) :
    (∃ p ∈ db.projects, p'.id = p.id ∧
        p'.lifecycleStatus = (projectState db now p.id).status p.lifecycleStatus) ∨
      p' ∈ db.projects := by
  obtain ⟨p, hp, rfl⟩ := List.mem_map.mp hp'
  dsimp only
  split
  · exact Or.inl ⟨p, hp, rfl, rfl⟩
  · exact Or.inr hp

/-- A project in another status stays as it is. -/
theorem recomputeLifecycles_keeps (hp : p ∈ db.projects)
    (hstatus : p.lifecycleStatus ∉ [.live, .next, .soldOut, .paused]) :
    p ∈ (recomputeLifecycles db now).projects :=
  List.mem_map.mpr ⟨p, hp, if_neg fun h => hstatus h.1⟩

/-- **`recomputeLifecycles` refines `computeLifecycle`.**  A project with a schedule gets what the
recompute step of an upsert would store at the same instant, in whatever order that step is given
the stages and the snapshots. -/
theorem recomputeLifecycles_refines (rows : List DropStage) (snapshots : List SupplySnapshot)
    (hp : p ∈ db.projects) (hstatus : p.lifecycleStatus ∈ [.live, .next, .soldOut, .paused])
    (hstages : ∃ s ∈ db.stages, s.projectId = p.id)
    (hdistinct : ((db.snapshots.filter fun s => s.projectId = p.id).map
      SupplySnapshot.observedAt).Nodup)
    (hrows : rows.Perm db.stages.rows) (hsnapshots : db.snapshots.Perm snapshots) :
    ∃ p' ∈ (recomputeLifecycles db now).projects, p'.id = p.id ∧
      (p'.lifecycleStatus, p'.nextStageStart) = scheduleOf rows snapshots p.id now := by
  obtain ⟨p', hp', hid, hstatus', hstart'⟩ := mem_recomputeLifecycles db now p hp hstatus
  have hschedule : scheduleOf rows db.snapshots p.id now =
      ((projectState db now p.id).status p.lifecycleStatus, (projectState db now p.id).nextStart) :=
    scheduleOf_eq p.lifecycleStatus (fun s => hrows.mem_iff) hstages
  have hlisting : scheduleOf rows snapshots p.id now = scheduleOf rows db.snapshots p.id now := by
    simp only [scheduleOf, latestSupplyFor_perm hsnapshots hdistinct]
  refine ⟨p', hp', hid, ?_⟩
  rw [hlisting, hschedule, hstatus', hstart']

end

/-- A drop whose stage ends at 10, with a paused one that would go on, listed as live. -/
def closingDrop : ProjectDb where
  projects := ⟨[⟨"p", 4663, some "0xc0", "Drop", some "drop", none, .singleSource, .live, none, 0,
    0⟩],
    List.nodup_singleton _⟩
  aliases := Table.empty
  stages := ⟨[⟨"p", "a", 1, "Public", .publicSale, none, none, none, 0, some 10, false, 0⟩,
    ⟨"p", "b", 1, "Public", .publicSale, none, none, none, 5, none, true, 0⟩], by decide⟩
  snapshots := [⟨"p", 3, some 9, 6, "chain:erc721", true⟩,
    ⟨"p", 2, some 9, 4, "chain:erc721", true⟩]

/-- At 10 the drop is over. -/
theorem recomputeLifecycles_refines_closing :
    ∃ p' ∈ (recomputeLifecycles closingDrop 10).projects, p'.id = "p" ∧
      (p'.lifecycleStatus, p'.nextStageStart) =
        scheduleOf closingDrop.stages.rows closingDrop.snapshots.reverse "p" 10 :=
  recomputeLifecycles_refines closingDrop 10
    ⟨"p", 4663, some "0xc0", "Drop", some "drop", none, .singleSource, .live, none, 0, 0⟩ _ _
    List.mem_cons_self (by decide) (by decide) (by decide) (List.Perm.refl _)
    (List.reverse_perm _).symm

example : scheduleOf closingDrop.stages.rows closingDrop.snapshots "p" 10 = (.ended, none) := by
  decide

end Projects
