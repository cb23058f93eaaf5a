/-
The stage that a schedule shows, and the order its stages are listed in
(`packages/core/src/stages.ts`, `status.ts`).

* `currentStage_eq`, `nextStage_eq` — the first of the earliest unpaused stages that are open,
  or still to come;
* `computeLifecycle_eq` — the status by the first open stage of the list;
* `selection_perm_iff` — when none of them depends on the order of the list;
* `lifecycle_agrees_iff` — when the status and the stage to show go together.
-/
import HoodMint.Eligibility
import HoodMint.ProjectLifecycle
import HoodMint.Lib.LimitOne
import Mathlib.Data.Int.ConditionallyCompleteOrder

namespace Eligibility

open Projects Relational

/-- A stage that `currentStage` may select. -/
def Current (now : ℤ) (stage : StageView) : Bool := isStageLive stage now && !stage.paused

/-- A stage that `nextStage` may select. -/
def Future (now : ℤ) (stage : StageView) : Bool := decide (now < stage.startsAt) && !stage.paused

variable {stages stages' : List StageView} {now : ℤ} {paused : Option Bool} {supply : SupplyFacts}

/-! ### What is selected -/

/-- The windows of a schedule are those of its stages, sorted by start. -/
theorem windowedStages_eq : windowedStages stages now =
    (stages.insertionSort fun a b => a.startsAt ≤ b.startsAt).map fun stage =>
      ⟨stage, stage.startsAt - now, stage.endsAt.map (· - now)⟩ := by
  rw [windowedStages]
  refine (List.map_insertionSort _ _ _ _ fun a _ b _ => ?_).symm
  dsimp only
  omega

/-- The first window of a kind is that of the first of the earliest such stages. -/
theorem find?_windowedStages {q : WindowedStage → Bool} {p : StageView → Bool}
    (h : ∀ stage : StageView,
      q ⟨stage, stage.startsAt - now, stage.endsAt.map (· - now)⟩ = p stage) :
    ((windowedStages stages now).find? q).map (·.stage) =
      (stages.filter p).argmin StageView.startsAt := by
  rw [windowedStages_eq, List.find?_map, Option.map_map, ← find?_insertionSort]
  have hq : (q ∘ fun stage : StageView =>
      (⟨stage, stage.startsAt - now, stage.endsAt.map (· - now)⟩ : WindowedStage)) = p := funext h
  rw [hq]
  exact Option.map_id'

/-- A window that is open is that of a live stage. -/
theorem open_iff {stage : StageView} :
    (stage.startsAt - now ≤ 0 ∧ (stage.endsAt.map (· - now)).elim true (· > 0) = true ∧
      ¬stage.paused = true) ↔ Current now stage = true := by
  have hstart : stage.startsAt - now ≤ 0 ↔ stage.startsAt ≤ now := by omega
  rw [Current, Bool.and_eq_true, isStageLive_iff, hstart]
  cases hends : stage.endsAt with
  | none => simp
  | some endsAt => simp [and_assoc]

/-- **The current stage** is the first of the earliest that are open and not paused. -/
theorem currentStage_eq :
    currentStage stages now = (stages.filter (Current now)).argmin StageView.startsAt :=
  find?_windowedStages fun _ => Bool.eq_iff_iff.mpr (decide_eq_true_iff.trans open_iff)

/-- **The next stage** is the first of the earliest to come that are not paused. -/
theorem nextStage_eq :
    nextStage stages now = (stages.filter (Future now)).argmin StageView.startsAt := by
  refine find?_windowedStages fun stage => ?_
  simp [Future, Bool.decide_and]

/-- There is a current stage exactly when one is open and not paused. -/
theorem currentStage_isSome_iff :
    (currentStage stages now).isSome ↔ ∃ stage ∈ stages, Current now stage := by
  rw [currentStage_eq, ← Option.ne_none_iff_isSome, ne_eq, List.argmin_eq_none,
    List.filter_eq_nil_iff]
  push Not
  rfl

theorem nextStage_isSome_iff :
    (nextStage stages now).isSome ↔ ∃ stage ∈ stages, Future now stage := by
  rw [nextStage_eq, ← Option.ne_none_iff_isSome, ne_eq, List.argmin_eq_none,
    List.filter_eq_nil_iff]
  push Not
  rfl

/-! ### The status -/

/-- What the first live stage, and the stages to come, leave of `computeLifecycle`. -/
def statusOf (paused : Option Bool) (firstLive : Option StageView) (future ended : Bool) :
    LifecycleStatus :=
  match firstLive with
  | some stage => if stage.paused ∨ paused = some true then .paused else .live
  | none =>
    if paused = some true then (if future then .paused else .ended)
    else if future then .next
    else if ended then .ended
    else .unknown

/-- **The status** is decided by the first live stage of the list and by what is to come. -/
theorem computeLifecycle_eq (hstages : ¬(stages = [] ∧ paused ≠ some true))
    (hsupply : supply.soldOut = false) :
    computeLifecycle stages now paused supply =
      statusOf paused (stages.find? (isStageLive · now))
        (stages.any fun stage => stage.startsAt > now)
        (stages.all fun stage => stage.endsAt.elim false (· ≤ now)) := by
  rw [computeLifecycle, if_neg hstages, hsupply, if_neg Bool.false_ne_true]
  simp only [windowedStages_any]
  cases stages.find? (isStageLive · now) <;> rfl

/-- The status of a schedule whose first live stage is known. -/
theorem computeLifecycle_of_live {first : StageView}
    (hfirst : stages.find? (isStageLive · now) = some first) (hsupply : supply.soldOut = false) :
    computeLifecycle stages now paused supply =
      if first.paused ∨ paused = some true then .paused else .live := by
  have hne : ¬(stages = [] ∧ paused ≠ some true) := by
    intro h
    rw [h.1] at hfirst
    exact Option.some_ne_none _ hfirst.symm
  rw [computeLifecycle_eq hne hsupply, hfirst, statusOf]

/-! ### The order of the list -/

/-- The list may be put in any order. -/
structure OrderFree (stages : List StageView) (now : ℤ) (paused : Option Bool)
    (supply : SupplyFacts) : Prop where
  status : ∀ stages' : List StageView, stages'.Perm stages →
    computeLifecycle stages' now paused supply = computeLifecycle stages now paused supply
  current : ∀ stages' : List StageView, stages'.Perm stages →
    currentStage stages' now = currentStage stages now
  next : ∀ stages' : List StageView, stages'.Perm stages →
    nextStage stages' now = nextStage stages now
  relevant : ∀ stages' : List StageView, stages'.Perm stages →
    relevantStage stages' now = relevantStage stages now

/-- The live stages are all paused, or none of them is. -/
def LiveAgree (stages : List StageView) (now : ℤ) : Prop :=
  ∀ a ∈ stages, ∀ b ∈ stages, isStageLive a now = true → isStageLive b now = true →
    a.paused = b.paused

theorem find?_isSome_perm (hperm : stages'.Perm stages) {p : StageView → Bool} :
    (stages'.find? p).isSome = (stages.find? p).isSome := by
  rw [Bool.eq_iff_iff, List.find?_isSome, List.find?_isSome]
  simp only [hperm.mem_iff]

/-- A project that is reported paused has one status, whichever live stage comes first. -/
theorem statusOf_paused {first first' : Option StageView} {future ended : Bool}
    (h : first.isSome = first'.isSome) :
    statusOf (some true) first future ended = statusOf (some true) first' future ended := by
  cases first with
  | none =>
    cases first' with
    | none => rfl
    | some stage' => simp at h
  | some stage =>
    cases first' with
    | none => simp at h
    | some stage' => simp [statusOf]

/-- The first live stages of two orders count as one when they agree on being paused. -/
theorem statusOf_agree {first first' : Option StageView} {future ended : Bool}
    (hsome : first.isSome = first'.isSome)
    (h : ∀ stage stage', first = some stage → first' = some stage' →
      stage.paused = stage'.paused) :
    statusOf paused first future ended = statusOf paused first' future ended := by
  cases first with
  | none =>
    cases first' with
    | none => rfl
    | some stage' => simp at hsome
  | some stage =>
    cases first' with
    | none => simp at hsome
    | some stage' =>
      have hpaused := h stage stage' rfl rfl
      simp only [statusOf, hpaused]

theorem status_perm (hperm : stages'.Perm stages)
    (h : supply.soldOut = true ∨ paused = some true ∨ LiveAgree stages now) :
    computeLifecycle stages' now paused supply = computeLifecycle stages now paused supply := by
  by_cases hempty : stages = []
  · subst hempty
    rw [List.perm_nil.mp hperm]
  have hempty' : stages' ≠ [] := fun h => hempty (List.nil_perm.mp (h ▸ hperm))
  by_cases hsold : supply.soldOut = true
  · have hsoldOut : ∀ l : List StageView, l ≠ [] →
        computeLifecycle l now paused supply = .soldOut := by
      intro l hl
      rw [computeLifecycle, if_neg fun h => hl h.1, if_pos hsold]
    rw [hsoldOut stages hempty, hsoldOut stages' hempty']
  rw [computeLifecycle_eq (fun h => hempty' h.1) (Bool.eq_false_iff.mpr hsold),
    computeLifecycle_eq (fun h => hempty h.1) (Bool.eq_false_iff.mpr hsold),
    hperm.any_eq, hperm.all_eq]
  obtain h | rfl | h := h
  · exact absurd h hsold
  · exact statusOf_paused (find?_isSome_perm hperm)
  · refine statusOf_agree (find?_isSome_perm hperm) fun stage stage' hstage hstage' => ?_
    exact h stage (hperm.mem_iff.mp (List.mem_of_find?_eq_some hstage)) stage'
      (List.mem_of_find?_eq_some hstage')
      (List.find?_some (p := (isStageLive · now)) hstage)
      (List.find?_some (p := (isStageLive · now)) hstage')

/-- A live stage, put first, decides the status. -/
theorem status_front {a : StageView} (hlive : isStageLive a now = true)
    (hsupply : supply.soldOut = false) (hpaused : paused ≠ some true) :
    computeLifecycle (a :: stages.erase a) now paused supply =
      if a.paused then .paused else .live := by
  have hfirst : (a :: stages.erase a).find? (isStageLive · now) = some a :=
    List.find?_cons_of_pos hlive
  rw [computeLifecycle_of_live hfirst hsupply]
  simp only [hpaused, or_false]

theorem liveAgree_of_perm (hsupply : supply.soldOut = false) (hpaused : paused ≠ some true)
    (h : ∀ stages' : List StageView, stages'.Perm stages →
      computeLifecycle stages' now paused supply = computeLifecycle stages now paused supply) :
    LiveAgree stages now := by
  intro a ha b hb hlive hlive'
  have hstatus := (h _ (front_perm ha)).trans (h _ (front_perm hb)).symm
  rw [status_front hlive hsupply hpaused, status_front hlive' hsupply hpaused] at hstatus
  cases hpa : a.paused <;> cases hpb : b.paused <;> simp [hpa, hpb] at hstatus ⊢

/-- **Nothing depends on the order of the list** exactly when the live stages agree on being
paused, where that is what decides the status, and no two different stages are the earliest of
those open, or of those to come. -/
theorem selection_perm_iff : OrderFree stages now paused supply ↔
    (supply.soldOut = true ∨ paused = some true ∨ LiveAgree stages now) ∧
      OneTop StageView.startsAt (stages.filter (Current now)) ∧
      OneTop StageView.startsAt (stages.filter (Future now)) := by
  constructor
  · intro h
    refine ⟨?_, argmin_perm_iff.mp fun stages' hperm => ?_,
      argmin_perm_iff.mp fun stages' hperm => ?_⟩
    · by_cases hsold : supply.soldOut = true
      · exact Or.inl hsold
      by_cases hpaused : paused = some true
      · exact Or.inr (Or.inl hpaused)
      exact Or.inr (Or.inr (liveAgree_of_perm (Bool.eq_false_iff.mpr hsold) hpaused h.status))
    · rw [← currentStage_eq, ← currentStage_eq]
      exact h.current stages' hperm
    · rw [← nextStage_eq, ← nextStage_eq]
      exact h.next stages' hperm
  · intro h
    obtain ⟨hlive, hcurrent, hnext⟩ := h
    have hcurrent : ∀ stages' : List StageView, stages'.Perm stages →
        currentStage stages' now = currentStage stages now := by
      intro stages' hperm
      rw [currentStage_eq, currentStage_eq]
      exact argmin_perm_iff.mpr hcurrent stages' hperm
    have hnext : ∀ stages' : List StageView, stages'.Perm stages →
        nextStage stages' now = nextStage stages now := by
      intro stages' hperm
      rw [nextStage_eq, nextStage_eq]
      exact argmin_perm_iff.mpr hnext stages' hperm
    refine ⟨fun stages' hperm => status_perm hperm hlive, hcurrent, hnext, ?_⟩
    intro stages' hperm
    rw [relevantStage, relevantStage, hcurrent stages' hperm, hnext stages' hperm]

/-- Two phases of one start: the public one and the allowlist. -/
def publicPhase : StageView := ⟨"public", .publicSale, 100, none, false⟩

def allowlistPhase : StageView := ⟨"allowlist", .allowlist, 100, some 200, false⟩

/-- Whichever of them is listed first is shown, before the start and during the mint. -/
theorem selection_follows_list :
    ¬OrderFree [publicPhase, allowlistPhase] 50 none ⟨none, none, false⟩ ∧
      ¬OrderFree [publicPhase, allowlistPhase] 150 none ⟨none, none, false⟩ := by
  have hswap : [allowlistPhase, publicPhase].Perm [publicPhase, allowlistPhase] :=
    List.Perm.swap _ _ _
  constructor
  · intro h
    have hnext := h.next _ hswap
    revert hnext
    decide
  · intro h
    have hcurrent := h.current _ hswap
    revert hcurrent
    decide

/-! ### The status and the stage to show -/

/-- LIVE and NEXT say which stage is to be shown. -/
structure Agrees (stages : List StageView) (now : ℤ) (paused : Option Bool)
    (supply : SupplyFacts) : Prop where
  live : computeLifecycle stages now paused supply = .live ↔ (currentStage stages now).isSome
  next : computeLifecycle stages now paused supply = .next ↔
    currentStage stages now = none ∧ (nextStage stages now).isSome ∧
      ∀ stage ∈ stages, stage.paused = true → isStageLive stage now = false

/-- No unpaused stage is open, or the first open one of the list is unpaused. -/
def FirstLiveActive (stages : List StageView) (now : ℤ) : Prop :=
  (∃ stage ∈ stages, Current now stage) →
    ∀ first, stages.find? (isStageLive · now) = some first → first.paused = false

/-- When nothing is open and something is to come, something unpaused is. -/
def FutureActive (stages : List StageView) (now : ℤ) : Prop :=
  (∀ stage ∈ stages, isStageLive stage now = false) →
    (∃ stage ∈ stages, now < stage.startsAt) → ∃ stage ∈ stages, Future now stage

theorem agrees_of_live {first : StageView}
    (hfirst : stages.find? (isStageLive · now) = some first) (hsupply : supply.soldOut = false)
    (hpaused : paused ≠ some true) :
    Agrees stages now paused supply ↔ FirstLiveActive stages now ∧ FutureActive stages now := by
  have hmem := List.mem_of_find?_eq_some hfirst
  have hlive : isStageLive first now = true :=
    List.find?_some (p := (isStageLive · now)) hfirst
  have hstatus := @computeLifecycle_of_live _ _ paused _ _ hfirst hsupply
  simp only [hpaused, or_false] at hstatus
  have hcurrent : first.paused = false → ∃ stage ∈ stages, Current now stage := by
    intro h
    exact ⟨first, hmem, by simp [Current, hlive, h]⟩
  have hfuture : FutureActive stages now := by
    intro hnone
    rw [hnone first hmem] at hlive
    exact absurd hlive Bool.false_ne_true
  have hnext : ¬(currentStage stages now = none ∧ (nextStage stages now).isSome ∧
      ∀ stage ∈ stages, stage.paused = true → isStageLive stage now = false) := by
    intro h
    obtain ⟨hno, -, hopen⟩ := h
    cases hp : first.paused with
    | true =>
      rw [hopen first hmem hp] at hlive
      exact Bool.false_ne_true hlive
    | false =>
      have hsome := currentStage_isSome_iff.mpr (hcurrent hp)
      rw [hno] at hsome
      exact Bool.false_ne_true hsome
  constructor
  · intro h
    refine ⟨fun hex first' hfirst' => ?_, hfuture⟩
    obtain rfl := Option.some_inj.mp (hfirst.symm.trans hfirst')
    have hlifecycle := h.live.mpr (currentStage_isSome_iff.mpr hex)
    rw [hstatus] at hlifecycle
    by_contra hp
    rw [if_pos (Bool.eq_true_of_not_eq_false hp)] at hlifecycle
    cases hlifecycle
  · intro h
    have hactive := h.1
    constructor
    · rw [currentStage_isSome_iff, hstatus]
      cases hp : first.paused with
      | true =>
        refine iff_of_false (by simp) fun hex => ?_
        rw [hactive hex first hfirst] at hp
        exact Bool.false_ne_true hp
      | false => exact iff_of_true (by simp) (hcurrent hp)
    · refine iff_of_false (fun h => ?_) hnext
      rw [hstatus] at h
      split at h <;> cases h

theorem agrees_of_none (hfirst : stages.find? (isStageLive · now) = none)
    (hsupply : supply.soldOut = false) (hpaused : paused ≠ some true) :
    Agrees stages now paused supply ↔ FirstLiveActive stages now ∧ FutureActive stages now := by
  have hnone : ∀ stage ∈ stages, isStageLive stage now = false := fun stage hs =>
    Bool.eq_false_iff.mpr (List.find?_eq_none.mp hfirst stage hs)
  have hcurrent : ¬∃ stage ∈ stages, Current now stage := by
    intro ⟨stage, hs, h⟩
    rw [Current, hnone stage hs, Bool.false_and] at h
    exact Bool.false_ne_true h
  have hno : currentStage stages now = none := by
    rw [← Option.not_isSome_iff_eq_none, currentStage_isSome_iff]
    exact hcurrent
  -- without stages the status is unknown
  by_cases hempty : stages = []
  · subst hempty
    have hstatus : computeLifecycle [] now paused supply = .unknown := if_pos ⟨rfl, hpaused⟩
    refine iff_of_true ⟨?_, ?_⟩ ⟨fun h => absurd h hcurrent, fun _ h => ?_⟩
    · rw [hstatus, hno]
      exact iff_of_false (by simp) (by simp)
    · rw [hstatus, nextStage_isSome_iff]
      exact iff_of_false (by simp) (by simp)
    · obtain ⟨stage, hs, -⟩ := h
      exact absurd hs List.not_mem_nil
  have hstatus := @computeLifecycle_eq stages now paused supply (fun h => hempty h.1) hsupply
  rw [hfirst] at hstatus
  simp only [statusOf, if_neg hpaused] at hstatus
  -- it is not live; it is next exactly when a stage lies ahead
  have hlive : computeLifecycle stages now paused supply = .live ↔
      (currentStage stages now).isSome := by
    rw [hstatus, hno]
    refine iff_of_false (fun h => ?_) (by simp)
    split at h
    · cases h
    · split at h <;> cases h
  have hnext : computeLifecycle stages now paused supply = .next ↔
      ∃ stage ∈ stages, now < stage.startsAt := by
    rw [hstatus]
    by_cases hany : stages.any (fun stage => stage.startsAt > now) = true
    · rw [if_pos hany]
      obtain ⟨stage, hs, hlater⟩ := List.any_eq_true.mp hany
      exact iff_of_true rfl ⟨stage, hs, of_decide_eq_true hlater⟩
    · rw [if_neg hany]
      refine iff_of_false (fun h => ?_) fun h => hany ?_
      · split at h <;> cases h
      · obtain ⟨stage, hs, hlater⟩ := h
        exact List.any_eq_true.mpr ⟨stage, hs, decide_eq_true hlater⟩
  have hactive : FirstLiveActive stages now := fun h => absurd h hcurrent
  constructor
  · intro h
    refine ⟨hactive, fun _ hfuture => ?_⟩
    exact nextStage_isSome_iff.mp (h.next.mp (hnext.mpr hfuture)).2.1
  · intro h
    refine ⟨hlive, hnext.trans ⟨fun hfuture => ?_, fun hshown => ?_⟩⟩
    · exact ⟨hno, nextStage_isSome_iff.mpr (h.2 hnone hfuture), fun stage hs _ => hnone stage hs⟩
    · obtain ⟨stage, hs, hstage⟩ := nextStage_isSome_iff.mp hshown.2.1
      rw [Future, Bool.and_eq_true, decide_eq_true_iff] at hstage
      exact ⟨stage, hs, hstage.1⟩

/-- **The status and the stage to show go together** exactly when the first open stage of the
list is unpaused if any open one is, and some stage to come is unpaused if nothing is open and
anything is to come. -/
theorem lifecycle_agrees_iff (hsupply : supply.soldOut = false) (hpaused : paused ≠ some true) :
    Agrees stages now paused supply ↔ FirstLiveActive stages now ∧ FutureActive stages now := by
  cases hfirst : stages.find? (isStageLive · now) with
  | some first => exact agrees_of_live hfirst hsupply hpaused
  | none => exact agrees_of_none hfirst hsupply hpaused

/-- The two phases of one start, both open. -/
theorem lifecycle_agrees_iff_sample :
    Agrees [publicPhase, allowlistPhase] 150 none ⟨none, none, false⟩ := by
  refine (lifecycle_agrees_iff rfl (by decide)).mpr ⟨fun _ first hfirst => ?_, fun h => ?_⟩
  · obtain rfl : publicPhase = first := Option.some_inj.mp hfirst
    rfl
  · have hopen : isStageLive publicPhase 150 = true := by decide
    rw [h publicPhase List.mem_cons_self] at hopen
    exact absurd hopen Bool.false_ne_true

/-- A row that was replaced is paused; the phase that replaced it is open. -/
def replacedPhase : StageView := { publicPhase with paused := true }

/-- With the replaced row first the status is PAUSED while a stage is to be shown; and a drop
whose only phase to come is paused is NEXT with nothing to show. -/
theorem lifecycle_disagrees :
    ¬Agrees [replacedPhase, publicPhase] 150 none ⟨none, none, false⟩ ∧
      ¬Agrees [replacedPhase] 50 none ⟨none, none, false⟩ := by
  constructor
  · intro h
    have hlive := h.live
    revert hlive
    decide
  · intro h
    have hnext := h.next
    revert hnext
    decide

end Eligibility
