/-
The life of a mint plan.

A statement leaves a plan where it is, or moves it along one edge: armed from draft, claimed,
released, or ended.  `Move` lists the edges with the guard each statement carries, and
`exec_images` says that there are no others.

* `lifecycle` — what every single statement respects (`Respects`), and what every sequence of
  statements keeps of a plan once it has been armed (`Outlives`).
-/
import HoodMint.Lib.Transition
import HoodMint.MintPlans

namespace MintWorker

open Relational Transition

/-! ### The edges -/

/-- The row is still the same plan: no statement changes its wallet or its ceiling. -/
def MintPlan.SamePlan (r r' : MintPlan) : Prop :=
  r'.id = r.id ∧ r'.walletId = r.walletId ∧ r'.perPlanCeilingWei = r.perPlanCeilingWei

namespace PlanStatement

/-- The statement arms the plan. -/
def Arms (s : PlanStatement) (r : MintPlan) : Prop :=
  ∃ user windowMinutes armedAt nowMs updatedAt,
    s = .armMintPlan r.id user windowMinutes armedAt nowMs updatedAt

/-- The statement claims the plan, at an instant before the end of its window, no further
ahead of its target than the tolerance, and not for a stage that has been superseded. -/
def Claims (s : PlanStatement) (stages : DropStages) (r : MintPlan) : Prop :=
  ∃ now leaseMs leadMs dbNow locked,
    s = .claimArmedMintPlan now leaseMs leadMs dbNow locked ∧ r.Due stages now leaseMs leadMs

/-- The statement releases the plan, at an instant before the end of its window. -/
def Releases (s : PlanStatement) (r : MintPlan) : Prop :=
  ∃ now, s = .releaseMintPlanToArmed r.id now ∧ ∃ u ∈ r.armedUntil, now < u

/-- The statement stores the blob the row holds. -/
def Stores (s : PlanStatement) (r : MintPlan) : Prop :=
  ∃ rawTx nonce txHash now,
    s = .savePresignedTx r.id rawTx nonce txHash now ∧ r.presignedRawTx = some rawTx

end PlanStatement

/-- How a statement moves a plan. -/
inductive Move (stages : DropStages) (s : PlanStatement) (r r' : MintPlan) : Prop
  | stay (status : r'.status = r.status) (window : r'.armedUntil = r.armedUntil)
      (quantity : r'.quantity = r.quantity ∨ r.status = .draft)
      (blob : r'.presignedRawTx = r.presignedRawTx ∨ r'.presignedRawTx = none ∨ s.Stores r')
  | arm (draft : r.status = .draft) (status : r'.status = .armed) (arms : s.Arms r)
      (quantity : r'.quantity = r.quantity) (blob : r'.presignedRawTx = r.presignedRawTx)
  | claim (claims : s.Claims stages r) (status : r'.status = .executing)
      (window : r'.armedUntil = r.armedUntil) (quantity : r'.quantity = r.quantity)
      (blob : r'.presignedRawTx = r.presignedRawTx)
  | release (executing : r.status = .executing) (status : r'.status = .armed)
      (releases : s.Releases r) (window : r'.armedUntil = r.armedUntil)
      (quantity : r'.quantity = r.quantity) (blob : r'.presignedRawTx = r.presignedRawTx)
  | finish (running : ¬ r.status.Terminal) (terminal : r'.status.Terminal)
      (window : r'.armedUntil = r.armedUntil) (quantity : r'.quantity = r.quantity)
      (purged : r'.presignedRawTx = none)

section

variable {db : PlanDb} {s : PlanStatement} {r r' : MintPlan} {stages : DropStages}

theorem MintPlan.SamePlan.refl : r.SamePlan r := ⟨rfl, rfl, rfl⟩

theorem Move.refl : Move stages s r r := .stay rfl rfl (Or.inl rfl) (Or.inl rfl)

/-- A statement that is not about the plan leaves it where it is. -/
theorem same_move_refl : r.SamePlan r ∧ Move stages s r r := ⟨.refl, .refl⟩

/-- A statement that ends the plan. -/
theorem same_move_finish {status : PlanStatus} {now : ℤ} (hr : ¬ r.status.Terminal)
    (hs : status.Terminal) :
    r.SamePlan { r.purged with status, updatedAt := now } ∧
      Move stages s r { r.purged with status, updatedAt := now } :=
  ⟨⟨rfl, rfl, rfl⟩, .finish hr hs rfl rfl rfl⟩

/-- A claim moves the row it takes, which is due. -/
theorem claim_images {now leaseMs leadMs dbNow : ℤ} {locked : List String} :
    db.plans.Images
      (fun r r' => r.SamePlan r' ∧
        Move db.stages (.claimArmedMintPlan now leaseMs leadMs dbNow locked) r r')
      (MintPlans.claimArmedMintPlan db.plans db.stages now leaseMs leadMs dbNow locked).2 := by
  rw [MintPlans.claimArmedMintPlan]
  cases hdue : MintPlans.dueForClaim db.plans db.stages now leaseMs leadMs locked with
  | none => exact Table.images_refl fun r _ => same_move_refl
  | some r₀ =>
    obtain ⟨hr₀, hdue⟩ := MintPlans.due_of_dueForClaim hdue
    show db.plans.Images _ (MintPlans.claimRow ..)
    rw [MintPlans.claimRow]
    refine Table.images_update (fun r hr hid => ?_) fun r _ _ => same_move_refl
    obtain rfl := Table.eq_of_key hr hr₀ hid
    exact ⟨⟨rfl, rfl, rfl⟩, .claim ⟨_, _, _, _, _, rfl, hdue⟩ rfl rfl rfl rfl⟩

/-- **The edges.**  A statement that neither creates nor deletes leaves the same plans, each
moved along one edge. -/
theorem exec_images (hcreate : ∀ id input now, s ≠ .createMintPlan id input now)
    (hdelete : ∀ id, s ≠ .deleteMintPlan id) :
    db.plans.Images (fun r r' => r.SamePlan r' ∧ Move db.stages s r r') (db.exec s).plans := by
  cases s with
  | createMintPlan id input now => exact absurd rfl (hcreate id input now)
  | deleteMintPlan id => exact absurd rfl (hdelete id)
  | stages stages => exact Table.images_refl fun r _ => same_move_refl
  -- each statement moves the rows that its `WHERE` clause finds; the guard says which move it is
  | armMintPlan id user windowMinutes armedAt nowMs updatedAt =>
    show db.plans.Images _ (MintPlans.armMintPlan ..)
    rw [MintPlans.armMintPlan]
    refine Table.images_update ?_ fun r _ _ => same_move_refl
    rintro r _ ⟨rfl, hdraft⟩
    exact ⟨⟨rfl, rfl, rfl⟩, .arm hdraft rfl ⟨_, _, _, _, _, rfl⟩ rfl rfl⟩
  | disarmMintPlan id now =>
    show db.plans.Images _ (MintPlans.disarmMintPlan ..)
    rw [MintPlans.disarmMintPlan]
    refine Table.images_update ?_ fun r _ _ => same_move_refl
    rintro r _ ⟨_, harmed⟩
    exact same_move_finish (by rw [harmed]; decide) (by decide)
  | cancelOpenPlansForWallet walletId now =>
    show db.plans.Images _ (MintPlans.cancelOpenPlansForWallet ..)
    rw [MintPlans.cancelOpenPlansForWallet]
    refine Table.images_update ?_ fun r _ _ => same_move_refl
    rintro r _ ⟨_, hopen⟩
    refine same_move_finish ?_ (by decide)
    rcases hopen with h | h | h <;> · rw [h]; decide
  | setDraftMintPlanQuantity planId quantity now =>
    show db.plans.Images _ (MintPlans.setDraftMintPlanQuantity ..)
    rw [MintPlans.setDraftMintPlanQuantity]
    split
    · exact Table.images_refl fun r _ => same_move_refl
    · refine Table.images_update ?_ fun r _ _ => same_move_refl
      rintro r _ ⟨_, hdraft⟩
      exact ⟨⟨rfl, rfl, rfl⟩, .stay rfl rfl (Or.inr hdraft) (Or.inl rfl)⟩
  | claimArmedMintPlan now leaseMs leadMs dbNow locked => exact claim_images
  | expireStaleMintPlans now =>
    show db.plans.Images _ (MintPlans.expireStaleMintPlans ..)
    rw [MintPlans.expireStaleMintPlans]
    refine Table.images_update ?_ fun r _ _ => same_move_refl
    rintro r _ ⟨hopen, _⟩
    refine same_move_finish ?_ (by decide)
    rcases hopen with h | h <;> · rw [h]; decide
  | releaseMintPlanToArmed id now =>
    show db.plans.Images _ (MintPlans.releaseMintPlanToArmed ..)
    rw [MintPlans.releaseMintPlanToArmed]
    refine Table.images_update ?_ fun r _ _ => same_move_refl
    rintro r _ ⟨rfl, hexecuting, hwindow⟩
    exact ⟨⟨rfl, rfl, rfl⟩, .release hexecuting rfl ⟨now, rfl, hwindow⟩ rfl rfl rfl⟩
  | markMintPlanExecuted id now =>
    show db.plans.Images _ (MintPlans.markMintPlanExecuted ..)
    rw [MintPlans.markMintPlanExecuted, MintPlans.endExecution]
    refine Table.images_update ?_ fun r _ _ => same_move_refl
    rintro r _ ⟨_, hexecuting⟩
    exact same_move_finish (by rw [hexecuting]; decide) (by decide)
  | failMintPlanExecution id now =>
    show db.plans.Images _ (MintPlans.failMintPlanExecution ..)
    rw [MintPlans.failMintPlanExecution, MintPlans.endExecution]
    refine Table.images_update ?_ fun r _ _ => same_move_refl
    rintro r _ ⟨_, hexecuting⟩
    exact same_move_finish (by rw [hexecuting]; decide) (by decide)
  | cacheMintPlanTx id tx now =>
    show db.plans.Images _ (MintPlans.cacheMintPlanTx ..)
    rw [MintPlans.cacheMintPlanTx]
    refine Table.images_update (fun r _ _ => ?_) fun r _ _ => same_move_refl
    exact ⟨⟨rfl, rfl, rfl⟩, .stay rfl rfl (Or.inl rfl) (Or.inl rfl)⟩
  | savePresignedTx planId rawTx nonce txHash now =>
    show db.plans.Images _ (MintPlans.savePresignedTx ..)
    rw [MintPlans.savePresignedTx]
    refine Table.images_update ?_ fun r _ _ => same_move_refl
    rintro r _ rfl
    exact ⟨⟨rfl, rfl, rfl⟩,
      .stay rfl rfl (Or.inl rfl) (Or.inr (Or.inr ⟨rawTx, nonce, txHash, now, rfl, rfl⟩))⟩
  | clearPresignedTx planId now =>
    show db.plans.Images _ (MintPlans.clearPresignedTx ..)
    rw [MintPlans.clearPresignedTx]
    refine Table.images_update (fun r _ _ => ?_) fun r _ _ => same_move_refl
    exact ⟨⟨rfl, rfl, rfl⟩, .stay rfl rfl (Or.inl rfl) (Or.inr (Or.inl rfl))⟩
  | clearPresignedForWallet walletId now =>
    show db.plans.Images _ (MintPlans.clearPresignedForWallet ..)
    rw [MintPlans.clearPresignedForWallet]
    refine Table.images_update (fun r _ _ => ?_) fun r _ _ => same_move_refl
    exact ⟨⟨rfl, rfl, rfl⟩, .stay rfl rfl (Or.inl rfl) (Or.inr (Or.inl rfl))⟩

/-- A plan of before is still there, moved along one edge, unless it was a draft and has been
deleted. -/
theorem exec_kept (hr : r ∈ db.plans) :
    (r.status = .draft ∧ s = .deleteMintPlan r.id) ∨
      ∃ r' ∈ (db.exec s).plans, r.SamePlan r' ∧ Move db.stages s r r' := by
  by_cases hcreate : ∃ id input now, s = .createMintPlan id input now
  · obtain ⟨id, input, now, rfl⟩ := hcreate
    exact Or.inr ⟨r, Table.mem_insert_of_mem hr, same_move_refl⟩
  · by_cases hdelete : ∃ id, s = .deleteMintPlan id
    · obtain ⟨id, rfl⟩ := hdelete
      by_cases hp : r.id = id ∧ r.status = .draft
      · obtain ⟨rfl, hdraft⟩ := hp
        exact Or.inl ⟨hdraft, rfl⟩
      · exact Or.inr ⟨r, Table.mem_delete.mpr ⟨hr, hp⟩, same_move_refl⟩
    · refine Or.inr ((exec_images (s := s) ?_ ?_).1 r hr)
      · exact fun id input now h => hcreate ⟨id, input, now, h⟩
      · exact fun id h => hdelete ⟨id, h⟩

/-- A plan of after is one of before, moved along one edge, or a new draft without a blob. -/
theorem exec_origin (hr' : r' ∈ (db.exec s).plans) :
    (r'.status = .draft ∧ r'.presignedRawTx = none ∧ ∀ r ∈ db.plans, r.id ≠ r'.id) ∨
      ∃ r ∈ db.plans, r.SamePlan r' ∧ Move db.stages s r r' := by
  by_cases hcreate : ∃ id input now, s = .createMintPlan id input now
  · obtain ⟨id, input, now, rfl⟩ := hcreate
    rcases Table.mem_insert.mp hr' with hr | ⟨rfl, hnew⟩
    · exact Or.inr ⟨r', hr, same_move_refl⟩
    · exact Or.inl ⟨rfl, rfl, hnew⟩
  · by_cases hdelete : ∃ id, s = .deleteMintPlan id
    · obtain ⟨id, rfl⟩ := hdelete
      exact Or.inr ⟨r', (Table.mem_delete.mp hr').1, same_move_refl⟩
    · refine Or.inr ((exec_images (s := s) ?_ ?_).2 r' hr')
      · exact fun id input now h => hcreate ⟨id, input, now, h⟩
      · exact fun id h => hdelete ⟨id, h⟩

/-- The same plan before and after a statement. -/
theorem exec_move (hr : r ∈ db.plans) (hr' : r' ∈ (db.exec s).plans) (hid : r'.id = r.id) :
    r.SamePlan r' ∧ Move db.stages s r r' := by
  rcases exec_origin hr' with ⟨_, _, hnew⟩ | ⟨r₀, hr₀, hsame, hmove⟩
  · exact absurd hid.symm (hnew r hr)
  · obtain rfl := Table.eq_of_key hr₀ hr (hsame.1.symm.trans hid)
    exact ⟨hsame, hmove⟩

/-! ### What every statement respects -/

/-- What a statement may do to the plans. -/
structure Respects (db : PlanDb) (s : PlanStatement) : Prop where
  /-- The terminal statuses are never left. -/
  terminal : ∀ r ∈ db.plans, r.status.Terminal →
    ∃ r' ∈ (db.exec s).plans, r'.id = r.id ∧ r'.status = r.status
  /-- `armed` is entered from draft by `armMintPlan`, or from executing by a release inside the
  window. -/
  armed : ∀ r' ∈ (db.exec s).plans, r'.status = .armed →
    ∃ r ∈ db.plans, r.id = r'.id ∧
      (r.status = .armed ∨ r.status = .draft ∧ s.Arms r ∨ r.status = .executing ∧ s.Releases r)
  /-- `executing` is entered by a claim of a due plan. -/
  executing : ∀ r' ∈ (db.exec s).plans, r'.status = .executing →
    ∃ r ∈ db.plans, r.id = r'.id ∧ (r.status = .executing ∨ s.Claims db.stages r)
  /-- A claim hands out a due plan. -/
  claimed : ∀ now leaseMs leadMs dbNow locked plan,
    (MintPlans.claimArmedMintPlan db.plans db.stages now leaseMs leadMs dbNow locked).1 = some plan →
      ∃ r ∈ db.plans, r.Due db.stages now leaseMs leadMs ∧ plan = r.claimed
  /-- The quantity changes in draft only. -/
  quantity : ∀ r ∈ db.plans, ∀ r' ∈ (db.exec s).plans, r'.id = r.id →
    r'.quantity ≠ r.quantity → r.status = .draft
  /-- A plan is deleted in draft only. -/
  deleted : ∀ r ∈ db.plans, (∀ r' ∈ (db.exec s).plans, r'.id ≠ r.id) → r.status = .draft
  /-- Ceiling, wallet and window are fixed from the arming on. -/
  terms : ∀ r ∈ db.plans, r.status ≠ .draft → ∀ r' ∈ (db.exec s).plans, r'.id = r.id →
    r'.perPlanCeilingWei = r.perPlanCeilingWei ∧ r'.walletId = r.walletId ∧
      r'.armedUntil = r.armedUntil

/-- What is left of an armed plan after any statements. -/
structure MintPlan.Outlives (r r' : MintPlan) : Prop where
  same : r.SamePlan r'
  window : r'.armedUntil = r.armedUntil
  quantity : r'.quantity = r.quantity
  armed : r'.status ≠ .draft
  terminal : r.status.Terminal → r'.status = r.status

theorem not_terminal_of_due {now leaseMs leadMs : ℤ} (h : r.Due stages now leaseMs leadMs) :
    ¬ r.status.Terminal ∧ r.status ≠ .draft := by
  rcases h.2.2.2 with hs | ⟨hs, _⟩ <;>
  · rw [hs]
    decide

theorem PlanStatus.Terminal.ne_draft {status : PlanStatus} (h : status.Terminal) :
    status ≠ .draft := by
  rintro rfl
  exact absurd h (by decide)

/-- Once armed, a plan keeps its terms along every edge. -/
theorem Move.outlives (hsame : r.SamePlan r') (h : Move stages s r r') (hr : r.status ≠ .draft) :
    r.Outlives r' := by
  cases h with
  | stay status window quantity blob =>
    exact ⟨hsame, window, quantity.resolve_right hr, status ▸ hr, fun _ => status⟩
  | arm draft => exact absurd draft hr
  | claim claims status window quantity blob =>
    obtain ⟨_, _, _, _, _, _, hdue⟩ := claims
    refine ⟨hsame, window, quantity, ?_, fun ht => absurd ht (not_terminal_of_due hdue).1⟩
    rw [status]
    decide
  | release executing status releases window quantity blob =>
    refine ⟨hsame, window, quantity, ?_, fun ht => ?_⟩
    · rw [status]
      decide
    · rw [executing] at ht
      exact absurd ht (by decide)
  | finish running terminal window quantity purged =>
    exact ⟨hsame, window, quantity, terminal.ne_draft, fun ht => absurd ht running⟩

theorem MintPlan.Outlives.trans {r'' : MintPlan} (h : r.Outlives r') (h' : r'.Outlives r'') :
    r.Outlives r'' where
  same := ⟨h'.same.1.trans h.same.1, h'.same.2.1.trans h.same.2.1, h'.same.2.2.trans h.same.2.2⟩
  window := h'.window.trans h.window
  quantity := h'.quantity.trans h.quantity
  armed := h'.armed
  terminal ht := (h'.terminal (h.terminal ht ▸ ht)).trans (h.terminal ht)

/-- An armed plan is still there after a statement, with its terms. -/
theorem exec_outlives (hr : r ∈ db.plans) (hdraft : r.status ≠ .draft) :
    ∃ r' ∈ (db.exec s).plans, r.Outlives r' := by
  rcases exec_kept (s := s) hr with ⟨h, _⟩ | ⟨r', hr', hsame, hmove⟩
  · exact absurd h hdraft
  · exact ⟨r', hr', hmove.outlives hsame hdraft⟩

/-- **Step.**  Every statement respects the life of a plan. -/
theorem respects (db : PlanDb) (s : PlanStatement) : Respects db s where
  terminal r hr ht := by
    obtain ⟨r', hr', hlive⟩ := exec_outlives (s := s) hr ht.ne_draft
    exact ⟨r', hr', hlive.same.1, hlive.terminal ht⟩
  armed r' hr' harmed := by
    rcases exec_origin hr' with ⟨hdraft, _, _⟩ | ⟨r, hr, hsame, hmove⟩
    · rw [hdraft] at harmed
      exact absurd harmed (by decide)
    · refine ⟨r, hr, hsame.1.symm, ?_⟩
      cases hmove with
      | stay status => exact Or.inl (status ▸ harmed)
      | arm draft _ arms => exact Or.inr (Or.inl ⟨draft, arms⟩)
      | claim _ status =>
        rw [status] at harmed
        exact absurd harmed (by decide)
      | release executing _ releases => exact Or.inr (Or.inr ⟨executing, releases⟩)
      | finish _ terminal =>
        rw [harmed] at terminal
        exact absurd terminal (by decide)
  executing r' hr' hexecuting := by
    rcases exec_origin hr' with ⟨hdraft, _, _⟩ | ⟨r, hr, hsame, hmove⟩
    · rw [hdraft] at hexecuting
      exact absurd hexecuting (by decide)
    · refine ⟨r, hr, hsame.1.symm, ?_⟩
      cases hmove with
      | stay status => exact Or.inl (status ▸ hexecuting)
      | arm _ status =>
        rw [status] at hexecuting
        exact absurd hexecuting (by decide)
      | claim claims => exact Or.inr claims
      | release _ status =>
        rw [status] at hexecuting
        exact absurd hexecuting (by decide)
      | finish _ terminal =>
        rw [hexecuting] at terminal
        exact absurd terminal (by decide)
  claimed now leaseMs leadMs dbNow locked plan h := by
    rw [MintPlans.claimArmedMintPlan] at h
    cases hdue : MintPlans.dueForClaim db.plans db.stages now leaseMs leadMs locked with
    | none =>
      rw [hdue] at h
      exact absurd h nofun
    | some r =>
      rw [hdue] at h
      obtain ⟨hr, hdue⟩ := MintPlans.due_of_dueForClaim hdue
      exact ⟨r, hr, hdue, (Option.some.inj h).symm⟩
  quantity r hr r' hr' hid hne := by
    by_contra hdraft
    obtain ⟨hsame, hmove⟩ := exec_move hr hr' hid
    exact hne (hmove.outlives hsame hdraft).quantity
  deleted r hr hgone := by
    by_contra hdraft
    obtain ⟨r', hr', hlive⟩ := exec_outlives (s := s) hr hdraft
    exact hgone r' hr' hlive.same.1
  terms r hr hdraft r' hr' hid := by
    obtain ⟨hsame, hmove⟩ := exec_move hr hr' hid
    have hlive := hmove.outlives hsame hdraft
    exact ⟨hlive.same.2.2, hlive.same.2.1, hlive.window⟩

end

/-! ### Runs -/

/-- The statements in any order. -/
def planStep (db : PlanDb) (s : PlanStatement) : Option PlanDb := some (db.exec s)

/-- **Run.**  After any sequence of statements an armed plan is still there, with its terms, and
one that has ended is as it was. -/
theorem outlives_of_reachable {db db' : PlanDb} (h : Reachable planStep db db') {r : MintPlan}
    (hr : r ∈ db.plans) (hdraft : r.status ≠ .draft) : ∃ r' ∈ db'.plans, r.Outlives r' := by
  refine h.invariant (I := fun db' => ∃ r' ∈ db'.plans, r.Outlives r') ?_ ?_
  · exact ⟨r, hr, .refl, rfl, rfl, hdraft, fun _ => rfl⟩
  · rintro db₁ s db₂ _ ⟨r₁, hr₁, hlive⟩ _ hs
    obtain rfl := Option.some.inj hs
    obtain ⟨r₂, hr₂, hlive'⟩ := exec_outlives (s := s) hr₁ hlive.armed
    exact ⟨r₂, hr₂, hlive.trans hlive'⟩

/-- **The life of a mint plan.**  Every statement respects it, in whatever state of the
database, and so does every sequence of statements. -/
theorem lifecycle (db : PlanDb) :
    (∀ s, Respects db s) ∧
      ∀ db', Reachable planStep db db' → ∀ r ∈ db.plans, r.status ≠ .draft →
        ∃ r' ∈ db'.plans, r.Outlives r' :=
  ⟨respects db, fun _ h _ hr hdraft => outlives_of_reachable h hr hdraft⟩

/-- The plan is claimed and executed; a late release leaves it executed. -/
theorem lifecycle_executed :
    ∃ r' ∈ (((PlanDb.exec ⟨Sample.mintPlans, .empty⟩ (.claimArmedMintPlan 60000 30000 0 60000 [])).exec
        (.markMintPlanExecuted "p" 61000)).exec (.releaseMintPlanToArmed "p" 62000)).plans,
      Sample.mintPlan.Outlives r' :=
  (lifecycle _).2 _ (.tail (.tail (.tail .refl trivial rfl) trivial rfl) trivial rfl) _
    (List.mem_singleton_self _) (by decide)

end MintWorker
