/-
Whether a delisted drop stays off the feeds.

* `SweepOp` — what the collection sweep, the supply sweep and the recompute do to the tables,
  at their own instants; `SweepOp.run` — any sequence of it;
* `ProjectDb.Settled` — the active stages that a delisting leaves alone are over;
  `ProjectDb.SoldOut` — the latest reading says that nothing is left;
  `ProjectDb.Findable` — the collection sweep can come to the project;
* `ProjectDb.Shelved.run`, `ProjectDb.Exhausted.run`, `ProjectDb.Lost.run` — under the condition
  no sequence puts the project back;
* `relisted_of_open` — without it one row of the sweep does;
* `delisting_sticky_iff` — so the drop stays delisted exactly when the condition holds.
-/
import HoodMint.DropPayloads
import HoodMint.ProjectLifecycle

namespace Projects

open Relational

/-- What the sweeps do.  A row of the collection sweep carries no stages, and the identifier its
project would get if it were new. -/
inductive SweepOp
  | collection (row : ParsedCollectionRow) (newId : String) (now : ℤ)
  | supply (projectId : String) (minted : ℤ) (maxSupply : Option ℤ) (now : ℤ)
  | recompute (now : ℤ)
deriving DecidableEq

namespace SweepOp

/-- The instant the operation reads off its clock. -/
def instant : SweepOp → ℤ
  | collection _ _ now => now
  | supply _ _ _ now => now
  | recompute now => now

/-- `supplySweepTargets`, without its limit: the supply sweep reads the project. -/
def Targeted (db : ProjectDb) (projectId : String) : Prop :=
  ∃ p ∈ db.projects, p.id = projectId ∧ p.lifecycleStatus ∈ [.live, .next] ∧
    p.contractAddress.isSome = true

instance (db : ProjectDb) (projectId : String) : Decidable (Targeted db projectId) :=
  inferInstanceAs (Decidable (∃ p ∈ db.projects, _))

/-- One operation on the chain `chainId`; an upsert that throws is skipped, and so is a reading of
what is no target. -/
def exec (chainId : ℕ) (db : ProjectDb) : SweepOp → ProjectDb
  | collection row newId now =>
    ((upsertProjectFromSource db newId (normalizeCollectionRow row ⟨chainId, now, none⟩)).map
      Prod.snd).getD db
  | supply projectId minted maxSupply now =>
    if Targeted db projectId then recordChainSupply db projectId minted maxSupply now else db
  | recompute now => recomputeLifecycles db now

def run (chainId : ℕ) (db : ProjectDb) (ops : List SweepOp) : ProjectDb := ops.foldl (exec chainId) db

end SweepOp

/-! ### The condition -/

/-- The project is neither live nor next. -/
def ProjectDb.Unlisted (db : ProjectDb) (projectId : String) : Prop :=
  ∀ p ∈ db.projects, p.id = projectId → p.lifecycleStatus ≠ .live ∧ p.lifecycleStatus ≠ .next

/-- No sequence of operations whose clocks read `since` or later lists the project. -/
def ProjectDb.StaysOff (db : ProjectDb) (chainId : ℕ) (projectId : String) (since : ℤ) : Prop :=
  ∀ ops : List SweepOp, (∀ op ∈ ops, since ≤ op.instant) →
    (SweepOp.run chainId db ops).Unlisted projectId

/-- The active stages of the project are over at `since`. -/
def ProjectDb.Over (db : ProjectDb) (projectId : String) (since : ℤ) : Prop :=
  ∀ s ∈ db.stages, s.projectId = projectId → s.paused = false →
    s.startsAt ≤ since ∧ ∃ endsAt ∈ s.endsAt, endsAt ≤ since

/-- The active stages of the project that have started at `now` are over at `since`. -/
def ProjectDb.Settled (db : ProjectDb) (projectId : String) (now since : ℤ) : Prop :=
  ∀ s ∈ db.stages, s.projectId = projectId → s.paused = false → s.startsAt ≤ now →
    s.startsAt ≤ since ∧ ∃ endsAt ∈ s.endsAt, endsAt ≤ since

/-- The latest reading is verified, and nothing is left. -/
def ProjectDb.SoldOut (db : ProjectDb) (projectId : String) : Prop :=
  ∃ ss, latestSupplyFor db.snapshots projectId = some ss ∧ ss.verified = true ∧
    ∃ maxSupply ∈ ss.maxSupply, ss.minted ≥ maxSupply

/-- The collection sweep can come to the project: by its contract on the chain, or by an alias. -/
def ProjectDb.Findable (db : ProjectDb) (chainId : ℕ) (p : Project) : Prop :=
  (p.chainId = chainId ∧ ∃ address, p.contractAddress = some (Text.lower address)) ∨
    ∃ a ∈ db.aliases, a.providerKind = "opensea" ∧ a.projectId = p.id

/-! ### One operation -/

section

variable {db : ProjectDb} {chainId : ℕ} {p : Project} {projectId : String} {since now : ℤ}

/-- A row of the sweep is skipped, or writes its project, with the lifecycle of the stages that
are there, and an alias. -/
theorem exec_collection (db : ProjectDb) (chainId : ℕ) (row : ParsedCollectionRow)
    (newId : String) (now : ℤ) :
    SweepOp.exec chainId db (.collection row newId now) = db ∨
      ∃ p, p = (normalizeCollectionRow row ⟨chainId, now, none⟩).target db newId ∧
        (resolve db (normalizeCollectionRow row ⟨chainId, now, none⟩) = none →
          db.projects.get? newId = none) ∧
        SweepOp.exec chainId db (.collection row newId now) =
          ⟨db.projects.upsert (p.scheduled (scheduleOf db.stages.rows db.snapshots p.id now)),
            db.aliases.upsert ((normalizeCollectionRow row ⟨chainId, now, none⟩).alias db p.id),
            db.stages, db.snapshots⟩ := by
  rw [SweepOp.exec]
  cases h : upsertProjectFromSource db newId (normalizeCollectionRow row ⟨chainId, now, none⟩) with
  | none => exact Or.inl rfl
  | some r =>
    obtain ⟨-, hfresh, stages, hstages, -, hdb⟩ := upsertProjectFromSource_eq_some h
    obtain rfl : db.stages = stages := Option.some_inj.mp hstages
    refine Or.inr ⟨_, rfl, hfresh, ?_⟩
    show r.2 = _
    rw [hdb]
    rfl

theorem projectState_of_over (hover : db.Over projectId since) (hsince : since ≤ now) :
    (projectState db now projectId).live = false ∧
      (projectState db now projectId).nextStart = none := by
  constructor
  · refine decide_eq_false ?_
    rintro ⟨s, hs, hid, hpaused, -, hends⟩
    obtain ⟨-, endsAt, hendsAt, hle⟩ := hover s hs hid hpaused
    rcases hends with hnone | ⟨endsAt', hendsAt', hlt⟩
    · exact Option.some_ne_none endsAt ((Option.mem_def.mp hendsAt).symm.trans hnone)
    · have := Option.mem_unique hendsAt hendsAt'
      omega
  · rw [projectState, List.min?_eq_none_iff, List.map_eq_nil_iff, List.filter_eq_nil_iff]
    intro s hs hlater
    obtain ⟨hid, hpaused, hlater⟩ := of_decide_eq_true hlater
    obtain ⟨hstarted, -⟩ := hover s hs hid hpaused
    omega

/-- The status of a drop that is over. -/
theorem status_of_over {current : LifecycleStatus} (hover : db.Over projectId since)
    (hstages : ∃ s ∈ db.stages, s.projectId = projectId) (hsince : since ≤ now) :
    (projectState db now projectId).status current = .soldOut ∨
      (projectState db now projectId).status current = .ended := by
  obtain ⟨hlive, hnext⟩ := projectState_of_over hover hsince
  have hhas : (projectState db now projectId).hasStages = true := decide_eq_true hstages
  have hlater : ¬ (none : Option ℤ) ≠ none := not_not.mpr rfl
  rw [ProjectState.status, hlive, hnext, if_pos hhas, if_neg Bool.false_ne_true, if_neg hlater]
  split
  · exact Or.inl rfl
  · exact Or.inr rfl

theorem not_listed {status : LifecycleStatus} (h : status = .soldOut ∨ status = .ended) :
    status ≠ .live ∧ status ≠ .next := by
  rcases h with rfl | rfl
  · exact ⟨by decide, by decide⟩
  · exact ⟨by decide, by decide⟩

theorem soldOut_projectState :
    (projectState db now projectId).soldOut = true ↔ db.SoldOut projectId := by
  rw [projectState, ProjectDb.SoldOut]
  cases latestSupplyFor db.snapshots projectId with
  | none => simp
  | some ss =>
    cases hmax : ss.maxSupply with
    | none => simp [hmax]
    | some maxSupply => simp [hmax]

/-- A reading leaves the projects and the stages, and touches listed projects only. -/
theorem exec_supply (chainId : ℕ) (db : ProjectDb) {minted : ℤ} {maxSupply : Option ℤ} :
    SweepOp.exec chainId db (.supply projectId minted maxSupply now) = db ∨
      SweepOp.Targeted db projectId ∧
        SweepOp.exec chainId db (.supply projectId minted maxSupply now) =
          recordChainSupply db projectId minted maxSupply now := by
  rw [SweepOp.exec]
  split
  · next h => exact Or.inr ⟨h, rfl⟩
  · exact Or.inl rfl

/-! ### The condition is enough -/

/-- A drop that is over, and off the feeds. -/
structure ProjectDb.Shelved (db : ProjectDb) (projectId : String) (since : ℤ) : Prop where
  isOver : db.Over projectId since
  hasStages : ∃ s ∈ db.stages, s.projectId = projectId
  unlisted : db.Unlisted projectId

theorem ProjectDb.Shelved.exec (h : db.Shelved projectId since) {op : SweepOp}
    (hsince : since ≤ op.instant) : (op.exec chainId db).Shelved projectId since := by
  cases op with
  | collection row newId now =>
    rcases exec_collection db chainId row newId now with hskip | ⟨p, -, -, hexec⟩
    · rw [hskip]
      exact h
    · rw [hexec]
      refine ⟨h.isOver, h.hasStages, fun p' hp' hid => ?_⟩
      rcases Table.mem_upsert.mp hp' with rfl | ⟨hp', -⟩
      · have hid : p.id = projectId := hid
        rw [← hid] at h
        show (scheduleOf db.stages.rows db.snapshots p.id now).1 ≠ _ ∧ _
        rw [scheduleOf_eq .ended (fun _ => Iff.rfl) h.hasStages]
        exact not_listed (status_of_over h.isOver h.hasStages hsince)
      · exact h.unlisted p' hp' hid
  | supply projectId' minted maxSupply now =>
    rcases exec_supply chainId db with hskip | ⟨-, hexec⟩
    · rw [hskip]
      exact h
    · rw [hexec]
      exact ⟨h.isOver, h.hasStages, h.unlisted⟩
  | recompute now =>
    refine ⟨h.isOver, h.hasStages, fun p' hp' hid => ?_⟩
    rcases recomputeLifecycles_cases db now hp' with ⟨p, -, hsame, hstatus⟩ | hp'
    · rw [hstatus, ← hsame, hid]
      exact not_listed (status_of_over h.isOver h.hasStages hsince)
    · exact h.unlisted p' hp' hid

/-- A drop of which nothing is left, and off the feeds. -/
structure ProjectDb.Exhausted (db : ProjectDb) (projectId : String) : Prop where
  soldOut : db.SoldOut projectId
  hasStages : ∃ s ∈ db.stages, s.projectId = projectId
  unlisted : db.Unlisted projectId

theorem ProjectDb.Exhausted.status {current : LifecycleStatus} (h : db.Exhausted projectId) :
    (projectState db now projectId).status current = .soldOut := by
  rw [ProjectState.status, soldOut_projectState.mpr h.soldOut, if_pos rfl]

theorem ProjectDb.Exhausted.exec (h : db.Exhausted projectId) (op : SweepOp) :
    (op.exec chainId db).Exhausted projectId := by
  cases op with
  | collection row newId now =>
    rcases exec_collection db chainId row newId now with hskip | ⟨p, -, -, hexec⟩
    · rw [hskip]
      exact h
    · rw [hexec]
      refine ⟨h.soldOut, h.hasStages, fun p' hp' hid => ?_⟩
      rcases Table.mem_upsert.mp hp' with rfl | ⟨hp', -⟩
      · have hid : p.id = projectId := hid
        rw [← hid] at h
        show (scheduleOf db.stages.rows db.snapshots p.id now).1 ≠ _ ∧ _
        rw [scheduleOf_eq .ended (fun _ => Iff.rfl) h.hasStages]
        exact not_listed (Or.inl h.status)
      · exact h.unlisted p' hp' hid
  | supply projectId' minted maxSupply now =>
    rcases exec_supply chainId db with hskip | ⟨htarget, hexec⟩
    · rw [hskip]
      exact h
    · rw [hexec]
      refine ⟨?_, h.hasStages, h.unlisted⟩
      -- a target is listed, so it is another project
      have hother : projectId' ≠ projectId := by
        rintro rfl
        obtain ⟨p, hp, hid, hlisted, -⟩ := htarget
        obtain ⟨hlive, hnext⟩ := h.unlisted p hp hid
        rcases List.mem_pair.mp hlisted with hstatus | hstatus
        · exact hlive hstatus
        · exact hnext hstatus
      obtain ⟨ss, hss, hverified, hmax⟩ := h.soldOut
      refine ⟨ss, ?_, hverified, hmax⟩
      rw [latestSupplyFor, recordChainSupply, List.filter_cons_of_neg (by simpa using hother)]
      exact hss
  | recompute now =>
    refine ⟨h.soldOut, h.hasStages, fun p' hp' hid => ?_⟩
    rcases recomputeLifecycles_cases db now hp' with ⟨p, -, hsame, hstatus⟩ | hp'
    · rw [hstatus, ← hsame, hid]
      exact not_listed (Or.inl h.status)
    · exact h.unlisted p' hp' hid

/-- An ended project that the sweep cannot come to. -/
structure ProjectDb.Lost (db : ProjectDb) (chainId : ℕ) (p : Project) : Prop where
  mem : p ∈ db.projects
  ended : p.lifecycleStatus = .ended
  unfindable : ¬ db.Findable chainId p

theorem ProjectDb.Lost.exec (h : db.Lost chainId p) (op : SweepOp) :
    (op.exec chainId db).Lost chainId p := by
  cases op with
  | collection row newId now =>
    rcases exec_collection db chainId row newId now with hskip | ⟨q, hq, hfresh, hexec⟩
    · rw [hskip]
      exact h
    · have hother : q.id ≠ p.id := by
        intro hid
        cases hresolve : resolve db (normalizeCollectionRow row ⟨chainId, now, none⟩) with
        | none =>
          rw [target_of_none hresolve] at hq
          subst hq
          exact Table.get?_eq_none.mp (hfresh hresolve) p h.mem hid.symm
        | some p₀ =>
          rw [target_of_some hresolve] at hq
          subst hq
          obtain ⟨hp₀, hfound⟩ := resolve_eq_some hresolve
          obtain rfl := Table.eq_of_key hp₀ h.mem hid
          refine h.unfindable ?_
          rcases hfound with ⟨hchain, address, -, haddress⟩ | ⟨a, ha, hkey, hid⟩
          · exact Or.inl ⟨hchain, address, haddress⟩
          · exact Or.inr ⟨a, ha, (Prod.mk.inj hkey).1, hid⟩
      rw [hexec]
      refine ⟨Table.mem_upsert.mpr (Or.inr ⟨h.mem, hother.symm⟩), h.ended, fun hfind => ?_⟩
      refine h.unfindable (hfind.imp id ?_)
      rintro ⟨a, ha, hkind, hid⟩
      rcases Table.mem_upsert.mp ha with rfl | ⟨ha, -⟩
      · exact absurd hid hother
      · exact ⟨a, ha, hkind, hid⟩
  | supply projectId' minted maxSupply now =>
    rcases exec_supply chainId db with hskip | ⟨-, hexec⟩
    · rw [hskip]
      exact h
    · rw [hexec]
      exact ⟨h.mem, h.ended, h.unfindable⟩
  | recompute now =>
    refine ⟨recomputeLifecycles_keeps db now p h.mem ?_, h.ended, h.unfindable⟩
    rw [h.ended]
    decide

theorem ProjectDb.Lost.unlisted (h : db.Lost chainId p) : db.Unlisted p.id := by
  intro p' hp' hid
  obtain rfl := Table.eq_of_key hp' h.mem hid
  exact not_listed (Or.inr h.ended)

/-- **Under the condition no sequence puts the project back.** -/
theorem ProjectDb.Shelved.run (h : db.Shelved projectId since) {ops : List SweepOp}
    (hsince : ∀ op ∈ ops, since ≤ op.instant) :
    (SweepOp.run chainId db ops).Shelved projectId since := by
  induction ops generalizing db with
  | nil => exact h
  | cons op ops ih =>
    exact ih (h.exec (hsince op List.mem_cons_self)) fun op' hop' =>
      hsince op' (List.mem_cons_of_mem _ hop')

theorem ProjectDb.Exhausted.run (h : db.Exhausted projectId) (ops : List SweepOp) :
    (SweepOp.run chainId db ops).Exhausted projectId := by
  induction ops generalizing db with
  | nil => exact h
  | cons op ops ih => exact ih (h.exec op)

theorem ProjectDb.Lost.run (h : db.Lost chainId p) (ops : List SweepOp) :
    (SweepOp.run chainId db ops).Lost chainId p := by
  induction ops generalizing db with
  | nil => exact h
  | cons op ops ih => exact ih (h.exec op)

/-! ### The condition is needed -/

/-- An address that is not stored. -/
theorem exists_fresh_address (db : ProjectDb) :
    ∃ address, ∀ p ∈ db.projects, p.contractAddress ≠ some (Text.lower address) := by
  have hbound : ∀ rows : List Project, ∃ n, ∀ p ∈ rows, ∀ address ∈ p.contractAddress,
      address.length < n := by
    intro rows
    induction rows with
    | nil => exact ⟨0, fun p hp => absurd hp List.not_mem_nil⟩
    | cons q rows ih =>
      obtain ⟨n, hn⟩ := ih
      refine ⟨n + (q.contractAddress.getD "").length + 1, fun p hp address haddress => ?_⟩
      rcases List.mem_cons.mp hp with rfl | hp
      · rw [Option.mem_def.mp haddress, Option.getD_some]
        omega
      · have := hn p hp address haddress
        omega
  obtain ⟨n, hn⟩ := hbound db.projects.rows
  refine ⟨String.ofList (List.replicate n '0'), fun p hp hsame => ?_⟩
  have hlt := hn p hp _ hsame
  rw [Text.lower, String.length_ofList, List.length_map, String.toList_ofList,
    List.length_replicate] at hlt
  exact lt_irrefl n hlt

/-- The first project with an address on a chain is the only one. -/
theorem find?_contract {address : String} (hp : p ∈ db.projects) (hunique : p.Unique db)
    (hchain : p.chainId = chainId) (haddress : p.contractAddress = some (Text.lower address)) :
    db.projects.rows.find? (fun p : Project =>
      p.chainId = chainId ∧ p.contractAddress = some (Text.lower address)) = some p := by
  cases hq : db.projects.rows.find? (fun p : Project =>
      p.chainId = chainId ∧ p.contractAddress = some (Text.lower address)) with
  | none => exact absurd (decide_eq_true ⟨hchain, haddress⟩) (List.find?_eq_none.mp hq p hp)
  | some q =>
    have hmem : q ∈ db.projects := List.mem_of_find?_eq_some hq
    have hfound := List.find?_some hq
    obtain ⟨hqchain, hqaddress⟩ := of_decide_eq_true hfound
    by_cases hne : q.id = p.id
    · rw [Table.eq_of_key hmem hp hne]
    · refine absurd ⟨?_, hqchain.trans hchain.symm, hqaddress.trans haddress.symm⟩
        (hunique q hmem hne).1
      rw [haddress]
      exact Option.some_ne_none _

/-- A row of the sweep for a project that it can find. -/
theorem exists_row (now : ℤ) (hp : p ∈ db.projects) (hunique : p.Unique db)
    (hfind : db.Findable chainId p) : ∃ row,
      resolve db (normalizeCollectionRow row ⟨chainId, now, none⟩) = some p ∧
      (p.absorb db (normalizeCollectionRow row ⟨chainId, now, none⟩)).Unique db := by
  rcases hfind with ⟨hchain, address, haddress⟩ | ⟨a, ha, hkind, hid⟩
  · refine ⟨⟨"", p.name, none, address, none⟩, ?_, absorb_unique hunique fun hnone => ?_⟩
    · exact Option.or_eq_some_iff.mpr (Or.inl (find?_contract hp hunique hchain haddress))
    · exact absurd (haddress.symm.trans hnone) (Option.some_ne_none _)
  · obtain ⟨address, hfresh⟩ := exists_fresh_address db
    have hfree : ∀ address' ∈ some address, ∀ p' ∈ db.projects,
        p'.contractAddress ≠ some (Text.lower address') := by
      intro address' haddress
      obtain rfl := Option.mem_some_iff.mp haddress
      exact hfresh
    refine ⟨⟨a.externalId, p.name, none, address, none⟩, ?_,
      absorb_unique hunique fun _ => hfree⟩
    have hnone : db.projects.rows.find? (fun p : Project =>
        p.chainId = chainId ∧ p.contractAddress = some (Text.lower address)) = none :=
      List.find?_eq_none.mpr fun q hq h => hfresh q hq (of_decide_eq_true h).2
    refine Option.or_eq_some_iff.mpr (Or.inr ⟨hnone, Option.bind_eq_some_iff.mpr ⟨a, ?_, ?_⟩⟩)
    · exact Table.get?_eq_some.mpr ⟨ha, Prod.ext hkind rfl⟩
    · exact Table.get?_eq_some.mpr ⟨hp, hid.symm⟩

/-- The project that a row of the sweep finds gets the lifecycle of its stages. -/
theorem exec_collection_of_resolve {row : ParsedCollectionRow} (newId : String)
    (hresolve : resolve db (normalizeCollectionRow row ⟨chainId, now, none⟩) = some p)
    (hunique : (p.absorb db (normalizeCollectionRow row ⟨chainId, now, none⟩)).Unique db) :
    ∃ p' ∈ (SweepOp.exec chainId db (.collection row newId now)).projects, p'.id = p.id ∧
      p'.lifecycleStatus = (scheduleOf db.stages.rows db.snapshots p.id now).1 := by
  have hok : upsertProjectFromSource db newId (normalizeCollectionRow row ⟨chainId, now, none⟩) =
      some ((normalizeCollectionRow row ⟨chainId, now, none⟩).result db p.id,
        (normalizeCollectionRow row ⟨chainId, now, none⟩).commit db
          (p.absorb db (normalizeCollectionRow row ⟨chainId, now, none⟩)) db.stages) := by
    rw [upsertProjectFromSource, target_of_some hresolve, if_pos]
    · rfl
    · refine ⟨hunique, fun hnone => ?_⟩
      exact absurd (hnone.symm.trans hresolve).symm (Option.some_ne_none p)
  rw [SweepOp.exec, hok]
  exact ⟨_, Table.mem_upsert.mpr (Or.inl rfl), rfl, rfl⟩

/-- A drop with an active stage that is not over is live or next, unless it is sold out. -/
theorem status_of_open (current : LifecycleStatus) (hopen : ¬ db.Over projectId since)
    (hsupply : (projectState db since projectId).soldOut = false) :
    (projectState db since projectId).status current = .live ∨
      (projectState db since projectId).status current = .next := by
  rw [ProjectDb.Over] at hopen
  push Not at hopen
  obtain ⟨s, hs, hid, hpaused, hends⟩ := hopen
  rw [ProjectState.status, hsupply, if_neg Bool.false_ne_true]
  by_cases hstarted : s.startsAt ≤ since
  · have hlive : (projectState db since projectId).live = true := by
      refine decide_eq_true ⟨s, hs, hid, hpaused, hstarted, ?_⟩
      cases hendsAt : s.endsAt with
      | none => exact Or.inl rfl
      | some endsAt => exact Or.inr ⟨endsAt, rfl, hends hstarted endsAt hendsAt⟩
    rw [if_pos hlive]
    exact Or.inl rfl
  · have hnext : (projectState db since projectId).nextStart ≠ none := by
      rw [projectState, ne_eq, List.min?_eq_none_iff, List.map_eq_nil_iff]
      refine List.ne_nil_of_mem (a := s) (List.mem_filter.mpr ⟨hs, decide_eq_true ?_⟩)
      exact ⟨hid, hpaused, not_le.mp hstarted⟩
    rw [if_pos hnext]
    split
    · exact Or.inl rfl
    · exact Or.inr rfl

theorem hasStages_of_open (hopen : ¬ db.Over projectId since) :
    ∃ s ∈ db.stages, s.projectId = projectId := by
  rw [ProjectDb.Over] at hopen
  push Not at hopen
  obtain ⟨s, hs, hid, -⟩ := hopen
  exact ⟨s, hs, hid⟩

/-- **Without the condition** one row of the sweep puts the project back. -/
theorem relisted_of_open (hp : p ∈ db.projects) (hunique : p.Unique db)
    (hfind : db.Findable chainId p) (hopen : ¬ db.Over p.id since)
    (hleft : ¬ db.SoldOut p.id) :
    ∃ ops : List SweepOp, (∀ op ∈ ops, since ≤ op.instant) ∧
      ¬ (SweepOp.run chainId db ops).Unlisted p.id := by
  have hsupply : (projectState db since p.id).soldOut = false :=
    Bool.eq_false_iff.mpr fun h => hleft (soldOut_projectState.mp h)
  obtain ⟨row, hresolve, haccepted⟩ := exists_row since hp hunique hfind
  obtain ⟨p', hp', hid, hstatus⟩ := exec_collection_of_resolve "" hresolve haccepted
  rw [scheduleOf_eq .ended (fun _ => Iff.rfl) (hasStages_of_open hopen)] at hstatus
  refine ⟨[.collection row "" since], fun op hop => ?_, fun h => ?_⟩
  · rw [List.mem_singleton.mp hop]
    exact le_rfl
  · obtain ⟨hlive, hnext⟩ := h p' hp' hid
    rcases status_of_open .ended hopen hsupply with hlisted | hlisted
    · exact hlive (hstatus.trans hlisted)
    · exact hnext (hstatus.trans hlisted)

end

/-! ### The statement -/

section

variable {db db' : ProjectDb} {slug : String} {now : ℤ} {p : Project}

/-- The project as a delisting leaves it. -/
def Project.delisted (p : Project) (now : ℤ) : Project :=
  { p with lifecycleStatus := .ended, nextStageStart := none, lastSeenAt := now }

theorem detailNotFound_eq_some (hp : p ∈ db.projects) (hslug : p.slug = some slug)
    (hunique : p.Unique db) (h : detailNotFound db slug now = some db') :
    (∃ s ∈ db.stages, s.projectId = p.id) ∧ db' = markProjectDelisted db p.id now := by
  obtain ⟨known, hknown, h⟩ := Option.bind_eq_some_iff.mp h
  have hfound := List.find?_some hknown
  have hsame : known.slug = some slug := of_decide_eq_true hfound
  have hmem : known ∈ db.projects := List.mem_of_find?_eq_some hknown
  have hid : known.id = p.id := by
    by_contra hne
    refine (hunique known hmem hne).2 ⟨?_, hsame.trans hslug.symm⟩
    rw [hslug]
    exact Option.some_ne_none slug
  obtain rfl := Table.eq_of_key hmem hp hid
  split at h
  · next hok => exact ⟨hok.1, (Option.some_inj.mp h).symm⟩
  · exact absurd h.symm (Option.some_ne_none db')

theorem mem_markProjectDelisted (hp : p ∈ db.projects) :
    p.delisted now ∈ (markProjectDelisted db p.id now).projects :=
  List.mem_map.mpr ⟨p, hp, if_pos rfl⟩

/-- What is active after a delisting are the active stages that had started. -/
theorem over_markProjectDelisted {since : ℤ} :
    (markProjectDelisted db p.id now).Over p.id since ↔ db.Settled p.id now since := by
  constructor
  · intro hover s hs hid hpaused hstarted
    refine hover s (List.mem_map.mpr ⟨s, hs, if_neg fun h => ?_⟩) hid hpaused
    exact absurd hstarted (not_le.mpr h.2)
  · intro hsettled s hs hid hpaused
    obtain ⟨s₀, hs₀, rfl⟩ := List.mem_map.mp hs
    by_cases hlater : s₀.projectId = p.id ∧ s₀.startsAt > now
    · rw [if_pos hlater] at hpaused
      exact absurd hpaused.symm Bool.false_ne_true
    · rw [if_neg hlater] at hid hpaused ⊢
      exact hsettled s₀ hs₀ hid hpaused (not_lt.mp fun h => hlater ⟨hid, h⟩)

theorem unique_markProjectDelisted (hunique : p.Unique db) :
    (p.delisted now).Unique (markProjectDelisted db p.id now) := by
  intro p' hp' hne
  obtain ⟨p₀, hp₀, rfl⟩ := List.mem_map.mp hp'
  by_cases hid : p₀.id = p.id
  · rw [if_pos hid] at hne
    exact absurd hid hne
  · rw [if_neg hid]
    exact hunique p₀ hp₀ hid

/-- **Exactly when a delisting sticks.**  After the drop endpoint has answered 404 for a project
with a schedule, no sequence of sweeps and recomputes whose clocks read `since` or later lists it
again, if and only if every active stage that had started is over by then, or a verified reading
says that it is sold out, or the collection sweep cannot come to the project at all.  `hunique` is what the unique indexes of `projects` say of it. -/
theorem delisting_sticky_iff (db db' : ProjectDb) (slug : String) (chainId : ℕ) (now since : ℤ)
    (p : Project) (hp : p ∈ db.projects) (hslug : p.slug = some slug) (hunique : p.Unique db)
    (hdelisted : detailNotFound db slug now = some db') :
    db'.StaysOff chainId p.id since ↔
      db.Settled p.id now since ∨ db.SoldOut p.id ∨ ¬ db.Findable chainId p := by
  obtain ⟨⟨s, hs, hid⟩, rfl⟩ := detailNotFound_eq_some hp hslug hunique hdelisted
  have hmem : p.delisted now ∈ (markProjectDelisted db p.id now).projects :=
    mem_markProjectDelisted hp
  constructor
  · intro hsticky
    by_contra hcond
    obtain ⟨hopen, hcond⟩ := not_or.mp hcond
    obtain ⟨hleft, hfind⟩ := not_or.mp hcond
    obtain ⟨ops, hops, hlisted⟩ := relisted_of_open hmem (unique_markProjectDelisted hunique)
      (not_not.mp hfind) (fun hover => hopen (over_markProjectDelisted.mp hover)) hleft
    exact hlisted (hsticky ops hops)
  · have hunlisted : (markProjectDelisted db p.id now).Unlisted p.id := by
      intro p' hp' hid'
      obtain rfl := Table.eq_of_key hp' hmem hid'
      exact not_listed (Or.inr rfl)
    have hstages : ∃ s ∈ (markProjectDelisted db p.id now).stages, s.projectId = p.id := by
      refine ⟨_, List.mem_map_of_mem hs, ?_⟩
      dsimp only
      split
      · exact hid
      · exact hid
    rintro (hsettled | hsold | hlost) ops hops
    · have hshelved : (markProjectDelisted db p.id now).Shelved p.id since :=
        ⟨over_markProjectDelisted.mpr hsettled, hstages, hunlisted⟩
      exact (hshelved.run hops).unlisted
    · have hexhausted : (markProjectDelisted db p.id now).Exhausted p.id :=
        ⟨hsold, hstages, hunlisted⟩
      exact (hexhausted.run ops).unlisted
    · exact (ProjectDb.Lost.run ⟨hmem, rfl, hlost⟩ ops).unlisted

end

/-- A drop with one stage from 0 and one from 30 on, listed as live. -/
def hiddenDrop (endsAt : Option ℤ) : ProjectDb where
  projects := ⟨[⟨"p", 4663, some "0xc0", "Drop", some "drop", none, .verified, .live, some 30, 0,
    0⟩], List.nodup_singleton _⟩
  aliases := ⟨[⟨"p", "opensea", "drop", 0, 0⟩], List.nodup_singleton _⟩
  stages := ⟨[⟨"p", "a", 1, "Public", .publicSale, none, none, none, 0, endsAt, false, 0⟩,
    ⟨"p", "b", 1, "Public", .publicSale, none, none, none, 30, none, false, 0⟩], by
      show [("p", "a"), ("p", "b")].Nodup
      decide⟩
  snapshots := []

/-- Hidden at 20, when its first stage is over, the drop stays off the feeds. -/
theorem delisting_sticky_hidden :
    (markProjectDelisted (hiddenDrop (some 10)) "p" 20).StaysOff 4663 "p" 20 :=
  (delisting_sticky_iff (hiddenDrop (some 10)) _ "drop" 4663 20 20
    ⟨"p", 4663, some "0xc0", "Drop", some "drop", none, .verified, .live, some 30, 0, 0⟩
    List.mem_cons_self rfl (by decide) rfl).mpr
    (Or.inl (by rw [ProjectDb.Settled]; decide))

/-- Hidden at 20 with a stage that has no end, it is live with the next row of the sweep. -/
theorem not_delisting_sticky :
    ∃ db', detailNotFound (hiddenDrop none) "drop" 20 = some db' ∧
      ∃ p ∈ (SweepOp.run 4663 db'
          [.collection ⟨"drop", "Drop", none, "0xc0", none⟩ "new" 21]).projects,
        p.id = "p" ∧ p.lifecycleStatus = .live :=
  ⟨_, rfl, by decide⟩

end Projects
