/-
Whether what is reported under one external id stays one project.

Two writers see a drop: a provider, who reports it under an external id and with or without a
contract, and the radar, who knows the contract alone.

* `MergeRun`, `step` — the tables with all that has been reported, and the calls of either writer;
* `MergeRun.Merged` — what has been reported under one external id for two projects is at most
  once in the feeds, as the project that has the alias and the slug;
* `Agrees` — the contract of a report and its alias do not name two projects;
* `merged_of_reach` — in runs of such reports every external id is of one project; the first
  report that is none leaves two, unless the feeds do not show the old one and its slug is free.
-/
import HoodMint.DropIngest
import HoodMint.Lib.Transition
import HoodMint.StageUpserts

namespace Projects

open Relational Transition

/-! ### Runs -/

/-- The conditions that every feed puts on its rows. -/
def ProjectDb.Visible (db : ProjectDb) (p : Project) : Prop :=
  ¬ (p.slug = none ∧ Text.startsWith p.name "Unknown ") ∧
    (p.lifecycleStatus ≠ .unknown ∨ ∃ s ∈ db.stages, s.projectId = p.id)

instance (db : ProjectDb) (p : Project) : Decidable (db.Visible p) :=
  (inferInstance : Decidable (¬ (p.slug = none ∧ Text.startsWith p.name "Unknown ") ∧
    (p.lifecycleStatus ≠ .unknown ∨ ∃ s ∈ db.stages, s.projectId = p.id)))

/-- A report: the provider and the external id, the project it went to and the slug. -/
structure Report where
  key : String × String
  projectId : String
  slug : Option String
deriving DecidableEq

/-- The tables, and all that has been reported, the latest first. -/
structure MergeRun where
  db : ProjectDb
  reports : List Report

/-- A report of a provider, and a contract that the radar sees. -/
inductive MergeOp
  | upsert (newId : String) (input : ProjectUpsert)
  | contract (newId : String) (chainId : ℕ) (contractAddress name : String) (now : ℤ)

namespace MergeRun

/-- One call; a report that throws changes nothing and is no step. -/
def step (s : MergeRun) : MergeOp → Option MergeRun
  | .upsert newId input => (upsertProjectFromSource s.db newId input).map fun u =>
    ⟨u.2, ⟨(input.providerKind, input.externalId), u.1.projectId, input.slug⟩ :: s.reports⟩
  | .contract newId chainId contractAddress name now =>
    some ⟨ensureContractProject s.db newId chainId contractAddress name now, s.reports⟩

def start : MergeRun := ⟨ProjectDb.empty, []⟩

/-! ### The property -/

/-- The project has the alias and the slug that was last reported, and is the only one in the
feeds of those it was reported for. -/
structure Survives (s : MergeRun) (key : String × String) (p : Project) : Prop where
  aliased : ∃ a ∈ s.db.aliases, a.key = key ∧ a.projectId = p.id
  slug : ∀ r ∈ s.reports.find? (·.key = key), ∀ slug ∈ r.slug, p.slug = some slug
  alone : ∀ q ∈ s.db.projects, q.id ≠ p.id →
    (∃ r ∈ s.reports, r.key = key ∧ r.projectId = q.id) → ¬ s.db.Visible q

/-- No external id that was reported for two projects is twice in the feeds. -/
def Merged (s : MergeRun) : Prop :=
  ∀ r ∈ s.reports, ∀ r' ∈ s.reports, r.key = r'.key → r.projectId ≠ r'.projectId →
    ∃ p ∈ s.db.projects, s.Survives r.key p

end MergeRun

/-- The project with the contract of a report. -/
def ProjectUpsert.contractRow? (input : ProjectUpsert) (db : ProjectDb) : Option Project :=
  input.contractAddress.bind fun contractAddress => db.projects.rows.find? fun p =>
    p.chainId = input.chainId ∧ p.contractAddress = some (Text.lower contractAddress)

/-- The project with the alias of a report. -/
def ProjectUpsert.aliasRow? (input : ProjectUpsert) (db : ProjectDb) : Option Project :=
  (db.aliases.get? (input.providerKind, input.externalId)).bind fun a =>
    db.projects.get? a.projectId

theorem resolve_eq_or (db : ProjectDb) (input : ProjectUpsert) :
    resolve db input = (input.contractRow? db).or (input.aliasRow? db) := rfl

namespace MergeRun

/-- The contract of a report and its alias do not name two projects. -/
def Agrees (s : MergeRun) : MergeOp → Prop
  | .upsert _ input => ∀ known ∈ input.aliasRow? s.db, ∀ found ∈ input.contractRow? s.db,
      known.id = found.id
  | .contract .. => True

instance (s : MergeRun) : DecidablePred s.Agrees := fun op =>
  match op with
  | .upsert _ input => (inferInstance : Decidable (∀ known ∈ input.aliasRow? s.db,
      ∀ found ∈ input.contractRow? s.db, known.id = found.id))
  | .contract .. => isTrue trivial

/-- Where they do, the feeds do not show the one with the alias, and no other project has the
slug. -/
def Harmless (s : MergeRun) : MergeOp → Prop
  | .upsert _ input => ∀ known ∈ input.aliasRow? s.db, ∀ found ∈ input.contractRow? s.db,
      known.id ≠ found.id → ¬ s.db.Visible known ∧
        ∀ slug ∈ input.slug, ∀ q ∈ s.db.projects, q.slug = some slug → q.id = found.id
  | .contract .. => True

end MergeRun

/-! ### What a report changes -/

section

variable {db db' : ProjectDb} {newId : String} {input : ProjectUpsert} {r : UpsertResult}
  {q : Project}

/-- The other projects stay as they are. -/
theorem mem_projects_of_upsert (hup : upsertProjectFromSource db newId input = some (r, db'))
    (hne : q.id ≠ r.projectId) : q ∈ db'.projects ↔ q ∈ db.projects := by
  obtain ⟨-, -, stages, -, rfl, rfl⟩ := upsertProjectFromSource_eq_some hup
  exact Table.mem_upsert.trans ⟨fun h => (h.resolve_left fun heq => hne (heq ▸ rfl)).1,
    fun hq => Or.inr ⟨hq, hne⟩⟩

/-- The feeds show them as before. -/
theorem visible_of_upsert (hup : upsertProjectFromSource db newId input = some (r, db'))
    (hne : q.id ≠ r.projectId) : db'.Visible q ↔ db.Visible q := by
  obtain ⟨-, -, stages, hfold, rfl, rfl⟩ := upsertProjectFromSource_eq_some hup
  have hstages : ∀ s : DropStage, s.projectId = q.id →
      (s ∈ pauseSuperseded input (input.target db newId).id stages ↔ s ∈ db.stages) := by
    intro s hid
    have hother : s.projectId ≠ (input.target db newId).id := fun heq => hne (hid.symm.trans heq)
    exact (pauseSuperseded_frame hother).trans (foldlM_upsertStage_frame hfold hother)
  have hexists : (∃ s ∈ pauseSuperseded input (input.target db newId).id stages,
      s.projectId = q.id) ↔ ∃ s ∈ db.stages, s.projectId = q.id := by
    constructor
    · rintro ⟨s, hs, hid⟩
      exact ⟨s, (hstages s hid).mp hs, hid⟩
    · rintro ⟨s, hs, hid⟩
      exact ⟨s, (hstages s hid).mpr hs, hid⟩
  exact and_congr_right fun _ => or_congr_right hexists

/-- The project that a report goes to has its alias. -/
theorem upsert_target (hup : upsertProjectFromSource db newId input = some (r, db')) :
    (∃ p ∈ db'.projects, p.id = r.projectId ∧ p.slug = (input.target db newId).slug) ∧
      ∃ a ∈ db'.aliases, a.key = (input.providerKind, input.externalId) ∧
        a.projectId = r.projectId := by
  obtain ⟨-, -, stages, -, rfl, rfl⟩ := upsertProjectFromSource_eq_some hup
  exact ⟨⟨_, Table.mem_upsert.mpr (Or.inl rfl), rfl, rfl⟩,
    ⟨_, Table.mem_upsert.mpr (Or.inl rfl), rfl, rfl⟩⟩

/-- The aliases of other external ids stay. -/
theorem mem_aliases_of_upsert (hup : upsertProjectFromSource db newId input = some (r, db'))
    {a : ProjectAlias} (hne : a.key ≠ (input.providerKind, input.externalId)) :
    a ∈ db'.aliases ↔ a ∈ db.aliases := by
  obtain ⟨-, -, stages, -, rfl, rfl⟩ := upsertProjectFromSource_eq_some hup
  exact Table.mem_upsert.trans ⟨fun h => (h.resolve_left fun heq => hne (heq ▸ rfl)).1,
    fun ha => Or.inr ⟨ha, hne⟩⟩

/-- The identifier a report goes to. -/
theorem projectId_of_resolve (hup : upsertProjectFromSource db newId input = some (r, db'))
    {p : Project} (hresolve : resolve db input = some p) : r.projectId = p.id := by
  obtain ⟨-, -, stages, -, rfl, -⟩ := upsertProjectFromSource_eq_some hup
  rw [target_of_some hresolve]
  rfl

end

/-! ### Every run -/

namespace MergeRun

variable {s s' : MergeRun}

/-- Every external id is of one project: the one it is an alias of. -/
structure Single (s : MergeRun) : Prop where
  known : ∀ a ∈ s.db.aliases, ∃ p ∈ s.db.projects, p.id = a.projectId
  reported : ∀ a ∈ s.db.aliases, ∃ r ∈ s.reports, r.key = a.key ∧ r.projectId = a.projectId
  single : ∀ r ∈ s.reports, ∃ a ∈ s.db.aliases, a.key = r.key ∧ a.projectId = r.projectId

namespace Single

theorem eq_of_key (h : s.Single) {r r' : Report} (hr : r ∈ s.reports) (hr' : r' ∈ s.reports)
    (hkey : r.key = r'.key) : r.projectId = r'.projectId := by
  obtain ⟨a, ha, hak, haid⟩ := h.single r hr
  obtain ⟨a', ha', hak', haid'⟩ := h.single r' hr'
  obtain rfl := Table.eq_of_key ha ha' (hak.trans (hkey.trans hak'.symm))
  exact haid.symm.trans haid'

theorem merged (h : s.Single) : s.Merged := fun _ hr _ hr' hkey hne =>
  absurd (h.eq_of_key hr hr' hkey) hne

/-- The project with the alias is the one that was reported. -/
theorem aliasRow? (h : s.Single) {input : ProjectUpsert} {r : Report} (hr : r ∈ s.reports)
    (hkey : r.key = (input.providerKind, input.externalId)) :
    ∃ known, input.aliasRow? s.db = some known ∧ known.id = r.projectId ∧
      known ∈ s.db.projects := by
  obtain ⟨a, ha, hak, haid⟩ := h.single r hr
  obtain ⟨p, hp, hid⟩ := h.known a ha
  refine ⟨p, Option.bind_eq_some_iff.mpr ⟨a, ?_, ?_⟩, hid.trans haid, hp⟩
  · exact Table.get?_eq_some.mpr ⟨ha, hak.trans hkey⟩
  · exact Table.get?_eq_some.mpr ⟨hp, hid⟩

/-- The project with the alias has been reported. -/
theorem report_of_aliasRow (h : s.Single) {input : ProjectUpsert} {known : Project}
    (hknown : input.aliasRow? s.db = some known) :
    known ∈ s.db.projects ∧ ∃ r ∈ s.reports,
      r.key = (input.providerKind, input.externalId) ∧ r.projectId = known.id := by
  obtain ⟨a, ha, hp⟩ := Option.bind_eq_some_iff.mp hknown
  obtain ⟨ha, hak⟩ := Table.get?_eq_some.mp ha
  obtain ⟨hp, hid⟩ := Table.get?_eq_some.mp hp
  obtain ⟨r, hr, hkey, hrid⟩ := h.reported a ha
  exact ⟨hp, r, hr, hkey.trans hak, hrid.trans hid.symm⟩

/-- What was reported under the external id of a report is the project that this one goes to,
unless its contract and its alias name two. -/
theorem report_cases (h : s.Single) {newId : String} {input : ProjectUpsert} {u : UpsertResult}
    {db' : ProjectDb} (hup : upsertProjectFromSource s.db newId input = some (u, db')) {r : Report}
    (hr : r ∈ s.reports) (hkey : r.key = (input.providerKind, input.externalId)) :
    r.projectId = u.projectId ∨ ∃ known found, input.aliasRow? s.db = some known ∧
      input.contractRow? s.db = some found ∧ known.id = r.projectId ∧ found.id = u.projectId ∧
      known.id ≠ found.id := by
  obtain ⟨known, hknown, hid, -⟩ := h.aliasRow? hr hkey
  cases hfound : input.contractRow? s.db with
  | none =>
    have hresolve : resolve s.db input = some known := by rw [resolve_eq_or, hfound, hknown]; rfl
    exact Or.inl (hid.symm.trans (projectId_of_resolve hup hresolve).symm)
  | some found =>
    have hresolve : resolve s.db input = some found := by rw [resolve_eq_or, hfound]; rfl
    have hu := projectId_of_resolve hup hresolve
    by_cases hsame : known.id = found.id
    · exact Or.inl (hid.symm.trans (hsame.trans hu.symm))
    · exact Or.inr ⟨known, found, hknown, rfl, hid, hu.symm, hsame⟩

/-- A report whose contract and alias agree. -/
theorem upsert (h : s.Single) {newId : String} {input : ProjectUpsert} {u : UpsertResult}
    {db' : ProjectDb} (hup : upsertProjectFromSource s.db newId input = some (u, db'))
    (hagrees : s.Agrees (.upsert newId input)) :
    Single ⟨db', ⟨(input.providerKind, input.externalId), u.projectId, input.slug⟩ ::
      s.reports⟩ := by
  obtain ⟨⟨p, hp, hpid, -⟩, a, ha, hak, haid⟩ := upsert_target hup
  have halias : ∀ a' ∈ db'.aliases, a' = a ∨
      (a' ∈ s.db.aliases ∧ a'.key ≠ (input.providerKind, input.externalId)) := by
    intro a' ha'
    by_cases hkey : a'.key = (input.providerKind, input.externalId)
    · exact Or.inl (Table.eq_of_key ha' ha (hkey.trans hak.symm))
    · exact Or.inr ⟨(mem_aliases_of_upsert hup hkey).mp ha', hkey⟩
  constructor
  · intro a' ha'
    rcases halias a' ha' with rfl | ⟨ha', -⟩
    · exact ⟨p, hp, hpid.trans haid.symm⟩
    · obtain ⟨q, hq, hid⟩ := h.known a' ha'
      by_cases hsame : q.id = u.projectId
      · exact ⟨p, hp, hpid.trans (hsame.symm.trans hid)⟩
      · exact ⟨q, (mem_projects_of_upsert hup hsame).mpr hq, hid⟩
  · intro a' ha'
    rcases halias a' ha' with rfl | ⟨ha', -⟩
    · exact ⟨_, List.mem_cons_self, hak.symm, haid.symm⟩
    · obtain ⟨r, hr, hr'⟩ := h.reported a' ha'
      exact ⟨r, List.mem_cons_of_mem _ hr, hr'⟩
  · intro r hr
    by_cases hkey : r.key = (input.providerKind, input.externalId)
    · refine ⟨a, ha, hak.trans hkey.symm, haid.trans ?_⟩
      rcases List.mem_cons.mp hr with rfl | hr
      · rfl
      · refine ((h.report_cases hup hr hkey).resolve_right ?_).symm
        rintro ⟨known, found, hknown, hfound, -, -, hne⟩
        exact hne (hagrees known hknown found hfound)
    · rcases List.mem_cons.mp hr with rfl | hr
      · exact absurd rfl hkey
      · obtain ⟨a', ha', hak', haid'⟩ := h.single r hr
        exact ⟨a', (mem_aliases_of_upsert hup fun heq => hkey (hak'.symm.trans heq)).mpr ha',
          hak', haid'⟩

theorem contract (h : s.Single) (newId : String) (chainId : ℕ) (contractAddress name : String)
    (now : ℤ) :
    Single ⟨ensureContractProject s.db newId chainId contractAddress name now, s.reports⟩ := by
  have haliases : (ensureContractProject s.db newId chainId contractAddress name now).aliases =
      s.db.aliases := by
    rw [ensureContractProject]
    split
    · rfl
    · rfl
  refine ⟨fun a ha => ?_, fun a ha => h.reported a (haliases ▸ ha), fun r hr => ?_⟩
  · obtain ⟨p, hp, hid⟩ := h.known a (haliases ▸ ha)
    refine ⟨p, ?_, hid⟩
    show p ∈ (ensureContractProject s.db newId chainId contractAddress name now).projects
    rw [ensureContractProject]
    split
    · exact hp
    · exact Table.mem_insert_of_mem hp
  · obtain ⟨a, ha, hakey⟩ := h.single r hr
    exact ⟨a, haliases ▸ ha, hakey⟩

end Single

theorem single_of_reach (h : Reach step Agrees start s) : s.Single := by
  refine h.invariant ⟨?_, ?_, ?_⟩ fun s op s' _ hs hagrees hstep => ?_
  · exact fun a ha => absurd ha Table.not_mem_empty
  · exact fun a ha => absurd ha Table.not_mem_empty
  · exact fun r hr => absurd hr List.not_mem_nil
  · cases op with
    | upsert newId input =>
      obtain ⟨⟨u, db'⟩, hup, rfl⟩ := Option.map_eq_some_iff.mp hstep
      exact hs.upsert hup hagrees
    | contract newId chainId contractAddress name now =>
      obtain rfl := Option.some_inj.mp hstep
      exact hs.contract newId chainId contractAddress name now

/-- The report just made is the latest one. -/
theorem find?_latest (r : Report) (reports : List Report) :
    ((r :: reports).find? fun r' => r'.key = r.key) = some r :=
  List.find?_cons_of_pos (decide_eq_true rfl)

/-- Of two projects named by one report, the other one survives at most once in the feeds exactly
when the step is harmless. -/
theorem merged_upsert_iff (hs : s.Single) {newId : String} {input : ProjectUpsert}
    {u : UpsertResult} {db' : ProjectDb}
    (hup : upsertProjectFromSource s.db newId input = some (u, db')) :
    Merged ⟨db', ⟨(input.providerKind, input.externalId), u.projectId, input.slug⟩ ::
      s.reports⟩ ↔ s.Harmless (.upsert newId input) := by
  obtain ⟨⟨p, hp, hpid, hpslug⟩, a, ha, hak, haid⟩ := upsert_target hup
  constructor
  · intro hmerged known hknown found hfound hne
    -- the contract decides over the alias, which `known` had until now
    have hresolve : resolve s.db input = some found := by
      rw [resolve_eq_or, Option.mem_def.mp hfound]
      rfl
    have hu := projectId_of_resolve hup hresolve
    obtain ⟨hmem, r, hr, hkey, hid⟩ := hs.report_of_aliasRow hknown
    have hother : known.id ≠ u.projectId := fun heq => hne (heq.trans hu)
    obtain ⟨p', hp', hsurvives⟩ := hmerged r (List.mem_cons_of_mem _ hr) _ List.mem_cons_self hkey
      (hid ▸ hother)
    rw [hkey] at hsurvives
    obtain ⟨a', ha', hak', haid'⟩ := hsurvives.aliased
    obtain rfl := Table.eq_of_key ha' ha (hak'.trans hak.symm)
    obtain rfl := Table.eq_of_key hp' hp (haid'.symm.trans (haid.trans hpid.symm))
    constructor
    · have hgone := hsurvives.alone known ((mem_projects_of_upsert hup hother).mpr hmem)
        (fun heq => hother (heq.trans hpid)) ⟨r, List.mem_cons_of_mem _ hr, hkey, hid⟩
      exact fun hvisible => hgone ((visible_of_upsert hup hother).mpr hvisible)
    · intro slug hslug q hq hqslug
      by_contra hqne
      have hlatest : p'.slug = some slug := hsurvives.slug _ (find?_latest _ _) slug hslug
      have hunique := (upsertProjectFromSource_eq_some hup).1
      rw [hpslug] at hlatest
      have htarget : (input.target s.db newId).id = found.id := by
        rw [target_of_some hresolve]
        rfl
      refine (hunique q hq (fun heq => hqne (heq.trans htarget))).2 ⟨?_, ?_⟩
      · rw [hlatest]
        exact Option.some_ne_none slug
      · exact hqslug.trans hlatest.symm
  · intro hharmless r₁ hr₁ r₂ hr₂ hkey hne
    -- the earlier reports under this id are of the project that had the alias
    have hold : ∀ r ∈ s.reports, r.key = (input.providerKind, input.externalId) →
        r.projectId ≠ u.projectId → ∃ p ∈ db'.projects, Survives ⟨db', ⟨(input.providerKind,
          input.externalId), u.projectId, input.slug⟩ :: s.reports⟩
          (input.providerKind, input.externalId) p := by
      intro r hr hrkey hrne
      obtain ⟨known, found, hknown, hfound, hid, hu, hdiff⟩ :=
        (hs.report_cases hup hr hrkey).resolve_left hrne
      obtain ⟨hhidden, hfree⟩ := hharmless known hknown found hfound hdiff
      refine ⟨p, hp, ⟨a, ha, hak, haid.trans hpid.symm⟩, fun l hl slug hslug => ?_, ?_⟩
      · obtain rfl := Option.some_inj.mp (hl.symm.trans (find?_latest _ _))
        have hslug : input.slug = some slug := hslug
        have hresolve : resolve s.db input = some found := by rw [resolve_eq_or, hfound]; rfl
        rw [hpslug, target_of_some hresolve, Project.absorb]
        dsimp only
        rw [if_neg, hslug]
        · rfl
        · rintro ⟨q, hq, hqslug, hqne⟩
          exact hqne (hfree slug hslug q hq (hqslug.trans hslug))
      · rintro q hq hqne ⟨r₃, hr₃, hkey₃, hid₃⟩ hvisible
        have hqne : q.id ≠ u.projectId := fun heq => hqne (heq.trans hpid.symm)
        rcases List.mem_cons.mp hr₃ with rfl | hr₃
        · exact hqne hid₃.symm
        · -- the other project reported under this id is the one with the alias
          have hsame := hs.eq_of_key hr₃ hr (hkey₃.trans hrkey.symm)
          have hqmem := (mem_projects_of_upsert hup hqne).mp hq
          obtain ⟨hkmem, -⟩ := hs.report_of_aliasRow hknown
          obtain rfl := Table.eq_of_key hqmem hkmem (hid₃.symm.trans (hsame.trans hid.symm))
          exact hhidden ((visible_of_upsert hup hqne).mp hvisible)
    rcases List.mem_cons.mp hr₁ with rfl | hr₁
    · rcases List.mem_cons.mp hr₂ with rfl | hr₂
      · exact absurd rfl hne
      · exact hold r₂ hr₂ hkey.symm hne.symm
    · rcases List.mem_cons.mp hr₂ with rfl | hr₂
      · rw [hkey]
        exact hold r₁ hr₁ hkey hne
      · exact absurd (hs.eq_of_key hr₁ hr₂ hkey) hne

/-- **One project for one external id.**  While no report finds one project by its contract and
another by its alias, what has been reported under one external id is once in the feeds; the first
report that does keeps that up if and only if the feeds do not show the project with the alias
and no other project has the slug. -/
theorem merged_of_reach (h : Reach step Agrees start s) :
    s.Merged ∧ ∀ op s', s.step op = some s' → (s'.Merged ↔ s.Harmless op) := by
  have hs := single_of_reach h
  refine ⟨hs.merged, fun op s' hstep => ?_⟩
  cases op with
  | upsert newId input =>
    obtain ⟨⟨u, db'⟩, hup, rfl⟩ := Option.map_eq_some_iff.mp hstep
    exact merged_upsert_iff hs hup
  | contract newId chainId contractAddress name now =>
    obtain rfl := Option.some_inj.mp hstep
    exact iff_of_true (hs.contract newId chainId contractAddress name now).merged trivial

/-- Two projects reported under one external id are both in the feeds. -/
def Duplicated (s : MergeRun) : Prop :=
  ∃ r ∈ s.reports, ∃ r' ∈ s.reports, r.key = r'.key ∧ r.projectId ≠ r'.projectId ∧
    (∃ p ∈ s.db.projects, p.id = r.projectId ∧ s.db.Visible p) ∧
    ∃ p ∈ s.db.projects, p.id = r'.projectId ∧ s.db.Visible p

instance : DecidablePred Duplicated := fun s =>
  (inferInstance : Decidable (∃ r ∈ s.reports, ∃ r' ∈ s.reports, r.key = r'.key ∧
    r.projectId ≠ r'.projectId ∧ (∃ p ∈ s.db.projects, p.id = r.projectId ∧ s.db.Visible p) ∧
    ∃ p ∈ s.db.projects, p.id = r'.projectId ∧ s.db.Visible p))

theorem Duplicated.not_merged (h : s.Duplicated) : ¬ s.Merged := by
  obtain ⟨r, hr, r', hr', hkey, hne, ⟨p, hp, hpid, hpvisible⟩, q, hq, hqid, hqvisible⟩ := h
  intro hmerged
  obtain ⟨x, -, hx⟩ := hmerged r hr r' hr' hkey hne
  by_cases hpx : p.id = x.id
  · have hqx : q.id ≠ x.id := fun heq =>
      hne (hpid.symm.trans (hpx.trans (heq.symm.trans hqid)))
    exact hx.alone q hq hqx ⟨r', hr', hkey.symm, hqid.symm⟩ hqvisible
  · exact hx.alone p hp hpx ⟨r, hr, rfl, hpid.symm⟩ hpvisible

end MergeRun

/-- A drop with one stage. -/
def dropReport (contractAddress : Option String) : ProjectUpsert where
  providerKind := "opensea"
  externalId := "drop"
  chainId := 4663
  contractAddress := contractAddress
  name := "Drop"
  slug := some "drop"
  imageUrl := none
  confidence := .verified
  stages := [⟨"a", "Public", .publicSale, none, none, none, 0, none, false⟩]
  supply := none
  evidenceKind := none
  now := 20

namespace MergeRun

/-- The radar sees the contract first, and all reports go to its project: by the contract, by the
alias, and by both. -/
theorem merged_of_reach_radarFirst :
    ∃ s : MergeRun, decide (s.reports.length = 3) = true ∧ s.Merged ∧
      ∀ op s', s.step op = some s' → (s'.Merged ↔ s.Harmless op) := by
  obtain ⟨s, hr, hs⟩ := exists_reach_of_run step Agrees start
    [.contract "a" 4663 "0xC0" "Unknown 0xC0" 0, .upsert "b" (dropReport (some "0xC0")),
      .upsert "c" (dropReport none), .upsert "d" (dropReport (some "0xC0"))]
    (fun s => s.reports.length = 3) (by decide) (by decide)
  exact ⟨s, hs, merged_of_reach hr⟩

/-- The drop is reported before its contract is known, and the radar sees the contract before it
is reported with it: the feeds show the drop twice. -/
theorem not_merged_contractLast : ∃ s, Transition.Reachable step start s ∧ ¬ s.Merged := by
  obtain ⟨s, hr, hs⟩ := exists_reachable_of_run step start
    [.upsert "a" (dropReport none), .contract "b" 4663 "0xC0" "Unknown 0xC0" 0,
      .upsert "c" (dropReport (some "0xC0"))] (fun s => s.Duplicated) (by decide)
  exact ⟨s, hr, (of_decide_eq_true hs).not_merged⟩

end MergeRun

end Projects
