/-
Projects, their stages and their supply (`packages/db/src/repositories/projects.ts`,
`delist.ts`).

* `upsertProjectFromSource` — what a provider reports of a project is merged into the tables:
  `resolve`, `Project.absorb`, `upsertStage`, `pauseSuperseded`, and last `scheduleOf`, the
  lifecycle of the rows that result (`upsertProjectFromSource_eq_some`);
* `recomputeLifecycles` — the same decision as a statement of SQL, every minute;
* `recordChainSupply` — a reading of the supply sweep;
* `markProjectDelisted`, `detailNotFound` — what a 404 of the drop endpoint does.

Rows of `drop_stages` are known by their project and provider id, which is a unique index.  An
upsert that a unique index refuses throws, and has changed nothing.  Evidence, provenance
fields and socials are left out.
-/
import HoodMint.Lib.Table
import HoodMint.Lib.Text
import HoodMint.Lifecycle

namespace Projects

open Relational

/-! ### Rows -/

inductive Confidence | verified | corroborated | singleSource | unverified
deriving DecidableEq

/-- A row of `projects`. -/
structure Project where
  id : String
  chainId : ℕ
  contractAddress : Option String
  name : String
  slug : Option String
  imageUrl : Option String
  confidence : Confidence
  lifecycleStatus : LifecycleStatus
  nextStageStart : Option ℤ
  firstSeenAt : ℤ
  lastSeenAt : ℤ
deriving DecidableEq

/-- A row of `project_aliases`. -/
structure ProjectAlias where
  projectId : String
  providerKind : String
  externalId : String
  firstSeenAt : ℤ
  lastSeenAt : ℤ
deriving DecidableEq

def ProjectAlias.key (a : ProjectAlias) : String × String := (a.providerKind, a.externalId)

/-- A row of `drop_stages`. -/
structure DropStage where
  projectId : String
  providerStageId : String
  version : ℕ
  label : String
  type : StageKind
  priceWei : Option String
  currency : Option String
  maxPerWallet : Option ℕ
  startsAt : ℤ
  endsAt : Option ℤ
  paused : Bool
  updatedAt : ℤ
deriving DecidableEq

def DropStage.key (s : DropStage) : String × String := (s.projectId, s.providerStageId)

/-- A row of `supply_snapshots`. -/
structure SupplySnapshot where
  projectId : String
  minted : ℤ
  maxSupply : Option ℤ
  observedAt : ℤ
  source : String
  verified : Bool
deriving DecidableEq

structure ProjectDb where
  projects : Table Project String Project.id
  aliases : Table ProjectAlias (String × String) ProjectAlias.key
  stages : Table DropStage (String × String) DropStage.key
  snapshots : List SupplySnapshot

/-- The tables of a new deployment. -/
def ProjectDb.empty : ProjectDb := ⟨Table.empty, Table.empty, Table.empty, []⟩

/-! ### What a provider reports -/

structure StageUpsert where
  providerStageId : String
  label : String
  kind : StageKind
  priceWei : Option String
  currency : Option String
  maxPerWallet : Option ℕ
  startsAt : ℤ
  endsAt : Option ℤ
  paused : Bool
deriving DecidableEq

structure SupplyUpsert where
  minted : Option ℤ
  maxSupply : Option ℤ
  verified : Bool
  source : String
deriving DecidableEq

structure ProjectUpsert where
  providerKind : String
  externalId : String
  chainId : ℕ
  contractAddress : Option String
  name : String
  slug : Option String
  imageUrl : Option String
  confidence : Confidence
  stages : List StageUpsert
  supply : Option SupplyUpsert
  evidenceKind : Option String
  now : ℤ
deriving DecidableEq

structure UpsertResult where
  projectId : String
  created : Bool
  contractConflict : Bool
deriving DecidableEq

/-! ### The lifecycle of the rows -/

def DropStage.view (s : DropStage) : StageView := ⟨s.label, s.type, s.startsAt, s.endsAt, s.paused⟩

/-- The first of the latest snapshots, in the order they are listed in. -/
def newest : List SupplySnapshot → Option SupplySnapshot
  | [] => none
  | s :: rest =>
    match newest rest with
    | some s' => if s'.observedAt ≤ s.observedAt then some s else some s'
    | none => some s

/-- `latestSupplyFor`. -/
def latestSupplyFor (snapshots : List SupplySnapshot) (projectId : String) :
    Option SupplySnapshot :=
  newest (snapshots.filter fun s => s.projectId = projectId)

/-- The supply a snapshot states. -/
def supplyFacts (snapshot : Option SupplySnapshot) : SupplyFacts :=
  ⟨snapshot.map SupplySnapshot.minted, snapshot.bind SupplySnapshot.maxSupply,
    snapshot.elim false SupplySnapshot.verified⟩

/-- The recompute step of `upsertProjectFromSource`: the status and `next_stage_start`. -/
def scheduleOf (stages : List DropStage) (snapshots : List SupplySnapshot) (projectId : String)
    (now : ℤ) : LifecycleStatus × Option ℤ :=
  let allStageRows := (stages.filter fun s => s.projectId = projectId).insertionSort
    fun a b => a.startsAt ≤ b.startsAt
  let stageRows := allStageRows.filter fun s => ¬ s.paused
  let paused := if allStageRows.length > 0 ∧ stageRows.length = 0 then some true else none
  (computeLifecycle (stageRows.map DropStage.view) now paused
      (supplyFacts (latestSupplyFor snapshots projectId)),
    (((stageRows.map DropStage.startsAt).filter (· > now)).insertionSort (· ≤ ·)).head?)

/-! ### Upserts -/

/-- The project an upsert is about: by its contract first, by its alias second. -/
def resolve (db : ProjectDb) (input : ProjectUpsert) : Option Project :=
  (input.contractAddress.bind fun contractAddress => db.projects.rows.find? fun p =>
    p.chainId = input.chainId ∧ p.contractAddress = some (Text.lower contractAddress)).or
  ((db.aliases.get? (input.providerKind, input.externalId)).bind fun a =>
    db.projects.get? a.projectId)

/-- A new project. -/
def ProjectUpsert.project (input : ProjectUpsert) (id : String) : Project :=
  ⟨id, input.chainId, input.contractAddress.map Text.lower, input.name, input.slug,
    input.imageUrl, input.confidence, .unknown, none, input.now, input.now⟩

/-- The other projects leave the contract and the slug of this one free. -/
def Project.Unique (db : ProjectDb) (p : Project) : Prop :=
  ∀ p' ∈ db.projects, p'.id ≠ p.id →
    ¬ (p.contractAddress ≠ none ∧ p'.chainId = p.chainId ∧
      p'.contractAddress = p.contractAddress) ∧ ¬ (p.slug ≠ none ∧ p'.slug = p.slug)

instance (db : ProjectDb) (p : Project) : Decidable (p.Unique db) :=
  (inferInstance : Decidable (∀ p' ∈ db.projects.rows, p'.id ≠ p.id →
    ¬ (p.contractAddress ≠ none ∧ p'.chainId = p.chainId ∧
      p'.contractAddress = p.contractAddress) ∧ ¬ (p.slug ≠ none ∧ p'.slug = p.slug)))

/-- The known project with what is reported of it; a slug that another one owns is not taken. -/
def Project.absorb (db : ProjectDb) (input : ProjectUpsert) (p : Project) : Project :=
  { p with
    contractAddress := p.contractAddress.or (input.contractAddress.map Text.lower)
    name := input.name
    slug := if ∃ p' ∈ db.projects, p'.slug = input.slug ∧ p'.id ≠ p.id then p.slug
      else input.slug.or p.slug
    imageUrl := input.imageUrl.or p.imageUrl
    confidence := input.confidence
    lastSeenAt := input.now }

/-- The spelling a stage id is matched in. -/
def canonicalStageId (id : String) : String :=
  Text.lower (String.ofList (id.toList.filter (· ≠ '-')))

/-- The stored row of a reported stage: the one in canonical spelling, else the freshest. -/
def currentStage? (stages : Table DropStage (String × String) DropStage.key) (projectId : String)
    (stage : StageUpsert) : Option DropStage :=
  let rows := stages.rows.filter fun s =>
    s.projectId = projectId ∧ canonicalStageId s.providerStageId = stage.providerStageId
  (rows.find? fun s => s.providerStageId = stage.providerStageId).or
    (rows.insertionSort fun a b => a.updatedAt ≥ b.updatedAt).head?

/-- The stage differs from its stored row. -/
def MaterialChange (stage : StageUpsert) (current : DropStage) : Prop :=
  current.label ≠ stage.label ∨ current.type ≠ stage.kind ∨ current.priceWei ≠ stage.priceWei ∨
    current.maxPerWallet ≠ stage.maxPerWallet ∨ current.startsAt ≠ stage.startsAt ∨
    current.endsAt ≠ stage.endsAt ∨ current.paused ≠ stage.paused

instance (stage : StageUpsert) (current : DropStage) : Decidable (MaterialChange stage current) :=
  (inferInstance : Decidable (current.label ≠ stage.label ∨ current.type ≠ stage.kind ∨
    current.priceWei ≠ stage.priceWei ∨ current.maxPerWallet ≠ stage.maxPerWallet ∨
    current.startsAt ≠ stage.startsAt ∨ current.endsAt ≠ stage.endsAt ∨
    current.paused ≠ stage.paused))

/-- The row of a reported stage. -/
def StageUpsert.row (stage : StageUpsert) (projectId : String) (version : ℕ) (now : ℤ) :
    DropStage :=
  ⟨projectId, stage.providerStageId, version, stage.label, stage.kind, stage.priceWei,
    stage.currency, stage.maxPerWallet, stage.startsAt, stage.endsAt, stage.paused, now⟩

/-- One reported stage.  A cap that `max_per_wallet`, an `int4`, does not hold makes the source throw
where this stores it. -/
def upsertStage (projectId : String) (now : ℤ)
    (stages : Table DropStage (String × String) DropStage.key) (stage : StageUpsert) :
    Option (Table DropStage (String × String) DropStage.key) :=
  match currentStage? stages projectId stage with
  | none =>
    if stages.get? (projectId, stage.providerStageId) = none then
      some (stages.insert (stage.row projectId 1 now))
    else none
  | some current =>
    let row := if MaterialChange stage current then stage.row projectId (current.version + 1) now
      else { current with providerStageId := stage.providerStageId }
    some ((stages.delete fun s => s.key = current.key).upsert row)

/-- A detail fetch lists every stage: rows that it no longer returns, and duplicates in another
spelling, are paused. -/
def pauseSuperseded (input : ProjectUpsert) (projectId : String)
    (stages : Table DropStage (String × String) DropStage.key) :
    Table DropStage (String × String) DropStage.key :=
  if input.evidenceKind = some "drops:detail" ∧ input.stages ≠ [] then
    stages.update
      (fun s => s.projectId = projectId ∧ s.paused = false ∧
        (s.providerStageId ∉ input.stages.map StageUpsert.providerStageId ∨
          s.providerStageId ≠ canonicalStageId s.providerStageId))
      (fun s => { s with paused := true, updatedAt := input.now }) fun _ => rfl
  else stages

/-- The snapshot of a reported supply. -/
def ProjectUpsert.snapshots (input : ProjectUpsert) (projectId : String) : List SupplySnapshot :=
  match input.supply with
  | some ⟨some minted, maxSupply, verified, source⟩ =>
    [⟨projectId, minted, maxSupply, input.now, source, verified⟩]
  | _ => []

/-- The lifecycle of a project is stored. -/
def Project.scheduled (schedule : LifecycleStatus × Option ℤ) (p : Project) : Project :=
  { p with lifecycleStatus := schedule.1, nextStageStart := schedule.2 }

theorem resolve_eq_some {db : ProjectDb} {input : ProjectUpsert} {p : Project}
    (h : resolve db input = some p) : p ∈ db.projects ∧
      ((p.chainId = input.chainId ∧
          ∃ address ∈ input.contractAddress, p.contractAddress = some (Text.lower address)) ∨
        ∃ a ∈ db.aliases, a.key = (input.providerKind, input.externalId) ∧
          a.projectId = p.id) := by
  rcases Option.or_eq_some_iff.mp h with hcontract | ⟨-, halias⟩
  · obtain ⟨address, haddress, hfind⟩ := Option.bind_eq_some_iff.mp hcontract
    have hp := List.find?_some hfind
    obtain ⟨hchain, hp⟩ := of_decide_eq_true hp
    exact ⟨List.mem_of_find?_eq_some hfind, Or.inl ⟨hchain, address, haddress, hp⟩⟩
  · obtain ⟨a, ha, hp⟩ := Option.bind_eq_some_iff.mp halias
    obtain ⟨ha, hkey⟩ := Table.get?_eq_some.mp ha
    obtain ⟨hp, hid⟩ := Table.get?_eq_some.mp hp
    exact ⟨hp, Or.inr ⟨a, ha, hkey, hid.symm⟩⟩

/-- The project that an upsert writes: a known one with what is reported of it, or a new one,
with the identifier the database draws for it. -/
def ProjectUpsert.target (input : ProjectUpsert) (db : ProjectDb) (newId : String) : Project :=
  (resolve db input).elim (input.project newId) (Project.absorb db input)

theorem target_of_some {db : ProjectDb} {newId : String} {input : ProjectUpsert} {p : Project}
    (h : resolve db input = some p) : input.target db newId = p.absorb db input := by
  rw [ProjectUpsert.target, h]
  rfl

theorem target_of_none {db : ProjectDb} {newId : String} {input : ProjectUpsert}
    (h : resolve db input = none) : input.target db newId = input.project newId := by
  rw [ProjectUpsert.target, h]
  rfl

/-- What is reported of a project does not collide with another one, unless it brings an address
that another one has. -/
theorem absorb_unique {db : ProjectDb} {input : ProjectUpsert} {p : Project} (hunique : p.Unique db)
    (haddress : p.contractAddress = none → ∀ address ∈ input.contractAddress,
      ∀ p' ∈ db.projects, p'.contractAddress ≠ some (Text.lower address)) :
    (p.absorb db input).Unique db := by
  refine fun p' hp' hne => ⟨?_, ?_⟩
  · cases hcontract : p.contractAddress with
    | none =>
      rintro ⟨hsome, -, hsame⟩
      rw [Project.absorb, hcontract] at hsome hsame
      obtain ⟨address, haddr⟩ := Option.ne_none_iff_exists'.mp hsome
      obtain ⟨address', hinput, rfl⟩ := Option.map_eq_some_iff.mp haddr
      exact haddress hcontract address' hinput p' hp' (hsame.trans haddr)
    | some contract =>
      have hkept : (p.absorb db input).contractAddress = p.contractAddress := by
        rw [Project.absorb, hcontract]
        rfl
      rw [hkept]
      exact (hunique p' hp' hne).1
  · -- a slug that another project has is not taken over
    rw [Project.absorb]
    dsimp only
    split
    · exact (hunique p' hp' hne).2
    · next hfree =>
      rintro ⟨hsome, hsame⟩
      cases hslug : input.slug with
      | none =>
        rw [hslug] at hsome hsame
        exact (hunique p' hp' hne).2 ⟨hsome, hsame⟩
      | some slug =>
        rw [hslug] at hsame
        exact hfree ⟨p', hp', hsame.trans hslug.symm, hne⟩

/-- The alias an upsert writes. -/
def ProjectUpsert.alias (input : ProjectUpsert) (db : ProjectDb) (projectId : String) :
    ProjectAlias :=
  ⟨projectId, input.providerKind, input.externalId,
    ((db.aliases.get? (input.providerKind, input.externalId)).map ProjectAlias.firstSeenAt).getD
      input.now, input.now⟩

/-- The tables once the reported stages are stored: the alias, the rows that are superseded, the
snapshot, and the lifecycle of what results. -/
def ProjectUpsert.commit (input : ProjectUpsert) (db : ProjectDb) (project : Project)
    (stages : Table DropStage (String × String) DropStage.key) : ProjectDb :=
  let stages := pauseSuperseded input project.id stages
  let snapshots := input.snapshots project.id ++ db.snapshots
  let schedule := scheduleOf stages.rows snapshots project.id input.now
  ⟨db.projects.upsert (project.scheduled schedule),
    db.aliases.upsert (input.alias db project.id), stages, snapshots⟩

/-- What an upsert reports of itself. -/
def ProjectUpsert.result (input : ProjectUpsert) (db : ProjectDb) (projectId : String) :
    UpsertResult where
  projectId := projectId
  created := (resolve db input).isNone
  contractConflict := (resolve db input).elim false fun p =>
    p.contractAddress ≠ none ∧ input.contractAddress ≠ none ∧
      p.contractAddress ≠ input.contractAddress.map Text.lower

/-- `upsertProjectFromSource`; `newId` is the identifier the database draws for a new project. -/
def upsertProjectFromSource (db : ProjectDb) (newId : String) (input : ProjectUpsert) :
    Option (UpsertResult × ProjectDb) :=
  let project := input.target db newId
  if project.Unique db ∧ (resolve db input = none → db.projects.get? newId = none) then do
    let stages ← input.stages.foldlM (upsertStage project.id input.now) db.stages
    return (input.result db project.id, input.commit db project stages)
  else none

/-- What an upsert that does not throw has done. -/
theorem upsertProjectFromSource_eq_some {db db' : ProjectDb} {newId : String}
    {input : ProjectUpsert} {r : UpsertResult}
    (h : upsertProjectFromSource db newId input = some (r, db')) :
    (input.target db newId).Unique db ∧ (resolve db input = none → db.projects.get? newId = none) ∧
      ∃ stages, input.stages.foldlM (upsertStage (input.target db newId).id input.now) db.stages =
          some stages ∧
        r = input.result db (input.target db newId).id ∧
        db' = input.commit db (input.target db newId) stages := by
  rw [upsertProjectFromSource] at h
  split at h
  · next hok =>
    obtain ⟨stages, hstages, h⟩ := Option.bind_eq_some_iff.mp h
    obtain ⟨rfl, rfl⟩ := Prod.mk.inj (Option.some_inj.mp h)
    exact ⟨hok.1, hok.2, stages, hstages, rfl, rfl⟩
  · exact absurd h.symm (Option.some_ne_none _)

/-! ### The other writers -/

/-- What `recomputeLifecycles` selects of a project. -/
structure ProjectState where
  live : Bool
  nextStart : Option ℤ
  hasStages : Bool
  soldOut : Bool

/-- The common table expression of `recomputeLifecycles`. -/
def projectState (db : ProjectDb) (now : ℤ) (projectId : String) : ProjectState where
  live := ∃ s ∈ db.stages, s.projectId = projectId ∧ s.paused = false ∧ s.startsAt ≤ now ∧
    (s.endsAt = none ∨ ∃ endsAt ∈ s.endsAt, endsAt > now)
  nextStart := ((db.stages.rows.filter fun s =>
    s.projectId = projectId ∧ s.paused = false ∧ s.startsAt > now).map DropStage.startsAt).min?
  hasStages := ∃ s ∈ db.stages, s.projectId = projectId
  soldOut := (latestSupplyFor db.snapshots projectId).elim false fun ss =>
    ss.verified && ss.maxSupply.elim false fun maxSupply => ss.minted ≥ maxSupply

/-- The `case` of `recomputeLifecycles`. -/
def ProjectState.status (st : ProjectState) (current : LifecycleStatus) : LifecycleStatus :=
  if st.soldOut then .soldOut
  else if st.live then .live
  else if st.nextStart ≠ none then .next
  else if st.hasStages then .ended
  else current

/-- `recomputeLifecycles`. -/
def recomputeLifecycles (db : ProjectDb) (now : ℤ) : ProjectDb :=
  { db with
    projects := db.projects.update
      (fun p => p.lifecycleStatus ∈ [.live, .next, .soldOut, .paused] ∧
        (p.lifecycleStatus ≠ (projectState db now p.id).status p.lifecycleStatus ∨
          p.nextStageStart ≠ (projectState db now p.id).nextStart))
      (fun p => { p with
        lifecycleStatus := (projectState db now p.id).status p.lifecycleStatus
        nextStageStart := (projectState db now p.id).nextStart
        lastSeenAt := now }) fun _ => rfl }

/-- `recordChainSupply`. -/
def recordChainSupply (db : ProjectDb) (projectId : String) (minted : ℤ) (maxSupply : Option ℤ)
    (now : ℤ) : ProjectDb :=
  { db with
    snapshots := ⟨projectId, minted, maxSupply, now, "chain:erc721", maxSupply.isSome⟩ ::
      db.snapshots }

/-- `markProjectDelisted`. -/
def markProjectDelisted (db : ProjectDb) (projectId : String) (now : ℤ) : ProjectDb :=
  { db with
    stages := db.stages.update (fun s => s.projectId = projectId ∧ s.startsAt > now)
      (fun s => { s with paused := true }) fun _ => rfl
    projects := db.projects.update (fun p => p.id = projectId)
      (fun p => { p with lifecycleStatus := .ended, nextStageStart := none, lastSeenAt := now })
      fun _ => rfl }

/-- The 404 branch of `runDetailRefresh`: a known project with a schedule is delisted. -/
def detailNotFound (db : ProjectDb) (slug : String) (now : ℤ) : Option ProjectDb := do
  let known ← db.projects.rows.find? fun p => p.slug = some slug
  if (∃ s ∈ db.stages, s.projectId = known.id) ∧ known.lifecycleStatus ≠ .ended then
    some (markProjectDelisted db known.id now)
  else none

end Projects
