/-
The chain a drop is stored on.

* `DropPayload` — what the provider sends, with the route it comes in by; `DropPayload.named` —
  the chain that it names, when its route lets it in; `DropPayload.draft` — what the route makes
  of it;
* `listDrops` — the rows of the feed that pass its chain filter;
* `IngestOp` — what writes to the projects, and `Reachable` the tables that result;
* `ProjectDb.AliasesOn` — every alias is of a project on the configured chain, in every run;
* `keepsChain_iff` — a payload is stored on the chain it names, and fired on it, exactly when its
  route refuses it or that chain is the configured one.
-/
import HoodMint.Delisting
import HoodMint.FireChain

namespace Projects

open Relational

/-! ### Routes -/

/-- A page of the drops listing; `refetched` is one that was answered 400 and asked for again
without the chain filter. -/
structure DropsPage where
  rows : List DropRow
  refetched : Bool
deriving DecidableEq

/-- `listDrops` with `localChainFilter`: once a page was asked for without the filter, the others
are taken as the endpoint has filtered them. -/
def listDrops (chainSlug : String) (pages : List DropsPage) : List DropRow :=
  let rows := pages.flatMap fun page =>
    if page.refetched then page.rows.filter fun row => matchesChain row.chain chainSlug
    else page.rows
  if pages.any DropsPage.refetched then rows
  else rows.filter fun row => matchesChain row.chain chainSlug

/-- What the provider sends, by its route: a row of a drop feed, a row of the collection sweep,
and the answer of the drop endpoint, for a slug that an operator tracks or for a refresh. -/
inductive DropPayload
  | feed (feedType : String) (pages : List DropsPage) (row : DropRow)
  | collection (row : CollectionRow)
  | tracked (row : DropRow)
  | refreshed (row : DropRow)
deriving DecidableEq

namespace DropPayload

/-- The chain that a payload names, when its route lets it in. -/
def named (chainSlug : String) : DropPayload → Option String
  | feed _ pages row => if row ∈ listDrops chainSlug pages then some row.chain else none
  | collection row =>
    (row.contracts.find? fun c => matchesChain c.chain chainSlug).map CollectionContract.chain
  | tracked row => some row.chain
  | refreshed row => some row.chain

/-- `runDetailRefresh` on an answer. -/
def detailDraft (chainId : ℕ) (now : ℤ) (row : DropRow) : ProjectUpsert :=
  normalizeDropDetail row ⟨chainId, now, none⟩

/-- The draft of a payload, on the configured chain. -/
def draft (chainId : ℕ) (chainSlug : String) (now : ℤ) : DropPayload → Option ProjectUpsert
  | feed feedType pages row =>
    if row ∈ listDrops chainSlug pages then
      some (normalizeDropRow row ⟨chainId, now, some feedType⟩)
    else none
  | collection row =>
    (parseCollectionRow chainSlug row).map fun row =>
      normalizeCollectionRow row ⟨chainId, now, none⟩
  | tracked row => some (detailDraft chainId now row)
  | refreshed row => some (detailDraft chainId now row)

end DropPayload

/-! ### Runs -/

/-- `ensureContractProject`: the radar's project for a contract on any chain. -/
def ensureContractProject (db : ProjectDb) (newId : String) (chainId : ℕ)
    (contractAddress name : String) (now : ℤ) : ProjectDb :=
  if ∃ p ∈ db.projects, p.chainId = chainId ∧
      p.contractAddress = some (Text.lower contractAddress) then db
  else { db with
    projects := db.projects.insert ⟨newId, chainId, some (Text.lower contractAddress), name, none,
      none, .singleSource, .unknown, none, now, now⟩ }

/-- What writes to the projects. -/
inductive IngestOp
  | ingest (payload : DropPayload) (newId : String) (now : ℤ)
  | supply (projectId : String) (minted : ℤ) (maxSupply : Option ℤ) (now : ℤ)
  | recompute (now : ℤ)
  | notFound (slug : String) (now : ℤ)
  | contract (newId : String) (chainId : ℕ) (contractAddress name : String) (now : ℤ)

/-- One operation of a deployment on the chain `chainId`; an upsert that throws is skipped. -/
def IngestOp.exec (chainId : ℕ) (chainSlug : String) (db : ProjectDb) : IngestOp → ProjectDb
  | .ingest payload newId now =>
    ((payload.draft chainId chainSlug now).bind fun draft =>
      (upsertProjectFromSource db newId draft).map Prod.snd).getD db
  | .supply projectId minted maxSupply now => recordChainSupply db projectId minted maxSupply now
  | .recompute now => recomputeLifecycles db now
  | .notFound slug now => (detailNotFound db slug now).getD db
  | .contract newId chainId contractAddress name now =>
    ensureContractProject db newId chainId contractAddress name now

/-- The tables after some run. -/
def Reachable (chainId : ℕ) (chainSlug : String) (db : ProjectDb) : Prop :=
  ∃ ops : List IngestOp, ops.foldl (IngestOp.exec chainId chainSlug) ProjectDb.empty = db

/-! ### The property -/

/-- Wherever the payload is stored, the project carries the chain that it names, and passes over
its plans sign for that chain and send on it.  `chainIdOf` gives the chain of a name. -/
def KeepsChain (chainIdOf : String → Option ℕ) (config : MintWorker.Config) (chainSlug : String)
    (payload : DropPayload) : Prop :=
  ∀ db, Reachable config.robinhoodChainId chainSlug db → ∀ newId now draft r db',
    payload.draft config.robinhoodChainId chainSlug now = some draft →
    upsertProjectFromSource db newId draft = some (r, db') →
    ∃ p ∈ db'.projects, p.id = r.projectId ∧ ∃ chain ∈ payload.named chainSlug,
      ∃ c, chainIdOf chain = some c ∧ p.chainId = c ∧ MintWorker.FiresOn config p.chainId c

/-! ### Every alias is of a project on the chain -/

section

variable {db db' : ProjectDb} {chainId : ℕ} {chainSlug newId : String} {input : ProjectUpsert}
  {r : UpsertResult} {now : ℤ}

/-- Every alias is of a project on the chain. -/
def ProjectDb.AliasesOn (db : ProjectDb) (chainId : ℕ) : Prop :=
  ∀ a ∈ db.aliases, ∃ p ∈ db.projects, p.id = a.projectId ∧ p.chainId = chainId

theorem chainId_target (h : db.AliasesOn input.chainId) (newId : String) :
    (input.target db newId).chainId = input.chainId := by
  cases hresolve : resolve db input with
  | none =>
    rw [target_of_none hresolve]
    rfl
  | some p =>
    rw [target_of_some hresolve]
    obtain ⟨hp, ⟨hchain, -⟩ | ⟨a, ha, -, hid⟩⟩ := resolve_eq_some hresolve
    · exact hchain
    · obtain ⟨p', hp', hid', hchain⟩ := h a ha
      obtain rfl := Table.eq_of_key hp hp' (hid.symm.trans hid'.symm)
      exact hchain

/-- An upsert on the chain stores its project on the chain. -/
theorem upsert_chainId (h : db.AliasesOn input.chainId)
    (hup : upsertProjectFromSource db newId input = some (r, db')) :
    db'.AliasesOn input.chainId ∧
      ∃ p ∈ db'.projects, p.id = r.projectId ∧ p.chainId = input.chainId := by
  obtain ⟨-, -, stages, -, rfl, rfl⟩ := upsertProjectFromSource_eq_some hup
  have hchain := chainId_target h newId
  generalize input.target db newId = p at hchain
  have hstored : ∃ p' ∈ (input.commit db p stages).projects, p'.id = p.id ∧
      p'.chainId = input.chainId := ⟨_, Table.mem_upsert.mpr (Or.inl rfl), rfl, hchain⟩
  refine ⟨fun a ha => ?_, hstored⟩
  rcases Table.mem_upsert.mp ha with rfl | ⟨ha, -⟩
  · exact hstored
  · obtain ⟨p', hp', hid, hchain'⟩ := h a ha
    by_cases hsame : p'.id = p.id
    · obtain ⟨p₁, hp₁, hid₁, hchain₁⟩ := hstored
      exact ⟨p₁, hp₁, hid₁.trans (hsame.symm.trans hid), hchain₁⟩
    · exact ⟨p', Table.mem_upsert.mpr (Or.inr ⟨hp', hsame⟩), hid, hchain'⟩

theorem chainId_draft {payload : DropPayload}
    (h : payload.draft chainId chainSlug now = some input) : input.chainId = chainId := by
  cases payload with
  | feed feedType pages row =>
    rw [DropPayload.draft] at h
    split at h
    · rw [← Option.some_inj.mp h]
      rfl
    · exact absurd h.symm (Option.some_ne_none input)
  | collection row =>
    obtain ⟨row, -, rfl⟩ := Option.map_eq_some_iff.mp h
    rfl
  | tracked row =>
    rw [← Option.some_inj.mp h]
    rfl
  | refreshed row =>
    rw [← Option.some_inj.mp h]
    rfl

/-- Statements that keep the identifiers and the chains of the projects. -/
theorem ProjectDb.AliasesOn.of_kept (h : db.AliasesOn chainId) (haliases : db'.aliases = db.aliases)
    (hkept : ∀ p ∈ db.projects, ∃ p' ∈ db'.projects, p'.id = p.id ∧ p'.chainId = p.chainId) :
    db'.AliasesOn chainId := by
  intro a ha
  rw [haliases] at ha
  obtain ⟨p, hp, hid, hchain⟩ := h a ha
  obtain ⟨p', hp', hid', hchain'⟩ := hkept p hp
  exact ⟨p', hp', hid'.trans hid, hchain'.trans hchain⟩

theorem ProjectDb.AliasesOn.exec (h : db.AliasesOn chainId) (op : IngestOp) :
    (op.exec chainId chainSlug db).AliasesOn chainId := by
  cases op with
  | ingest payload newId now =>
    rw [IngestOp.exec]
    cases hup : (payload.draft chainId chainSlug now).bind fun draft =>
        (upsertProjectFromSource db newId draft).map Prod.snd with
    | none => exact h
    | some db' =>
      obtain ⟨draft, hdraft, hup⟩ := Option.bind_eq_some_iff.mp hup
      obtain ⟨stored, hstored, rfl⟩ := Option.map_eq_some_iff.mp hup
      obtain rfl := chainId_draft hdraft
      exact (upsert_chainId h hstored).1
  | supply _ _ _ _ => exact h
  | recompute now =>
    refine h.of_kept rfl fun p hp => ⟨_, List.mem_map_of_mem hp, ?_⟩
    split
    · exact ⟨rfl, rfl⟩
    · exact ⟨rfl, rfl⟩
  | notFound slug now =>
    rw [IngestOp.exec]
    cases hfound : detailNotFound db slug now with
    | none => exact h
    | some db' =>
      obtain ⟨known, -, hfound⟩ := Option.bind_eq_some_iff.mp hfound
      split at hfound
      · rw [Option.getD_some, ← Option.some_inj.mp hfound]
        refine h.of_kept rfl fun p hp => ⟨_, List.mem_map_of_mem hp, ?_⟩
        split
        · exact ⟨rfl, rfl⟩
        · exact ⟨rfl, rfl⟩
      · exact absurd hfound.symm (Option.some_ne_none db')
  | contract newId _ _ _ _ =>
    rw [IngestOp.exec, ensureContractProject]
    split
    · exact h
    · exact h.of_kept rfl fun p hp => ⟨p, Table.mem_insert_of_mem hp, rfl, rfl⟩

/-- **In every run** every alias is of a project on the configured chain. -/
theorem aliasesOn_of_reachable (h : Reachable chainId chainSlug db) : db.AliasesOn chainId := by
  obtain ⟨ops, rfl⟩ := h
  have hempty : ProjectDb.empty.AliasesOn chainId := fun a ha => absurd ha Table.not_mem_empty
  generalize ProjectDb.empty = start at hempty
  induction ops generalizing start with
  | nil => exact hempty
  | cons op ops ih => exact ih _ (hempty.exec op)

/-! ### A new deployment stores every draft -/

/-- A stage in canonical spelling is always stored. -/
theorem upsertStage_isSome {projectId : String} {stage : StageUpsert}
    (stages : Table DropStage (String × String) DropStage.key)
    (h : canonicalStageId stage.providerStageId = stage.providerStageId) :
    ∃ stages', upsertStage projectId now stages stage = some stages' := by
  rw [upsertStage]
  cases hcurrent : currentStage? stages projectId stage with
  | some current => exact ⟨_, rfl⟩
  | none =>
    have hnew : stages.get? (projectId, stage.providerStageId) = none := by
      refine Table.get?_eq_none.mpr fun s hs hkey => ?_
      obtain ⟨hid, hstage⟩ := Prod.mk.inj hkey
      obtain ⟨hexact, -⟩ := Option.or_eq_none_iff.mp hcurrent
      refine List.find?_eq_none.mp hexact s (List.mem_filter.mpr ⟨hs, ?_⟩) (decide_eq_true hstage)
      exact decide_eq_true ⟨hid, (congrArg canonicalStageId hstage).trans h⟩
    exact ⟨_, if_pos hnew⟩

theorem foldlM_upsertStage {projectId : String} {reported : List StageUpsert}
    (h : ∀ stage ∈ reported, canonicalStageId stage.providerStageId = stage.providerStageId)
    (stages : Table DropStage (String × String) DropStage.key) :
    ∃ stages', reported.foldlM (upsertStage projectId now) stages = some stages' := by
  induction reported generalizing stages with
  | nil => exact ⟨stages, rfl⟩
  | cons stage rest ih =>
    obtain ⟨stages₁, hfirst⟩ : ∃ stages₁, upsertStage projectId now stages stage = some stages₁ :=
      upsertStage_isSome stages (h stage List.mem_cons_self)
    obtain ⟨stages₂, hrest⟩ := ih (fun s hs => h s (List.mem_cons_of_mem stage hs)) stages₁
    exact ⟨stages₂, by rw [List.foldlM_cons, hfirst]; exact hrest⟩

theorem mem_mergeStage {merged reported : List StageUpsert} {stage : StageUpsert}
    (h : stage ∈ reported.foldl mergeStage merged) : stage ∈ merged ∨ stage ∈ reported := by
  induction reported generalizing merged with
  | nil => exact Or.inl h
  | cons extra rest ih =>
    rcases ih h with hmerged | hrest
    · rw [mergeStage] at hmerged
      split at hmerged
      · exact Or.inl hmerged
      · rcases List.mem_append.mp hmerged with hmerged | hextra
        · exact Or.inl hmerged
        · exact Or.inr (List.mem_singleton.mp hextra ▸ List.mem_cons_self)
    · exact Or.inr (List.mem_cons_of_mem extra hrest)

/-- The stages of a draft are in canonical spelling. -/
theorem canonical_draft {payload : DropPayload}
    (h : payload.draft chainId chainSlug now = some input) :
    ∀ stage ∈ input.stages, canonicalStageId stage.providerStageId = stage.providerStageId := by
  have hreported : ∀ (raws : List StagePayload), ∀ stage ∈ raws.map toStageUpsert,
      canonicalStageId stage.providerStageId = stage.providerStageId := by
    intro raws stage hstage
    obtain ⟨raw, -, rfl⟩ := List.mem_map.mp hstage
    exact canonicalStageId_normalizeStageId raw.uuid
  have hdetail : ∀ row, ∀ stage ∈ (DropPayload.detailDraft chainId now row).stages,
      canonicalStageId stage.providerStageId = stage.providerStageId := by
    intro row stage hstage
    rcases mem_mergeStage hstage with hstage | hstage
    · exact hreported _ stage hstage
    · exact hreported _ stage hstage
  cases payload with
  | feed feedType pages row =>
    rw [DropPayload.draft] at h
    split at h
    · rw [← Option.some_inj.mp h]
      exact hreported _
    · exact absurd h.symm (Option.some_ne_none input)
  | collection row =>
    obtain ⟨row, -, rfl⟩ := Option.map_eq_some_iff.mp h
    intro stage hstage
    exact absurd hstage List.not_mem_nil
  | tracked row =>
    rw [← Option.some_inj.mp h]
    exact hdetail row
  | refreshed row =>
    rw [← Option.some_inj.mp h]
    exact hdetail row

/-- A new deployment stores every draft. -/
theorem empty_stores {payload : DropPayload}
    (h : payload.draft chainId chainSlug now = some input) (newId : String) :
    ∃ r db', upsertProjectFromSource ProjectDb.empty newId input = some (r, db') := by
  obtain ⟨stages, hstages⟩ : ∃ stages, input.stages.foldlM
      (upsertStage (input.target ProjectDb.empty newId).id input.now) ProjectDb.empty.stages =
        some stages :=
    foldlM_upsertStage (canonical_draft h) ProjectDb.empty.stages
  have hfree : (input.target ProjectDb.empty newId).Unique ProjectDb.empty :=
    fun p hp => absurd hp Table.not_mem_empty
  have hnew : resolve ProjectDb.empty input = none →
      ProjectDb.empty.projects.get? newId = none := fun _ => rfl
  have hup : upsertProjectFromSource ProjectDb.empty newId input =
      some (input.result ProjectDb.empty (input.target ProjectDb.empty newId).id,
        input.commit ProjectDb.empty (input.target ProjectDb.empty newId) stages) := by
    rw [upsertProjectFromSource, if_pos ⟨hfree, hnew⟩, hstages]
    rfl
  exact ⟨_, _, hup⟩

/-- A payload names a chain exactly when its route makes a draft of it. -/
theorem draft_of_named {payload : DropPayload} {chain : String} (chainId : ℕ) (now : ℤ)
    (h : chain ∈ payload.named chainSlug) :
    ∃ draft, payload.draft chainId chainSlug now = some draft := by
  cases payload with
  | feed feedType pages row =>
    rw [DropPayload.named, Option.mem_def] at h
    split at h
    · next hrow => exact ⟨_, if_pos hrow⟩
    · exact absurd h.symm (Option.some_ne_none chain)
  | collection row =>
    obtain ⟨c, hc, -⟩ := Option.map_eq_some_iff.mp h
    have hparsed : parseCollectionRow chainSlug row = some ⟨row.collection,
        row.name.getD row.collection, row.imageUrl, c.address, row.createdDate⟩ :=
      Option.map_eq_some_iff.mpr ⟨c, hc, rfl⟩
    exact ⟨_, Option.map_eq_some_iff.mpr ⟨_, hparsed, rfl⟩⟩
  | tracked row => exact ⟨_, rfl⟩
  | refreshed row => exact ⟨_, rfl⟩

theorem named_of_draft {payload : DropPayload}
    (h : payload.draft chainId chainSlug now = some input) :
    ∃ chain, chain ∈ payload.named chainSlug := by
  cases payload with
  | feed feedType pages row =>
    rw [DropPayload.draft] at h
    split at h
    · next hrow => exact ⟨_, if_pos hrow⟩
    · exact absurd h.symm (Option.some_ne_none input)
  | collection row =>
    obtain ⟨parsed, hparsed, -⟩ := Option.map_eq_some_iff.mp h
    obtain ⟨c, hc, -⟩ := Option.map_eq_some_iff.mp hparsed
    exact ⟨_, Option.map_eq_some_iff.mpr ⟨c, hc, rfl⟩⟩
  | tracked row => exact ⟨_, rfl⟩
  | refreshed row => exact ⟨_, rfl⟩

end

/-- What a new deployment stores already tells on a payload. -/
theorem named_of_keepsChain {chainIdOf : String → Option ℕ} {config : MintWorker.Config}
    {chainSlug chain : String} {payload : DropPayload}
    (hkeeps : KeepsChain chainIdOf config chainSlug payload)
    (hchain : chain ∈ payload.named chainSlug) :
    chainIdOf chain = some config.robinhoodChainId := by
  obtain ⟨draft, hdraft⟩ := draft_of_named config.robinhoodChainId 0 hchain
  obtain ⟨r, db', hup⟩ := empty_stores hdraft ""
  have hempty : ProjectDb.empty.AliasesOn draft.chainId :=
    fun a ha => absurd ha Table.not_mem_empty
  obtain ⟨-, p₀, hp₀, hid₀, hchain₀⟩ := upsert_chainId hempty hup
  obtain ⟨p, hp, hid, chain', hchain', c, hc, hpchain, -⟩ :=
    hkeeps ProjectDb.empty ⟨[], rfl⟩ "" 0 draft r db' hdraft hup
  obtain rfl := Table.eq_of_key hp hp₀ (hid.trans hid₀.symm)
  obtain rfl : chain = chain' := Option.some_inj.mp (hchain.symm.trans hchain')
  rw [hc, ← hpchain, hchain₀, chainId_draft hdraft]

/-- **Exactly when a drop is not stored on another chain.**  A payload that is let in keeps its
chain, in the tables and in every transaction of every pass, if and only if the chain it names is
the configured one; only the listings refuse a payload by its chain. -/
theorem keepsChain_iff (chainIdOf : String → Option ℕ) (config : MintWorker.Config)
    (chainSlug : String) (payload : DropPayload) :
    KeepsChain chainIdOf config chainSlug payload ↔
      ∀ chain ∈ payload.named chainSlug, chainIdOf chain = some config.robinhoodChainId := by
  refine ⟨fun hkeeps chain hchain => named_of_keepsChain hkeeps hchain, ?_⟩
  intro hnamed db hdb newId now draft r db' hdraft hup
  obtain ⟨chain, hchain⟩ := named_of_draft hdraft
  have hdraftChain := chainId_draft hdraft
  have haliases := aliasesOn_of_reachable hdb
  rw [← hdraftChain] at haliases
  obtain ⟨-, p, hp, hid, hpchain⟩ := upsert_chainId haliases hup
  have hon : p.chainId = config.robinhoodChainId := hpchain.trans hdraftChain
  refine ⟨p, hp, hid, chain, hchain, config.robinhoodChainId, hnamed chain hchain, hon, ?_⟩
  rw [hon]
  exact MintWorker.firesOn rfl

/-- A drop on Base, with a public stage from 0 on. -/
def baseDrop : DropRow :=
  ⟨"base", "drop", some "0xC0", some "Drop", none,
    some ⟨"a", "public_sale", 0, none, none, some "0", none, none, none⟩, none, none⟩

/-- Two names of chains. -/
def chainIdOf : String → Option ℕ
  | "robinhood" => some 4663
  | "base" => some 8453
  | _ => none

/-- A deployment on Robinhood Chain whose operator tracks the slug of a drop on Base stores it on
Robinhood Chain. -/
theorem not_keepsChain_tracked :
    ¬ KeepsChain chainIdOf MintWorker.Sample.config "robinhood" (.tracked baseDrop) := by
  intro hkeeps
  have hbase : chainIdOf "base" = some 4663 := named_of_keepsChain hkeeps rfl
  exact absurd (Option.some_inj.mp hbase) (by decide)

end Projects
