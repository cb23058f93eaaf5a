/-
Stages as they are reported and as they are stored.

A reported stage is matched to a stored row by its canonical id, and the row is written only when
one of a list of fields differs.

* `StageUpsert.settle` — the row that a reported stage becomes;
* `foldlM_upsertStage_settles` — after a list of stages with distinct canonical ids, each of them
  has become its row, whatever came before and after it;
* `foldlM_upsertStage_settled` — a list of stages that have become their rows changes nothing;
* `resolve_commit` — an upsert finds again the project it wrote;
* `stagesFaithful_iff` — the currency is not on the list: stages are stored as reported exactly
  when none differs from its row in the currency alone.
-/
import HoodMint.Delisting

namespace Projects

open Relational

abbrev StageTable := Table DropStage (String × String) DropStage.key

/-! ### The row of a reported stage -/

section

variable {stages stages' : StageTable} {projectId id : String} {now : ℤ} {stage : StageUpsert}
  {current : DropStage}

/-- The rows of a stage, in any spelling. -/
def spellings (stages : StageTable) (projectId id : String) : List DropStage :=
  stages.rows.filter fun s => s.projectId = projectId ∧ canonicalStageId s.providerStageId = id

theorem mem_spellings : current ∈ spellings stages projectId id ↔
    current ∈ stages ∧ current.projectId = projectId ∧
      canonicalStageId current.providerStageId = id := by
  rw [spellings, List.mem_filter, decide_eq_true_iff]
  exact Iff.rfl

/-- The row of a stage depends on its spellings alone. -/
theorem currentStage?_congr
    (h : spellings stages' projectId stage.providerStageId =
      spellings stages projectId stage.providerStageId) :
    currentStage? stages' projectId stage = currentStage? stages projectId stage := by
  show ((spellings stages' _ _).find? _).or ((spellings stages' _ _).insertionSort _).head? =
    ((spellings stages _ _).find? _).or ((spellings stages _ _).insertionSort _).head?
  rw [h]

theorem currentStage?_mem (h : currentStage? stages projectId stage = some current) :
    current ∈ stages ∧ current.projectId = projectId ∧
      canonicalStageId current.providerStageId = stage.providerStageId := by
  refine mem_spellings.mp ?_
  rcases Option.or_eq_some_iff.mp h with hexact | ⟨-, hfreshest⟩
  · exact List.mem_of_find?_eq_some hexact
  · exact (List.perm_insertionSort _ _).mem_iff.mp (List.mem_of_head? hfreshest)

/-- A row in the reported spelling is the row of the stage. -/
theorem currentStage?_of_mem (hcurrent : current ∈ stages)
    (hkey : current.key = (projectId, stage.providerStageId))
    (hcanonical : canonicalStageId stage.providerStageId = stage.providerStageId) :
    currentStage? stages projectId stage = some current := by
  obtain ⟨hid, hstage⟩ := Prod.mk.inj hkey
  have hmem : current ∈ spellings stages projectId stage.providerStageId :=
    mem_spellings.mpr ⟨hcurrent, hid, (congrArg canonicalStageId hstage).trans hcanonical⟩
  refine Option.or_eq_some_iff.mpr (Or.inl ?_)
  cases hfind : (spellings stages projectId stage.providerStageId).find? fun s =>
      s.providerStageId = stage.providerStageId with
  | none => exact absurd (decide_eq_true hstage) (List.find?_eq_none.mp hfind current hmem)
  | some found =>
    have hfound := List.find?_some hfind
    obtain ⟨hmem', hid', -⟩ := mem_spellings.mp (List.mem_of_find?_eq_some hfind)
    have hsame : found.key = current.key :=
      Prod.ext (hid'.trans hid.symm) ((of_decide_eq_true hfound).trans hstage.symm)
    exact hfind.trans (congrArg some (Table.eq_of_key hmem' hcurrent hsame))

/-- The row that a reported stage becomes. -/
def StageUpsert.settle (stage : StageUpsert) (projectId : String) (now : ℤ) :
    Option DropStage → DropStage
  | none => stage.row projectId 1 now
  | some current =>
    if MaterialChange stage current then stage.row projectId (current.version + 1) now
    else { current with providerStageId := stage.providerStageId }

theorem key_settle (stages : StageTable) (projectId : String) (now : ℤ) (stage : StageUpsert) :
    (stage.settle projectId now (currentStage? stages projectId stage)).key =
      (projectId, stage.providerStageId) := by
  cases hcurrent : currentStage? stages projectId stage with
  | none => rfl
  | some current =>
    rw [StageUpsert.settle]
    split
    · rfl
    · exact Prod.ext (currentStage?_mem hcurrent).2.1 rfl

/-- **One reported stage** becomes its row; the rows of the other stages stay. -/
theorem upsertStage_spec (h : upsertStage projectId now stages stage = some stages')
    (hcanonical : canonicalStageId stage.providerStageId = stage.providerStageId) :
    stage.settle projectId now (currentStage? stages projectId stage) ∈ stages' ∧
      ∀ id, id ≠ stage.providerStageId →
        spellings stages' projectId id = spellings stages projectId id := by
  have hkey := key_settle stages projectId now stage
  rw [upsertStage] at h
  cases hcurrent : currentStage? stages projectId stage with
  | none =>
    rw [hcurrent] at h hkey
    dsimp only at h
    split at h
    · next hfree =>
      obtain rfl := Option.some_inj.mp h
      -- no row of the stage: one is inserted under its own key
      have hnew : (stage.row projectId 1 now).key ∉ stages.rows.map DropStage.key := by
        intro hmem
        obtain ⟨s, hs, hsame⟩ := List.mem_map.mp hmem
        exact Table.get?_eq_none.mp hfree s hs hsame
      refine ⟨Table.mem_insert.mpr (Or.inr ⟨rfl, Table.get?_eq_none.mp hfree⟩), ?_⟩
      intro id hne
      rw [spellings, Table.insert, dif_neg hnew]
      refine List.filter_cons_of_neg fun hmatch => ?_
      exact hne ((of_decide_eq_true hmatch).2.symm.trans hcanonical)
    · exact absurd h.symm (Option.some_ne_none stages')
  | some current =>
    rw [hcurrent] at h hkey
    obtain ⟨-, hid, hspelling⟩ := currentStage?_mem hcurrent
    obtain rfl := Option.some_inj.mp h
    refine ⟨Table.mem_upsert.mpr (Or.inl rfl), fun id hne => ?_⟩
    show (_ :: ((stages.rows.filter _).filter _)).filter _ = stages.rows.filter _
    rw [List.filter_cons_of_neg, List.filter_filter, List.filter_filter]
    · refine List.filter_congr fun s _ => ?_
      by_cases hs : s.projectId = projectId ∧ canonicalStageId s.providerStageId = id
      · -- a row of another stage has another key than both rows
        have hother : ∀ key, canonicalStageId key = stage.providerStageId →
            s.key ≠ (projectId, key) := by
          intro key hkey hsame
          have hspelled : s.providerStageId = key := (Prod.mk.inj hsame).2
          exact hne (hs.2.symm.trans ((congrArg canonicalStageId hspelled).trans hkey))
        have hold : s.key ≠ current.key := fun hsame =>
          hother current.providerStageId hspelling (hsame.trans (Prod.ext hid rfl))
        have hrow := hother stage.providerStageId hcanonical
        rw [← hkey] at hrow
        simp only [StageUpsert.settle] at hrow
        simp [hs, hold, hrow]
      · simp [hs]
    · intro hmatch
      have hmatch := (of_decide_eq_true hmatch).2
      have hstage : (stage.settle projectId now (some current)).providerStageId =
          stage.providerStageId := (Prod.mk.inj hkey).2
      simp only [StageUpsert.settle] at hstage
      rw [hstage, hcanonical] at hmatch
      exact hne hmatch.symm

/-! ### The list of reported stages -/

/-- **A list of stages**: each becomes its row, and what is spelt like none of them stays. -/
theorem foldlM_upsertStage_settles {reported : List StageUpsert}
    (hcanonical : ∀ stage ∈ reported,
      canonicalStageId stage.providerStageId = stage.providerStageId)
    (hdistinct : (reported.map StageUpsert.providerStageId).Nodup)
    (h : reported.foldlM (upsertStage projectId now) stages = some stages') :
    (∀ stage ∈ reported,
      stage.settle projectId now (currentStage? stages projectId stage) ∈ stages') ∧
    ∀ id, id ∉ reported.map StageUpsert.providerStageId →
      spellings stages' projectId id = spellings stages projectId id := by
  induction reported generalizing stages with
  | nil =>
    obtain rfl := Option.some_inj.mp h
    exact ⟨fun stage hstage => absurd hstage List.not_mem_nil, fun _ _ => rfl⟩
  | cons first rest ih =>
    rw [List.foldlM_cons] at h
    obtain ⟨stages₁, hfirst, hrest⟩ := Option.bind_eq_some_iff.mp h
    obtain ⟨hnew, hdistinct⟩ := List.nodup_cons.mp hdistinct
    have hfirstCanonical := hcanonical first List.mem_cons_self
    obtain ⟨hrow, hothers⟩ := upsertStage_spec hfirst hfirstCanonical
    obtain ⟨hrows, hkept⟩ :=
      ih (fun stage hstage => hcanonical stage (List.mem_cons_of_mem first hstage)) hdistinct hrest
    refine ⟨fun stage hstage => ?_, fun id hid => ?_⟩
    · rcases List.mem_cons.mp hstage with rfl | hstage
      · -- the rest of the list leaves the spellings of the first stage alone
        obtain ⟨hid, hspelt⟩ := Prod.mk.inj (key_settle stages projectId now stage)
        have hmem := mem_spellings.mpr
          ⟨hrow, hid, (congrArg canonicalStageId hspelt).trans hfirstCanonical⟩
        rw [← hkept _ hnew] at hmem
        exact (mem_spellings.mp hmem).1
      · have hne : stage.providerStageId ≠ first.providerStageId := fun heq =>
          hnew (heq ▸ List.mem_map_of_mem hstage)
        rw [← currentStage?_congr (hothers _ hne)]
        exact hrows stage hstage
    · rw [List.map_cons, List.mem_cons, not_or] at hid
      rw [hkept id hid.2, hothers id hid.1]

/-- The rows of the other projects stay. -/
theorem foldlM_upsertStage_frame {reported : List StageUpsert}
    (h : reported.foldlM (upsertStage projectId now) stages = some stages') {s : DropStage}
    (hs : s.projectId ≠ projectId) : s ∈ stages' ↔ s ∈ stages := by
  induction reported generalizing stages with
  | nil =>
    obtain rfl := Option.some_inj.mp h
    exact Iff.rfl
  | cons first rest ih =>
    rw [List.foldlM_cons] at h
    obtain ⟨stages₁, hfirst, hrest⟩ := Option.bind_eq_some_iff.mp h
    refine (ih hrest).trans ?_
    have hother : ∀ {row : DropStage}, row.projectId = projectId → s.key ≠ row.key :=
      fun hid hkey => hs ((Prod.mk.inj hkey).1.trans hid)
    have hkey := key_settle stages projectId now first
    rw [upsertStage] at hfirst
    cases hcurrent : currentStage? stages projectId first with
    | none =>
      rw [hcurrent] at hfirst
      dsimp only at hfirst
      split at hfirst
      · obtain rfl := Option.some_inj.mp hfirst
        refine Table.mem_insert.trans ⟨fun h => h.resolve_right ?_, Or.inl⟩
        rintro ⟨rfl, -⟩
        exact hs rfl
      · exact absurd hfirst.symm (Option.some_ne_none stages₁)
    | some current =>
      rw [hcurrent] at hfirst hkey
      obtain rfl := Option.some_inj.mp hfirst
      have hrow : s.key ≠ (first.settle projectId now (some current)).key :=
        hother (Prod.mk.inj hkey).1
      rw [Table.mem_upsert, Table.mem_delete]
      constructor
      · rintro (rfl | ⟨⟨hs, -⟩, -⟩)
        · exact absurd rfl hrow
        · exact hs
      · exact fun hs => Or.inr ⟨⟨hs, hother (currentStage?_mem hcurrent).2.1⟩, hrow⟩

/-- A stage that has become its row is written again as it is. -/
theorem upsertStage_settled (hcurrent : current ∈ stages)
    (hkey : current.key = (projectId, stage.providerStageId))
    (hcanonical : canonicalStageId stage.providerStageId = stage.providerStageId)
    (hsame : ¬ MaterialChange stage current) :
    ∃ stages', upsertStage projectId now stages stage = some stages' ∧
      ∀ s, s ∈ stages' ↔ s ∈ stages := by
  have hrow : { current with providerStageId := stage.providerStageId } = current := by
    rw [← (Prod.mk.inj hkey).2]
  refine ⟨(stages.delete fun s => s.key = current.key).upsert current, ?_, fun s => ?_⟩
  · rw [upsertStage, currentStage?_of_mem hcurrent hkey hcanonical]
    dsimp only
    rw [if_neg hsame, hrow]
  · rw [Table.mem_upsert, Table.mem_delete]
    constructor
    · rintro (rfl | ⟨⟨hs, -⟩, -⟩)
      · exact hcurrent
      · exact hs
    · intro hs
      by_cases hsameKey : s.key = current.key
      · exact Or.inl (Table.eq_of_key hs hcurrent hsameKey)
      · exact Or.inr ⟨⟨hs, hsameKey⟩, hsameKey⟩

/-- **A list of stages that have become their rows** changes nothing. -/
theorem foldlM_upsertStage_settled {reported : List StageUpsert}
    (hcanonical : ∀ stage ∈ reported,
      canonicalStageId stage.providerStageId = stage.providerStageId)
    (h : ∀ stage ∈ reported, ∃ s ∈ stages, s.key = (projectId, stage.providerStageId) ∧
      ¬ MaterialChange stage s) :
    ∃ stages', reported.foldlM (upsertStage projectId now) stages = some stages' ∧
      ∀ s, s ∈ stages' ↔ s ∈ stages := by
  induction reported generalizing stages with
  | nil => exact ⟨stages, rfl, fun _ => Iff.rfl⟩
  | cons first rest ih =>
    obtain ⟨s, hs, hkey, hsame⟩ := h first List.mem_cons_self
    obtain ⟨stages₁, hfirst, hmem₁⟩ : ∃ stages₁, upsertStage projectId now stages first =
        some stages₁ ∧ ∀ s, s ∈ stages₁ ↔ s ∈ stages :=
      upsertStage_settled hs hkey (hcanonical first List.mem_cons_self) hsame
    have hrest : ∀ stage ∈ rest, ∃ s ∈ stages₁, s.key = (projectId, stage.providerStageId) ∧
        ¬ MaterialChange stage s := by
      intro stage hstage
      obtain ⟨s, hs, hrow⟩ := h stage (List.mem_cons_of_mem first hstage)
      exact ⟨s, (hmem₁ s).mpr hs, hrow⟩
    obtain ⟨stages₂, hfold, hmem₂⟩ :=
      ih (fun stage hstage => hcanonical stage (List.mem_cons_of_mem first hstage)) hrest
    refine ⟨stages₂, ?_, fun s => (hmem₂ s).trans (hmem₁ s)⟩
    rw [List.foldlM_cons, hfirst]
    exact hfold

/-! ### Superseded rows -/

variable {input : ProjectUpsert}

/-- The rows that a detail fetch pauses. -/
def Superseded (input : ProjectUpsert) (projectId : String) (s : DropStage) : Prop :=
  s.projectId = projectId ∧ s.paused = false ∧
    (s.providerStageId ∉ input.stages.map StageUpsert.providerStageId ∨
      s.providerStageId ≠ canonicalStageId s.providerStageId)

/-- The upsert lists every stage of the project. -/
def ProjectUpsert.Complete (input : ProjectUpsert) : Prop :=
  input.evidenceKind = some "drops:detail" ∧ input.stages ≠ []

/-- A row that is not superseded stays. -/
theorem mem_pauseSuperseded (hcurrent : current ∈ stages)
    (h : ¬ Superseded input projectId current) :
    current ∈ pauseSuperseded input projectId stages := by
  rw [pauseSuperseded]
  split
  · exact Table.mem_update_of_neg hcurrent h
  · exact hcurrent

theorem pauseSuperseded_frame (h : current.projectId ≠ projectId) :
    current ∈ pauseSuperseded input projectId stages ↔ current ∈ stages := by
  rw [pauseSuperseded]
  split
  · refine Table.mem_update_iff.trans ⟨?_, fun hs => Or.inr ⟨hs, fun hin => h hin.1⟩⟩
    rintro (⟨s, -, hin, rfl⟩ | ⟨hs, -⟩)
    · exact absurd hin.1 h
    · exact hs
  · exact Iff.rfl

/-- After a complete list no row is superseded. -/
theorem not_superseded_of_mem (hcomplete : input.Complete)
    (h : current ∈ pauseSuperseded input projectId stages) :
    ¬ Superseded input projectId current := by
  rw [pauseSuperseded] at h
  split at h
  · rcases Table.update_cases h with ⟨s, -, -, rfl⟩ | ⟨-, hnot⟩
    · exact fun hsuperseded => Bool.false_ne_true hsuperseded.2.1.symm
    · exact hnot
  · next hpartial => exact absurd hcomplete hpartial

/-- Where no row is superseded, nothing is paused. -/
theorem pauseSuperseded_settled
    (h : input.Complete → ∀ s ∈ stages, ¬ Superseded input projectId s) (s : DropStage) :
    s ∈ pauseSuperseded input projectId stages ↔ s ∈ stages := by
  rw [pauseSuperseded]
  split
  · next hcomplete =>
    refine Table.mem_update_iff.trans ⟨?_, ?_⟩
    · rintro (⟨s₀, hs₀, hsuperseded, -⟩ | ⟨hs, -⟩)
      · exact absurd hsuperseded (h hcomplete s₀ hs₀)
      · exact hs
    · exact fun hs => Or.inr ⟨hs, h hcomplete s hs⟩
  · exact Iff.rfl

end

/-! ### The same project again -/

section

variable {db db' : ProjectDb} {newId : String} {input : ProjectUpsert} {r : UpsertResult}
  {stages : StageTable}

/-- The same report at another instant. -/
def ProjectUpsert.at (input : ProjectUpsert) (now : ℤ) : ProjectUpsert := { input with now := now }

/-- An upsert leaves no project without the address that it reports. -/
theorem contractAddress_target (h : (input.target db newId).contractAddress = none) :
    input.contractAddress = none := by
  cases hresolve : resolve db input with
  | none =>
    rw [target_of_none hresolve] at h
    exact Option.map_eq_none_iff.mp h
  | some p =>
    rw [target_of_some hresolve] at h
    exact Option.map_eq_none_iff.mp (Option.or_eq_none_iff.mp h).2

/-- **An upsert finds again the project it wrote.** -/
theorem resolve_commit (now : ℤ) :
    ∃ schedule, resolve (input.commit db (input.target db newId) stages) (input.at now) =
      some ((input.target db newId).scheduled schedule) := by
  generalize hp : input.target db newId = p
  refine ⟨scheduleOf (pauseSuperseded input p.id stages).rows (input.snapshots p.id ++
    db.snapshots) p.id input.now, ?_⟩
  generalize hschedule : scheduleOf (pauseSuperseded input p.id stages).rows
    (input.snapshots p.id ++ db.snapshots) p.id input.now = schedule
  have hprojects : (input.commit db p stages).projects = db.projects.upsert
      (p.scheduled schedule) := by rw [← hschedule]; rfl
  have hmem : p.scheduled schedule ∈ (input.commit db p stages).projects :=
    hprojects ▸ Table.mem_upsert.mpr (Or.inl rfl)
  have halias : ((input.commit db p stages).aliases.get?
      (input.providerKind, input.externalId)).bind (fun a =>
        (input.commit db p stages).projects.get? a.projectId) = some (p.scheduled schedule) := by
    have hget : (input.commit db p stages).aliases.get? (input.providerKind, input.externalId) =
        some (input.alias db p.id) :=
      Table.get?_eq_some.mpr ⟨Table.mem_upsert.mpr (Or.inl rfl), rfl⟩
    rw [hget]
    exact Table.get?_eq_some.mpr ⟨hmem, rfl⟩
  cases hcontract : input.contractAddress with
  | none =>
    refine Option.or_eq_some_iff.mpr (Or.inr ⟨?_, halias⟩)
    show (input.contractAddress.bind _) = none
    rw [hcontract]
    rfl
  | some address =>
    have hfind : resolve (input.commit db p stages) (input.at now) =
        ((input.commit db p stages).projects.rows.find? fun p => p.chainId = input.chainId ∧
          p.contractAddress = some (Text.lower address)).or (some (p.scheduled schedule)) := by
      rw [← halias]
      show (input.contractAddress.bind _).or _ = _
      rw [hcontract]
      rfl
    rw [hfind, hprojects]
    by_cases hown : p.chainId = input.chainId ∧ p.contractAddress = some (Text.lower address)
    · show (List.find? _ (p.scheduled schedule :: _)).or _ = _
      rw [List.find?_cons_of_pos]
      · rfl
      · exact decide_eq_true hown
    · -- any other project with the address would have been the one written
      rw [List.find?_eq_none.mpr, Option.none_or]
      intro q hq hmatch
      have hmatch := of_decide_eq_true hmatch
      rcases Table.mem_upsert.mp hq with rfl | ⟨hq, -⟩
      · exact hown hmatch
      · cases hfound : db.projects.rows.find? (fun p : Project => p.chainId = input.chainId ∧
            p.contractAddress = some (Text.lower address)) with
        | none => exact List.find?_eq_none.mp hfound q hq (decide_eq_true hmatch)
        | some q₀ =>
          have hresolve : resolve db input = some q₀ := by
            refine Option.or_eq_some_iff.mpr (Or.inl ?_)
            rw [hcontract]
            exact hfound
          have hfound := List.find?_some hfound
          obtain ⟨hchain, haddress⟩ := of_decide_eq_true hfound
          rw [target_of_some hresolve] at hp
          subst hp
          refine hown ⟨hchain, ?_⟩
          rw [Project.absorb, haddress]
          rfl

/-- The project that was written can be written again. -/
theorem absorb_commit_unique {p : Project} (stages : StageTable) (now : ℤ)
    (hp : p = input.target db newId) (hunique : p.Unique db) (schedule : LifecycleStatus × Option ℤ) :
    ((p.scheduled schedule).absorb (input.commit db p stages) (input.at now)).Unique
      (input.commit db p stages) := by
  refine absorb_unique (fun q hq hne => ?_) fun hnone address haddress => ?_
  · rcases Table.mem_upsert.mp hq with rfl | ⟨hq, -⟩
    · exact absurd rfl hne
    · exact hunique q hq hne
  · subst hp
    have hinput : input.contractAddress = none := contractAddress_target hnone
    exact absurd (hinput.symm.trans haddress).symm (Option.some_ne_none address)

end

/-! ### Faithful stages -/

section

variable {db db' : ProjectDb} {newId : String} {input : ProjectUpsert} {r : UpsertResult}

/-- The row holds what is reported of the stage. -/
structure StageUpsert.IsRow (stage : StageUpsert) (projectId : String) (s : DropStage) : Prop where
  key : s.key = (projectId, stage.providerStageId)
  label : s.label = stage.label
  type : s.type = stage.kind
  priceWei : s.priceWei = stage.priceWei
  currency : s.currency = stage.currency
  maxPerWallet : s.maxPerWallet = stage.maxPerWallet
  startsAt : s.startsAt = stage.startsAt
  endsAt : s.endsAt = stage.endsAt
  paused : s.paused = stage.paused

/-- What an upsert has made of the stages it reports: each is stored as it is reported, the same
report changes no row again, and a complete list leaves no other row unpaused. -/
structure StagesFaithful (input : ProjectUpsert) (r : UpsertResult) (db' : ProjectDb) : Prop where
  stored : ∀ stage ∈ input.stages, ∃ s ∈ db'.stages, stage.IsRow r.projectId s
  again : ∀ newId now, ∃ r' db'', upsertProjectFromSource db' newId (input.at now) =
    some (r', db'') ∧ r'.projectId = r.projectId ∧ ∀ s, s ∈ db''.stages ↔ s ∈ db'.stages
  listed : input.Complete → ∀ s ∈ db'.stages, s.projectId = r.projectId → s.paused = false →
    ∃ stage ∈ input.stages, s.key = (r.projectId, stage.providerStageId)

/-- A row that its stage does not differ from holds what is reported, but for the currency. -/
theorem isRow_iff_currency {stage : StageUpsert} {projectId : String} {s : DropStage}
    (hkey : s.key = (projectId, stage.providerStageId)) (hsame : ¬ MaterialChange stage s) :
    stage.IsRow projectId s ↔ s.currency = stage.currency := by
  refine ⟨StageUpsert.IsRow.currency, fun hcurrency => ?_⟩
  rw [MaterialChange] at hsame
  push Not at hsame
  obtain ⟨hlabel, htype, hprice, hmax, hstarts, hends, hpaused⟩ := hsame
  exact ⟨hkey, hlabel, htype, hprice, hcurrency, hmax, hstarts, hends, hpaused⟩

theorem not_materialChange_row (stage : StageUpsert) (projectId : String) (version : ℕ) (now : ℤ) :
    ¬ MaterialChange stage (stage.row projectId version now) := by
  simp [MaterialChange, StageUpsert.row]

/-- What a stage has become it does not differ from; it holds what is reported unless the row was
left alone in another currency. -/
theorem settle_spec (stages : StageTable) (projectId : String) (now : ℤ) (stage : StageUpsert) :
    ¬ MaterialChange stage
        (stage.settle projectId now (currentStage? stages projectId stage)) ∧
      (stage.IsRow projectId (stage.settle projectId now (currentStage? stages projectId stage)) ↔
        ∀ s, currentStage? stages projectId stage = some s → ¬ MaterialChange stage s →
          s.currency = stage.currency) := by
  have hkey := key_settle stages projectId now stage
  cases hcurrent : currentStage? stages projectId stage with
  | none =>
    rw [hcurrent] at hkey
    refine ⟨not_materialChange_row stage projectId 1 now, iff_of_true ?_ ?_⟩
    · exact (isRow_iff_currency hkey (not_materialChange_row stage projectId 1 now)).mpr rfl
    · exact fun s hs => absurd hs.symm (Option.some_ne_none s)
  | some current =>
    rw [hcurrent] at hkey
    rw [StageUpsert.settle] at hkey ⊢
    by_cases hchange : MaterialChange stage current
    · rw [if_pos hchange] at hkey ⊢
      have hsame := not_materialChange_row stage projectId (current.version + 1) now
      refine ⟨hsame, iff_of_true ((isRow_iff_currency hkey hsame).mpr rfl) ?_⟩
      intro s hs hnot
      obtain rfl := Option.some_inj.mp hs
      exact absurd hchange hnot
    · rw [if_neg hchange] at hkey ⊢
      refine ⟨hchange, (isRow_iff_currency hkey hchange).trans ⟨fun h s hs _ => ?_, fun h => ?_⟩⟩
      · obtain rfl := Option.some_inj.mp hs
        exact h
      · exact h current rfl hchange

/-- **The same report again** finds every stage in its row, and changes none. -/
theorem upsert_again {stages : StageTable} (hunique : (input.target db newId).Unique db)
    (hcanonical : ∀ stage ∈ input.stages,
      canonicalStageId stage.providerStageId = stage.providerStageId)
    (hrows : ∀ stage ∈ input.stages,
      ∃ s ∈ pauseSuperseded input (input.target db newId).id stages,
        s.key = ((input.target db newId).id, stage.providerStageId) ∧ ¬ MaterialChange stage s)
    (newId' : String) (now : ℤ) :
    ∃ r' db'', upsertProjectFromSource (input.commit db (input.target db newId) stages) newId'
        (input.at now) = some (r', db'') ∧ r'.projectId = (input.target db newId).id ∧
      ∀ s, s ∈ db''.stages ↔ s ∈ (input.commit db (input.target db newId) stages).stages := by
  obtain ⟨schedule, hresolve⟩ : ∃ schedule, resolve (input.commit db (input.target db newId)
      stages) (input.at now) = some ((input.target db newId).scheduled schedule) :=
    resolve_commit now
  have hunique' := absorb_commit_unique stages now rfl hunique schedule
  generalize input.target db newId = p at *
  obtain ⟨stages₂, hfold, hmem₂⟩ : ∃ stages₂, input.stages.foldlM (upsertStage p.id now)
      (pauseSuperseded input p.id stages) = some stages₂ ∧
        ∀ s, s ∈ stages₂ ↔ s ∈ pauseSuperseded input p.id stages :=
    foldlM_upsertStage_settled hcanonical hrows
  refine ⟨(input.at now).result (input.commit db p stages) p.id,
    (input.at now).commit (input.commit db p stages) ((p.scheduled schedule).absorb
      (input.commit db p stages) (input.at now)) stages₂, ?_, rfl, fun s => ?_⟩
  · rw [upsertProjectFromSource, target_of_some hresolve, if_pos]
    · show (input.stages.foldlM (upsertStage p.id now) (pauseSuperseded input p.id stages)).bind
        _ = _
      rw [hfold]
      rfl
    · refine ⟨hunique', fun hnone => ?_⟩
      exact absurd (hnone.symm.trans hresolve).symm (Option.some_ne_none _)
  · have hsettled : ∀ s, s ∈ pauseSuperseded (input.at now) p.id stages₂ ↔ s ∈ stages₂ :=
      pauseSuperseded_settled fun hcomplete s hs =>
        have hstored : s ∈ pauseSuperseded input p.id stages := (hmem₂ s).mp hs
        @not_superseded_of_mem stages p.id s input hcomplete hstored
    exact (hsettled s).trans (hmem₂ s)

/-- **Exactly when stages are stored as they are reported.**  A list of stages with distinct
canonical ids is stored faithfully if and only if none of them agrees with its row in label,
kind, price, cap, window and paused flag but not in the currency. -/
theorem stagesFaithful_iff (db db' : ProjectDb) (newId : String) (input : ProjectUpsert)
    (r : UpsertResult) (hup : upsertProjectFromSource db newId input = some (r, db'))
    (hcanonical : ∀ stage ∈ input.stages,
      canonicalStageId stage.providerStageId = stage.providerStageId)
    (hdistinct : (input.stages.map StageUpsert.providerStageId).Nodup) :
    StagesFaithful input r db' ↔
      ∀ stage ∈ input.stages, ∀ s,
        currentStage? db.stages (input.target db newId).id stage = some s →
          ¬ MaterialChange stage s → s.currency = stage.currency := by
  obtain ⟨hunique, -, stages, hfold, rfl, rfl⟩ := upsertProjectFromSource_eq_some hup
  obtain ⟨hsettled, -⟩ := foldlM_upsertStage_settles hcanonical hdistinct hfold
  generalize hp : input.target db newId = p at *
  -- the rows of the reported stages are not superseded
  have hrows : ∀ stage ∈ input.stages,
      stage.settle p.id input.now (currentStage? db.stages p.id stage) ∈
        pauseSuperseded input p.id stages := by
    intro stage hstage
    refine mem_pauseSuperseded (hsettled stage hstage) ?_
    obtain ⟨-, hid⟩ := Prod.mk.inj (key_settle db.stages p.id input.now stage)
    rintro ⟨-, -, hout | hspelt⟩
    · exact hout (hid ▸ List.mem_map_of_mem hstage)
    · exact hspelt (by rw [hid, hcanonical stage hstage])
  have hrowsSettled : ∀ stage ∈ input.stages, ∃ s ∈ pauseSuperseded input p.id stages,
      s.key = (p.id, stage.providerStageId) ∧ ¬ MaterialChange stage s := fun stage hstage =>
    ⟨_, hrows stage hstage, key_settle db.stages p.id input.now stage,
      (settle_spec db.stages p.id input.now stage).1⟩
  constructor
  · intro hfaithful stage hstage
    obtain ⟨s, hs, hrow⟩ := hfaithful.stored stage hstage
    have hkey := key_settle db.stages p.id input.now stage
    obtain rfl := Table.eq_of_key hs (hrows stage hstage) (hrow.key.trans hkey.symm)
    exact (settle_spec db.stages p.id input.now stage).2.mp hrow
  · intro hcurrency
    refine ⟨fun stage hstage => ⟨_, hrows stage hstage, ?_⟩, fun newId' now' => ?_, ?_⟩
    · exact (settle_spec db.stages p.id input.now stage).2.mpr (hcurrency stage hstage)
    · subst hp
      exact (upsert_again hunique hcanonical hrowsSettled newId' now')
    · intro hcomplete s hs hid hpaused
      have hnot := not_superseded_of_mem hcomplete hs
      by_contra hother
      refine hnot ⟨hid, hpaused, Or.inl fun hmem => hother ?_⟩
      obtain ⟨stage, hstage, hspelt⟩ := List.mem_map.mp hmem
      exact ⟨stage, hstage, Prod.ext hid hspelt.symm⟩

end

/-- A detail fetch of the drop, whose first stage is priced in another currency now. -/
def repriced (label : String) : ProjectUpsert where
  providerKind := "opensea"
  externalId := "drop"
  chainId := 4663
  contractAddress := some "0xC0"
  name := "Drop"
  slug := some "drop"
  imageUrl := none
  confidence := .verified
  stages := [⟨"a", label, .publicSale, none, some "0xe", none, 0, none, false⟩]
  supply := none
  evidenceKind := some "drops:detail"
  now := 20

/-- With another label as well, the row is written. -/
theorem stagesFaithful_relabelled :
    ∃ r db', upsertProjectFromSource (hiddenDrop none) "new" (repriced "Open") = some (r, db') ∧
      StagesFaithful (repriced "Open") r db' :=
  ⟨_, _, rfl, (stagesFaithful_iff (hiddenDrop none) _ "new" (repriced "Open") _ rfl (by decide)
    (by decide)).mpr (by decide)⟩

/-- In the currency alone it is not: the stage stays in the currency it was stored in. -/
theorem not_stagesFaithful_repriced :
    ∃ r db', upsertProjectFromSource (hiddenDrop none) "new" (repriced "Public") = some (r, db') ∧
      ¬ StagesFaithful (repriced "Public") r db' := by
  have hleft : ∀ s ∈ ((upsertProjectFromSource (hiddenDrop none) "new" (repriced "Public")).elim []
      fun u => u.2.stages.rows), s.providerStageId = "a" → s.currency = none := by decide
  obtain ⟨u, hu⟩ : ∃ u, upsertProjectFromSource (hiddenDrop none) "new" (repriced "Public") =
    some u := ⟨_, rfl⟩
  rw [hu] at hleft
  refine ⟨u.1, u.2, hu, fun h => ?_⟩
  obtain ⟨s, hs, hrow⟩ := h.stored _ List.mem_cons_self
  have hnone := hleft s hs (Prod.mk.inj hrow.key).2
  exact absurd (hnone.symm.trans hrow.currency).symm (Option.some_ne_none "0xe")

end Projects
