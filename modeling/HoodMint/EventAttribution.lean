/-
What project the radar attributes a mint to (`packages/db/src/repositories/onchain.ts`).

* `tables` — the tables under `insertMintEvents`, whose statements may fail;
* `Attributes` — every mint that is stored is stored under the project of its contract on its
  chain, and when the function returns they all are;
* `ensureProjects_wp`, `insertRows_wp` — the two loops, and `insertMintEvents_wp`;
* `attributes_iff` — exactly when: the project found last for its contract, on whatever chain, is
  on the chain of the mint, or there is none and the first mint of the batch is.
-/
import HoodMint.ChainTables
import HoodMint.Lib.Text

namespace ChainRadar

open Effect Relational
open Text (lower)

/-! ### Runs against the tables -/

/-- The tables, when the statements in `faulty` may fail. -/
def tables (faulty : RadarDb → Cmd → Prop) : Monitor signature Thrown RadarDb where
  guard _ _ := True
  allowed db c x :=
    match x with
    | .ok a => db.Answers c a ∧ db.Fits c a
    | .error _ => faulty db c
  next db c x :=
    match x with
    | .ok a => db.exec c a
    | .error _ => db

/-- Any statement may fail. -/
abbrev failing : Monitor signature Thrown RadarDb := tables fun _ _ => True

/-- Only those fail that would write what no column takes. -/
abbrev raising : Monitor signature Thrown RadarDb := tables RadarDb.Raises

namespace MintEventInsert

variable (e : MintEventInsert)

/-- The key of its row. -/
def key : ℕ × String × ℕ := (e.chainId, lower e.txHash, e.logIndex)

/-- The lowercase address it is looked up by. -/
def contract : String := lower e.contractAddress

/-- Its row under a project. -/
def under (projectId : ℕ) : MintEvent := { e.row [] with projectId := some projectId }

/-- Its figures fit their columns. -/
def Fits : Prop := e.logIndex ≤ int4Max ∧ e.blockNumber ≤ int8Max ∧ e.quantity ≤ int4Max

instance : DecidablePred Fits := fun e =>
  (inferInstance : Decidable
    (e.logIndex ≤ int4Max ∧ e.blockNumber ≤ int8Max ∧ e.quantity ≤ int4Max))

end MintEventInsert

/-- A row stores the mint under a project of its contract on this chain. -/
def Placed (db : RadarDb) (chainId : ℕ) (e : MintEventInsert) (row : MintEvent) : Prop :=
  ∃ p ∈ db.projects, p.chainId = chainId ∧ p.contractAddress = some e.contract ∧
    row = e.under p.id

/-- **Attribution by chain.**  However a run of `insertMintEvents` ends, each row that it has added
stores a mint of the batch under the project of its contract on its own chain; and when it has
returned, every mint of the batch is stored. -/
def Attributes (events : List MintEventInsert) (db : RadarDb) : Prop :=
  ∀ tr r, (insertMintEvents events).Runs tr (.finished r) → failing.Admits db tr →
    (∀ row ∈ (failing.after db tr).events, row ∉ db.events →
      ∃ e ∈ events, Placed (failing.after db tr) e.chainId e row) ∧
    (r.isOk = true → ∀ e ∈ events, ∃ row ∈ (failing.after db tr).events, row.key = e.key)

/-! ### What it takes -/

/-- The chain of the project found last for a contract, or this one. -/
def RadarDb.chainFor (db : RadarDb) (chainId : ℕ) (contract : String) : ℕ :=
  ((db.projects.rows.reverse.find? fun p => p.contractAddress = some contract).map
    ProjectRow.chainId).getD chainId

/-- The mints that are added to rows with these keys: up to the first that does not fit its
columns, each whose key is a new one. -/
def newcomers : List (ℕ × String × ℕ) → List MintEventInsert → List MintEventInsert
  | _, [] => []
  | taken, e :: events =>
    if e.Fits then
      if e.key ∈ taken then newcomers taken events
      else e :: newcomers (e.key :: taken) events
    else []

theorem newcomers_cons (taken : List (ℕ × String × ℕ)) (e : MintEventInsert)
    (events : List MintEventInsert) : newcomers taken (e :: events) =
      if e.Fits then
        if e.key ∈ taken then newcomers taken events else e :: newcomers (e.key :: taken) events
      else [] :=
  rfl

/-- The mints that a batch adds. -/
def RadarDb.added (db : RadarDb) (events : List MintEventInsert) : List MintEventInsert :=
  newcomers (db.events.rows.map MintEvent.key) events

/-- Every mint that is added is on the chain of the project found last for its contract, or, where
none is found, on that of the first mint. -/
def OwnChain (db : RadarDb) : List MintEventInsert → Prop
  | [] => True
  | first :: events => ∀ e ∈ db.added (first :: events),
    db.chainFor first.chainId e.contract = e.chainId

/-! ### The map -/

section

variable {db : RadarDb} {contracts : List String} {contract : String} {id : ℕ}
  {byContract : List (String × ℕ)}

/-- The map has the project found last. -/
theorem projectOf_projectsFor (h : contract ∈ contracts) :
    projectOf (db.projectsFor contracts).reverse contract =
      (db.projects.rows.reverse.find? fun p => p.contractAddress = some contract).map
        ProjectRow.id := by
  rw [projectOf, RadarDb.projectsFor, ← List.filterMap_reverse]
  induction db.projects.rows.reverse with
  | nil => rfl
  | cons p rows ih =>
    cases haddress : p.contractAddress with
    | none =>
      rw [List.filterMap_cons_none (by simp only [haddress]), ih,
        List.find?_cons_of_neg (by simp [haddress])]
    | some c =>
      by_cases hc : c = contract
      · have hentry : c ∈ contracts := hc ▸ h
        rw [List.filterMap_cons_some (b := (c, p.id)) (by simp only [haddress]; rw [if_pos hentry]),
          List.find?_cons_of_pos (by simp [hc]), List.find?_cons_of_pos (by simp [haddress, hc])]
        rfl
      · rw [List.find?_cons_of_neg (p := fun p : ProjectRow => p.contractAddress = some contract)
          (by simp [haddress, hc]), ← ih]
        by_cases hmem : c ∈ contracts
        · rw [List.filterMap_cons_some (b := (c, p.id)) (by simp only [haddress]; rw [if_pos hmem]),
            List.find?_cons_of_neg (by simp [hc])]
        · rw [List.filterMap_cons_none (by simp only [haddress]; rw [if_neg hmem])]

@[simp] theorem projectOf_cons_self :
    projectOf ((contract, id) :: byContract) contract = some id := by
  simp [projectOf]

theorem projectOf_cons_of_ne {c : String} (h : contract ≠ c) :
    projectOf ((contract, id) :: byContract) c = projectOf byContract c := by
  simp [projectOf, h]

theorem mem_distinct {α : Type} [DecidableEq α] {xs : List α} {x : α} :
    x ∈ distinct xs ↔ x ∈ xs := by
  have hfold : ∀ seen : List α,
      x ∈ xs.foldl (fun seen x => if x ∈ seen then seen else seen ++ [x]) seen ↔
        x ∈ seen ∨ x ∈ xs := by
    induction xs with
    | nil => simp
    | cons y xs ih =>
      intro seen
      rw [List.foldl_cons, ih]
      by_cases hy : y ∈ seen
      · rw [if_pos hy, List.mem_cons]
        refine ⟨fun h => h.imp_right Or.inr, ?_⟩
        rintro (h | rfl | h)
        · exact Or.inl h
        · exact Or.inl hy
        · exact Or.inr h
      · rw [if_neg hy, List.mem_append, List.mem_singleton, List.mem_cons, or_assoc]
  rw [distinct, hfold]
  simp

theorem mem_contractsOf {events : List MintEventInsert} :
    contract ∈ contractsOf events ↔ ∃ e ∈ events, e.contract = contract := by
  rw [contractsOf, mem_distinct, List.mem_map]
  rfl

end

/-! ### Projects -/

namespace RadarDb

variable {db : RadarDb} {chainId : ℕ} {contract : String} {p : ProjectRow}

theorem lt_freshId (h : p ∈ db.projects) : p.id < db.freshId := by
  have hle : p.id ≤ (db.projects.rows.map ProjectRow.id).foldr max 0 := by
    have hmem : p.id ∈ db.projects.rows.map ProjectRow.id := List.mem_map_of_mem h
    generalize db.projects.rows.map ProjectRow.id = ids at hmem
    induction ids with
    | nil => exact absurd hmem List.not_mem_nil
    | cons id ids ih =>
      rw [List.foldr_cons]
      rcases List.mem_cons.mp hmem with heq | hmem
      · omega
      · have := ih hmem
        omega
  rw [freshId]
  omega

theorem mem_of_projectAt (h : db.projectAt chainId contract = some p) :
    p ∈ db.projects ∧ p.chainId = chainId ∧ p.contractAddress = some contract := by
  have hfound := List.find?_some h
  exact ⟨List.mem_of_find?_eq_some h, of_decide_eq_true hfound⟩

/-- After `ensureContractProject` its answer is the project of the contract on the chain. -/
theorem exec_ensureContractProject {name : String} {now : ℤ} {id : ℕ}
    (h : db.Answers (.ensureContractProject chainId contract name now) id) :
    ∃ p ∈ (db.exec (.ensureContractProject chainId contract name now) id).projects,
      p.id = id ∧ p.chainId = chainId ∧ p.contractAddress = some (lower contract) := by
  have hid : id = ((db.projectAt chainId (lower contract)).map ProjectRow.id).getD db.freshId := h
  rw [exec]
  cases hat : db.projectAt chainId (lower contract) with
  | some p =>
    obtain ⟨hp, hchain, hcontract⟩ := mem_of_projectAt hat
    rw [hat] at hid
    exact ⟨p, hp, hid.symm, hchain, hcontract⟩
  | none =>
    rw [hat] at hid
    refine ⟨⟨id, chainId, some (lower contract)⟩, ?_, rfl, rfl, rfl⟩
    refine Table.mem_insert.mpr (Or.inr ⟨rfl, fun p hp hsame => ?_⟩)
    have hlt := lt_freshId hp
    have hfresh : p.id = db.freshId := hsame.trans hid
    omega

/-- It keeps every project, and the events. -/
theorem exec_ensureContractProject_frame (db : RadarDb) (chainId : ℕ) (contract name : String)
    (now : ℤ) (id : ℕ) :
    (db.exec (.ensureContractProject chainId contract name now) id).events = db.events ∧
      ∀ p ∈ db.projects,
        p ∈ (db.exec (.ensureContractProject chainId contract name now) id).projects := by
  rw [exec]
  split
  · exact ⟨rfl, fun p hp => hp⟩
  · exact ⟨rfl, fun p hp => Table.mem_insert_of_mem hp⟩

end RadarDb

/-- The map gives the contract the project of it on this chain. -/
def Resolves (db : RadarDb) (byContract : List (String × ℕ)) (chainId : ℕ) (contract : String) :
    Prop :=
  ∃ p ∈ db.projects, p.chainId = chainId ∧ p.contractAddress = some contract ∧
    projectOf byContract contract = some p.id

/-- What the map gives is a project of the contract on its chain; what it does not give yet is
to be on `chainId`. -/
structure Mapped (db : RadarDb) (chainOf : String → ℕ) (chainId : ℕ) (contracts : List String)
    (byContract : List (String × ℕ)) : Prop where
  resolves : ∀ contract, (projectOf byContract contract).isSome = true →
    Resolves db byContract (chainOf contract) contract
  missing : ∀ contract ∈ contracts, projectOf byContract contract = none →
    chainOf contract = chainId

section

variable {faulty : RadarDb → Cmd → Prop} {db : RadarDb} {chainOf : String → ℕ} {chainId : ℕ}
  {contract : String} {contracts : List String} {byContract : List (String × ℕ)} {id : ℕ}

/-- A contract without a project is given one. -/
theorem Mapped.ensure (h : Mapped db chainOf chainId (contract :: contracts) byContract)
    (hlower : lower contract = contract) (hnone : projectOf byContract contract = none)
    {name : String} {now : ℤ}
    (hx : db.Answers (.ensureContractProject chainId contract name now) id) :
    Mapped (db.exec (.ensureContractProject chainId contract name now) id) chainOf chainId
      contracts ((contract, id) :: byContract) := by
  obtain ⟨p, hp, hid, hchain, hcontract⟩ := RadarDb.exec_ensureContractProject hx
  have hkept := (RadarDb.exec_ensureContractProject_frame db chainId contract name now id).2
  constructor
  · intro c hc
    by_cases heq : contract = c
    · subst heq
      refine ⟨p, hp, ?_, hlower ▸ hcontract, ?_⟩
      · rw [h.missing contract List.mem_cons_self hnone]
        exact hchain
      · rw [projectOf_cons_self, hid]
    · rw [projectOf_cons_of_ne heq] at hc
      obtain ⟨q, hq, hchain', hcontract', hof⟩ := h.resolves c hc
      exact ⟨q, hkept q hq, hchain', hcontract', (projectOf_cons_of_ne heq).trans hof⟩
  · intro c hc hcnone
    by_cases heq : contract = c
    · subst heq
      rw [projectOf_cons_self] at hcnone
      cases hcnone
    · rw [projectOf_cons_of_ne heq] at hcnone
      exact h.missing c (List.mem_cons_of_mem _ hc) hcnone

/-- Only those statements fail that would write what no column takes. -/
def Calm (faulty : RadarDb → Cmd → Prop) : Prop := ∀ db c, faulty db c → db.Raises c

/-- What the loop over the contracts leaves: the events, and a project for every contract. -/
def Ensured (faulty : RadarDb → Cmd → Prop) (db : RadarDb) (chainOf : String → ℕ)
    (contracts : List String) (byContract : List (String × ℕ)) :
    Except Thrown (List (String × ℕ)) → RadarDb → Prop
  | .ok byContract', db' => db'.events = db.events ∧
    (∀ contract, (projectOf byContract contract).isSome = true ∨ contract ∈ contracts →
      (projectOf byContract' contract).isSome = true) ∧
    ∀ contract, (projectOf byContract' contract).isSome = true →
      Resolves db' byContract' (chainOf contract) contract
  | .error _, db' => db'.events = db.events ∧ ¬ Calm faulty

theorem ensureProjects_wp {observedAt : ℤ} (hlower : ∀ c ∈ contracts, lower c = c)
    (h : Mapped db chainOf chainId contracts byContract) :
    (ensureProjects chainId observedAt contracts byContract).wp (tables faulty)
      (Ensured faulty db chainOf contracts byContract) db := by
  induction contracts generalizing db byContract with
  | nil => exact ⟨rfl, fun c hc => hc.resolve_right List.not_mem_nil, h.resolves⟩
  | cons contract contracts ih =>
    have hlower' : ∀ c ∈ contracts, lower c = c := fun c hc => hlower c (List.mem_cons_of_mem _ hc)
    rw [ensureProjects]
    cases hof : projectOf byContract contract with
    | some id =>
      -- the contract has its project already
      refine Prog.wp_mono (ih hlower' ⟨h.resolves, fun c hc => h.missing c
        (List.mem_cons_of_mem _ hc)⟩) fun r db' hr => ?_
      cases r with
      | error e => exact hr
      | ok byContract' =>
        refine ⟨hr.1, fun c hc => hr.2.1 c ?_, hr.2.2⟩
        rcases hc with hc | hc
        · exact Or.inl hc
        · rcases List.mem_cons.mp hc with rfl | hc
          · exact Or.inl (Option.isSome_of_eq_some hof)
          · exact Or.inr hc
    | none =>
      refine Prog.wp_issue_bind trivial (fun id hx => ?_) fun e hfault => ?_
      · have hmapped := h.ensure (hlower contract List.mem_cons_self) hof hx.1
        refine Prog.wp_mono (ih hlower' hmapped) fun r db' hr => ?_
        have hevents := (RadarDb.exec_ensureContractProject_frame db chainId contract
          ("Unknown " ++ String.ofList (contract.toList.take 10)) observedAt id).1
        cases r with
        | error e => exact ⟨hr.1.trans hevents, hr.2⟩
        | ok byContract' =>
          refine ⟨hr.1.trans hevents, fun c hc => hr.2.1 c ?_, hr.2.2⟩
          by_cases heq : contract = c
          · subst heq
            rw [projectOf_cons_self]
            exact Or.inl rfl
          · rw [projectOf_cons_of_ne heq]
            refine hc.imp_right fun hc => ?_
            exact (List.mem_cons.mp hc).resolve_left fun hsame => heq hsame.symm
      · refine ⟨rfl, fun hcalm => ?_⟩
        -- no column is too narrow for a new project
        obtain ⟨id, hnot⟩ := hcalm db _ hfault
        exact hnot trivial

end

/-! ### Events -/

section

variable {faulty : RadarDb → Cmd → Prop} {db db' : RadarDb} {e : MintEventInsert}

/-- What the loop over the events leaves. -/
structure Inserted (faulty : RadarDb → Cmd → Prop) (db : RadarDb)
    (byContract : List (String × ℕ)) (events : List MintEventInsert) (returned : Bool)
    (db' : RadarDb) : Prop where
  projects : db'.projects = db.projects
  kept : ∀ row ∈ db.events, row ∈ db'.events
  added : ∀ row ∈ db'.events, row ∈ db.events ∨ ∃ e ∈ db.added events, row = e.row byContract
  stored : returned = true → ∀ e ∈ events, ∃ row ∈ db'.events, row.key = e.key
  calm : Calm faulty → ∀ e ∈ db.added events, e.row byContract ∈ db'.events

section

variable (byContract : List (String × ℕ)) (events : List MintEventInsert) (answer : Bool)

/-- The first event is not added when its key is taken, -/
theorem insert_taken (hfits : e.Fits) (h : e.key ∈ db.events.rows.map MintEvent.key) :
    (db.exec (.insertMintEvent (e.row byContract)) answer).added events =
        db.added (e :: events) ∧
      (db.exec (.insertMintEvent (e.row byContract)) answer).events = db.events := by
  have hsame : db.events.insert (e.row byContract) = db.events := dif_pos h
  rw [RadarDb.exec, RadarDb.added, RadarDb.added, hsame, newcomers_cons, if_pos hfits, if_pos h]
  exact ⟨rfl, rfl⟩

/-- and otherwise it is. -/
theorem insert_new (hfits : e.Fits) (h : e.key ∉ db.events.rows.map MintEvent.key) :
    db.added (e :: events) =
        e :: (db.exec (.insertMintEvent (e.row byContract)) answer).added events ∧
      (db.exec (.insertMintEvent (e.row byContract)) answer).events.rows =
        e.row byContract :: db.events.rows := by
  have hrows : (db.events.insert (e.row byContract)).rows =
      e.row byContract :: db.events.rows := by
    refine Table.insert_rows fun r hr hkey => h ?_
    exact List.mem_map.mpr ⟨r, hr, hkey⟩
  refine ⟨?_, hrows⟩
  rw [RadarDb.exec, RadarDb.added, RadarDb.added, hrows, newcomers_cons, if_pos hfits, if_neg h,
    List.map_cons]
  rfl

/-- One more event. -/
theorem Inserted.cons {returned : Bool} (hfits : e.Fits)
    (h : Inserted faulty (db.exec (.insertMintEvent (e.row byContract)) answer) byContract events
      returned db') :
    Inserted faulty db byContract (e :: events) returned db' := by
  have hkept : ∀ row ∈ db.events,
      row ∈ (db.exec (.insertMintEvent (e.row byContract)) answer).events :=
    fun row hrow => Table.mem_insert_of_mem hrow
  -- whether it was new or not, its key is taken now
  have hself : ∃ row ∈ db'.events, row.key = e.key := by
    by_cases hkey : e.key ∈ db.events.rows.map MintEvent.key
    · obtain ⟨row, hrow, hsame⟩ := List.mem_map.mp hkey
      exact ⟨row, h.kept row (hkept row hrow), hsame⟩
    · have hmem := (insert_new byContract events answer hfits hkey).2
      exact ⟨e.row byContract, h.kept _ (by rw [← Table.mem_rows, hmem]; exact List.mem_cons_self),
        rfl⟩
  refine ⟨h.projects, fun row hrow => h.kept row (hkept row hrow), fun row hrow => ?_,
    fun hreturned e' he' => ?_, fun hcalm e' he' => ?_⟩
  · by_cases hkey : e.key ∈ db.events.rows.map MintEvent.key
    · obtain ⟨hadded, hevents⟩ := insert_taken byContract events answer hfits hkey
      rw [← hadded, ← hevents]
      exact h.added row hrow
    · obtain ⟨hadded, hrows⟩ := insert_new byContract events answer hfits hkey
      rw [hadded]
      rcases h.added row hrow with hrow | ⟨e', he', rfl⟩
      · rw [← Table.mem_rows, hrows] at hrow
        rcases List.mem_cons.mp hrow with rfl | hrow
        · exact Or.inr ⟨e, List.mem_cons_self, rfl⟩
        · exact Or.inl hrow
      · exact Or.inr ⟨e', List.mem_cons_of_mem _ he', rfl⟩
  · rcases List.mem_cons.mp he' with rfl | he'
    · exact hself
    · exact h.stored hreturned e' he'
  · by_cases hkey : e.key ∈ db.events.rows.map MintEvent.key
    · obtain ⟨hadded, _⟩ := insert_taken byContract events answer hfits hkey
      exact h.calm hcalm e' (hadded ▸ he')
    · obtain ⟨hadded, hrows⟩ := insert_new byContract events answer hfits hkey
      rw [hadded] at he'
      rcases List.mem_cons.mp he' with rfl | he'
      · refine h.kept _ ?_
        rw [← Table.mem_rows, hrows]
        exact List.mem_cons_self
      · exact h.calm hcalm e' he'

end

theorem insertRows_wp {byContract : List (String × ℕ)} {events : List MintEventInsert} :
    (insertRows (events.map (MintEventInsert.row byContract))).wp (tables faulty)
      (fun r db' => Inserted faulty db byContract events r.isOk db') db := by
  induction events generalizing db with
  | nil =>
    exact ⟨rfl, fun _ h => h, fun _ h => Or.inl h, fun _ e he => absurd he List.not_mem_nil,
      fun _ e he => absurd he List.not_mem_nil⟩
  | cons e events ih =>
    refine Prog.wp_issue_bind trivial (fun a hx => ?_) fun error hfault => ?_
    · refine Prog.wp_bind_of ih (fun n db' h => ?_) fun error db' h => ?_
      · exact Inserted.cons byContract events a hx.2 h
      · exact Inserted.cons byContract events a hx.2 h
    · refine ⟨rfl, fun _ h => h, fun _ h => Or.inl h, fun h => absurd h (by simp [Except.isOk,
        Except.toBool]), fun hcalm e' he' => ?_⟩
      -- the statement fails when the event does not fit, and then nothing more is added
      obtain ⟨a, hnot⟩ := hcalm db _ hfault
      have hunfit : ¬ e.Fits := hnot
      rw [RadarDb.added, newcomers_cons, if_neg hunfit] at he'
      exact absurd he' List.not_mem_nil

end

/-! ### Batches -/

/-- What `insertMintEvents` leaves. -/
structure Outcome (faulty : RadarDb → Cmd → Prop) (db : RadarDb) (chainId : ℕ)
    (events : List MintEventInsert) (returned : Bool) (db' : RadarDb) : Prop where
  added : ∀ row ∈ db'.events, row ∉ db.events →
    ∃ e ∈ db.added events, Placed db' (db.chainFor chainId e.contract) e row
  stored : returned = true → ∀ e ∈ events, ∃ row ∈ db'.events, row.key = e.key
  calm : Calm faulty → ∀ e ∈ db.added events,
    ∃ row ∈ db'.events, Placed db' (db.chainFor chainId e.contract) e row

section

variable {faulty : RadarDb → Cmd → Prop} {db : RadarDb} {e first : MintEventInsert}
  {events : List MintEventInsert}

/-- The mints added are some of the batch, with keys that are not taken. -/
theorem mem_newcomers {taken : List (ℕ × String × ℕ)} (h : e ∈ newcomers taken events) :
    e ∈ events ∧ e.key ∉ taken := by
  induction events generalizing taken with
  | nil => exact absurd h List.not_mem_nil
  | cons e' events ih =>
    rw [newcomers_cons] at h
    split at h
    · split at h
      · exact ⟨List.mem_cons_of_mem _ (ih h).1, (ih h).2⟩
      · next hkey =>
        rcases List.mem_cons.mp h with rfl | h
        · exact ⟨List.mem_cons_self, hkey⟩
        · obtain ⟨hmem, hnot⟩ := ih h
          exact ⟨List.mem_cons_of_mem _ hmem, fun htaken => hnot (List.mem_cons_of_mem _ htaken)⟩
    · exact absurd h List.not_mem_nil

theorem mem_of_projectsFor {contracts : List String} {contract : String}
    (h : (projectOf (db.projectsFor contracts).reverse contract).isSome = true) :
    contract ∈ contracts := by
  rw [projectOf, Option.isSome_map, List.find?_isSome] at h
  obtain ⟨entry, hentry, heq⟩ := h
  obtain rfl : entry.1 = contract := of_decide_eq_true heq
  obtain ⟨p, _, hp⟩ := List.mem_filterMap.mp (List.mem_reverse.mp hentry)
  split at hp
  · split at hp
    · next c _ hmem => exact Option.some_inj.mp hp ▸ hmem
    · cases hp
  · cases hp

/-- The map starts with the projects found. -/
theorem mapped_projectsFor (db : RadarDb) (chainId : ℕ) (contracts : List String) :
    Mapped db (db.chainFor chainId) chainId contracts (db.projectsFor contracts).reverse := by
  constructor
  · intro contract hsome
    have hof := @projectOf_projectsFor db _ _ (mem_of_projectsFor hsome)
    cases hfound : db.projects.rows.reverse.find? fun p => p.contractAddress = some contract with
    | none =>
      rw [hof, hfound] at hsome
      cases hsome
    | some p =>
      have hp := List.find?_some hfound
      refine ⟨p, List.mem_reverse.mp (List.mem_of_find?_eq_some hfound), ?_,
        of_decide_eq_true hp, ?_⟩
      · rw [RadarDb.chainFor, hfound]
        rfl
      · rw [hof, hfound]
        rfl
  · intro contract hmem hnone
    rw [projectOf_projectsFor hmem, Option.map_eq_none_iff] at hnone
    rw [RadarDb.chainFor, hnone]
    rfl

/-- The row of a mint whose contract has its project. -/
theorem row_eq_under {byContract : List (String × ℕ)} {id : ℕ}
    (h : projectOf byContract e.contract = some id) : e.row byContract = e.under id := by
  rw [MintEventInsert.under, ← h]
  rfl

/-- **A batch.** -/
theorem insertMintEvents_wp :
    (insertMintEvents (first :: events)).wp (tables faulty)
      (fun r db' => Outcome faulty db first.chainId (first :: events) r.isOk db') db := by
  have hlower : ∀ c ∈ contractsOf (first :: events), lower c = c := by
    intro c hc
    obtain ⟨e, _, rfl⟩ := mem_contractsOf.mp hc
    exact Text.lower_lower e.contractAddress
  -- a run that stops before the events leaves them
  have hstop : ∀ {error : Thrown} {db' : RadarDb}, db'.events = db.events → ¬ Calm faulty →
      Outcome faulty db first.chainId (first :: events)
        (Except.error error : Except Thrown ℕ).isOk db' := by
    intro error db' hevents hcalm
    refine ⟨fun row hrow hnew => ?_, fun h => absurd h (by simp [Except.isOk, Except.toBool]),
      fun h => absurd h hcalm⟩
    rw [hevents] at hrow
    exact absurd hrow hnew
  refine Prog.wp_issue_bind trivial (fun rows hx => ?_) fun error hfault => ?_
  · obtain rfl : rows = db.projectsFor (contractsOf (first :: events)) := hx.1
    refine Prog.wp_bind_of (ensureProjects_wp hlower (mapped_projectsFor db first.chainId _))
      (fun byContract db₁ hensured => ?_) fun error db₁ hensured => hstop hensured.1 hensured.2
    obtain ⟨hevents, hsome, hresolves⟩ := hensured
    have hadded : db₁.added (first :: events) = db.added (first :: events) := by
      rw [RadarDb.added, RadarDb.added, hevents]
      rfl
    have hplaced : ∀ e ∈ first :: events, ∀ db', db'.projects = db₁.projects →
        Placed db' (db.chainFor first.chainId e.contract) e (e.row byContract) := by
      intro e he db' hprojects
      obtain ⟨p, hp, hchain, hcontract, hof⟩ := hresolves e.contract
        (hsome e.contract (Or.inr (mem_contractsOf.mpr ⟨e, he, rfl⟩)))
      exact ⟨p, hprojects ▸ hp, hchain, hcontract, row_eq_under hof⟩
    refine Prog.wp_mono insertRows_wp fun r db' h => ?_
    refine ⟨fun row hrow hnew => ?_, h.stored, fun hcalm e he => ?_⟩
    · rcases h.added row hrow with hold | ⟨e, he, rfl⟩
      · rw [hevents] at hold
        exact absurd hold hnew
      · rw [hadded] at he
        exact ⟨e, he, hplaced e (mem_newcomers he).1 db' h.projects⟩
    · have he₁ : e ∈ db₁.added (first :: events) := hadded ▸ he
      exact ⟨e.row byContract, h.calm hcalm e he₁, hplaced e (mem_newcomers he).1 db' h.projects⟩
  · refine hstop rfl fun hcalm => ?_
    obtain ⟨rows, hnot⟩ := hcalm db _ hfault
    exact hnot trivial

/-! ### Exactly when -/

/-- Every statement has an answer. -/
theorem exists_answer (db : RadarDb) (c : Cmd) : ∃ a, db.Answers c a := by
  cases c with
  | getCheckpoint | selectProjects | projectIdsForContracts | ensureContractProject
  | insertMintEvent | markEventsFinalized | unfinalizeFromBlock => exact ⟨_, rfl⟩
  | sumByRecipient => exact ⟨_, List.Perm.refl _⟩
  | now => exact ⟨(0 : ℤ), trivial⟩
  | refreshBuckets | refreshActivitySnapshot => exact ⟨(0 : ℤ), trivial⟩
  | getBlockNumber => exact ⟨(0 : ℕ), trivial⟩
  | getBlock => exact ⟨"", trivial⟩
  | getLogs => exact ⟨([] : List Log), trivial⟩
  | distinctEnabledRpcChainIds => exact ⟨([] : List ℕ), trivial⟩
  | resolveBestRpcUrl => exact ⟨(none : Option String), trivial⟩
  | ensureProvider => exact ⟨(⟨"", true⟩ : Provider), trivial⟩
  | upsertHolderSnapshot | saveCheckpoint | markProviderHealth | publishEvent =>
    exact ⟨(), trivial⟩

/-- Without faults every statement is answered, or fails for what it would write. -/
theorem raising_answers (db : RadarDb) (c : Cmd) : ∃ x, raising.allowed db c x := by
  obtain ⟨a, ha⟩ := exists_answer db c
  by_cases hfits : db.Fits c a
  · exact ⟨.ok a, ha, hfits⟩
  · exact ⟨.error ⟨"", "", true⟩, a, hfits⟩

/-- A run without faults is one in which any statement may fail. -/
theorem failing_of_raising {tr : List (Event signature Thrown)} (h : raising.Admits db tr) :
    failing.Admits db tr ∧ failing.after db tr = raising.after db tr := by
  induction tr generalizing db with
  | nil => exact ⟨trivial, rfl⟩
  | cons event tr ih =>
    obtain ⟨hallowed, hrest⟩ := h
    obtain ⟨c, x⟩ := event
    cases x with
    | error error => exact ⟨⟨trivial, (ih hrest).1⟩, (ih hrest).2⟩
    | ok a => exact ⟨⟨hallowed, (ih hrest).1⟩, (ih hrest).2⟩

/-- What is attributed by chain is on the chain that its contract is looked up to be on. -/
theorem chainFor_of_attributes (h : Attributes (first :: events) db)
    (he : e ∈ db.added (first :: events)) : db.chainFor first.chainId e.contract = e.chainId := by
  have hmay := Prog.may_of_wp raising_answers
    (@insertMintEvents_wp RadarDb.Raises db first events)
  obtain ⟨tr, r, hruns, hadmits, hout⟩ := Prog.exists_run hmay
  obtain ⟨hadmits', hafter⟩ := failing_of_raising hadmits
  obtain ⟨row, hrow, p, hp, hchain, _, rfl⟩ := hout.calm (fun _ _ hraises => hraises) e he
  have hnew : e.under p.id ∉ db.events := fun hold =>
    (mem_newcomers he).2 (List.mem_map.mpr ⟨e.under p.id, hold, rfl⟩)
  rw [← hafter] at hrow hp
  obtain ⟨e', _, p', hp', hchain', _, hsame⟩ := (h tr r hruns hadmits').1 _ hrow hnew
  -- the row tells its project and its chain
  have hid : p.id = p'.id := Option.some_inj.mp (congrArg MintEvent.projectId hsame)
  have hmint : e.chainId = e'.chainId := congrArg MintEvent.chainId hsame
  have hproject : p = p' := Table.eq_of_key hp hp' hid
  rw [← hchain, hproject, hchain', hmint]

end

/-- **Exactly when mints are attributed by chain.**  Every mint is stored under the project of its
contract on its chain if and only if each mint that is added is on the chain of the project found
last for its contract, or, where no project has the contract, on that of the first mint. -/
theorem attributes_iff (events : List MintEventInsert) (db : RadarDb) :
    Attributes events db ↔ OwnChain db events := by
  cases events with
  | nil =>
    refine ⟨fun _ => trivial, fun _ tr r hruns _ => ?_⟩
    cases hruns
    exact ⟨fun row hrow hnew => absurd hrow hnew, fun _ e he => absurd he List.not_mem_nil⟩
  | cons first events =>
    refine ⟨fun h e he => chainFor_of_attributes h he, fun h tr r hruns hadmits => ?_⟩
    obtain ⟨_, hout⟩ := Prog.sound insertMintEvents_wp hruns hadmits
    have houtcome := hout r rfl
    refine ⟨fun row hrow hnew => ?_, houtcome.stored⟩
    obtain ⟨e, he, hplaced⟩ := houtcome.added row hrow hnew
    rw [h e he] at hplaced
    exact ⟨e, (mem_newcomers he).1, hplaced⟩

/-! ### Samples -/

namespace Sample

/-- A mint on Ethereum. -/
def ethereumMint : MintEventInsert :=
  ⟨1, "0x01", 0, 100, "0x02", "0xAA", "0x0b", 1, false, 0⟩

/-- Two projects of one address, on Ethereum and on Base. -/
def twoChains : RadarDb :=
  { events := .empty, projects := ⟨[⟨1, 1, some "0xaa"⟩, ⟨2, 8453, some "0xaa"⟩], by decide⟩
    checkpoints := .empty, aggregates := .empty, activity := .empty, holders := .empty }

end Sample

/-- With a project of one address on each of two chains, a mint goes to the other chain's. -/
theorem not_attributes_twoChains : ¬ ∀ events db, Attributes events db := by
  intro h
  have hmem : Sample.ethereumMint ∈ Sample.twoChains.added [Sample.ethereumMint] := by
    decide
  have hchain := chainFor_of_attributes (h [Sample.ethereumMint] Sample.twoChains) hmem
  exact absurd hchain (by decide)

end ChainRadar
