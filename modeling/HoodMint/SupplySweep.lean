/-
The supply sweep (`apps/worker/src/workers/supply.ts`).

* `supplySweepTargets` — what a sweep reads, soonest stage first;
* `Body`, `next` — `readOne`, cut where it waits: for `totalSupply()`, for `maxSupply()`, for the
  insert;
* `Sweep`, `step` — six lanes over one cursor, and other writers between any two steps;
* `sweep_reads_once` — every target is read once, and the counters and the snapshots inserted tell
  what came of it, whatever the order of the answers and whatever others write;
* `sweep_marks_sold_out` — what the recompute after the sweep makes of the readings, when others
  leave the supplies alone.

A column of supplies holds 64-bit integers; an insert of a larger one fails.  The block number of a
snapshot, logging and the choice of an endpoint are left out.
-/
import HoodMint.Lib.Lanes
import HoodMint.Lib.Transition
import HoodMint.ProjectLifecycle

namespace SupplySweep

open Lanes Projects Transition

/-! ### Targets -/

structure Target where
  id : String
  slug : Option String
  contractAddress : String
deriving DecidableEq

/-- `coalesce(next_stage_start, 'infinity')`, ascending. -/
def soonerStart : Option ℤ → Option ℤ → Bool
  | some a, some b => a ≤ b
  | _, none => true
  | none, some _ => false

/-- The row of a project that has a contract. -/
def target? (p : Project) : Option Target :=
  p.contractAddress.map fun contractAddress => ⟨p.id, p.slug, contractAddress⟩

/-- `supplySweepTargets`. -/
def supplySweepTargets (db : ProjectDb) (limit : ℕ) : List Target :=
  (((db.projects.rows.filter fun p =>
      p.lifecycleStatus ∈ [.live, .next] ∧ p.contractAddress.isSome).insertionSort
        fun a b => soonerStart a.nextStageStart b.nextStageStart).take limit).filterMap target?

theorem ids_sublist (rows : List Project) :
    ((rows.filterMap target?).map Target.id).Sublist (rows.map Project.id) := by
  induction rows with
  | nil => exact List.Sublist.slnil
  | cons p rest ih =>
    cases hp : p.contractAddress with
    | none =>
      rw [List.filterMap_cons_none (by rw [target?, hp]; rfl)]
      exact ih.cons _
    | some address =>
      rw [List.filterMap_cons_some (by rw [target?, hp]; rfl)]
      exact ih.cons_cons _

/-- A project is a target once. -/
theorem nodup_supplySweepTargets (db : ProjectDb) (limit : ℕ) :
    ((supplySweepTargets db limit).map Target.id).Nodup := by
  refine (ids_sublist _).nodup ?_
  refine ((List.take_sublist limit _).map Project.id).nodup ?_
  refine ((List.perm_insertionSort _ _).map Project.id).nodup_iff.mpr ?_
  exact (List.filter_sublist.map Project.id).nodup db.projects.nodup

/-! ### Reading one target -/

/-- What `readOne` waits for. -/
inductive Body
  | totalSupply
  | maxSupply (minted : ℕ)
  | insert (minted : ℕ) (maxSupply : Option ℕ)
deriving DecidableEq

inductive Result
  | recorded (minted : ℕ) (maxSupply : Option ℕ)
  | failed
deriving DecidableEq

/-- A 64-bit column takes the number. -/
def Storable (n : ℕ) : Prop := n < 2 ^ 63

instance (n : ℕ) : Decidable (Storable n) := inferInstanceAs (Decidable (n < 2 ^ 63))

/-- `readOne`, given what it waits for; `none` is a call that fails. -/
def next (reply : Option ℕ) : Body → Body ⊕ Result
  | .totalSupply =>
    match reply with
    | some minted => .inl (.maxSupply minted)
    | none => .inr .failed
  | .maxSupply minted => .inl (.insert minted reply)
  | .insert minted maxSupply =>
    if reply.isSome ∧ Storable minted ∧ ∀ m ∈ maxSupply, Storable m then
      .inr (.recorded minted maxSupply)
    else .inr .failed

/-- `maxSupply !== null && maxSupply > 0n && minted >= maxSupply` -/
def SoldOut (minted : ℕ) (maxSupply : Option ℕ) : Prop := ∃ m ∈ maxSupply, 0 < m ∧ m ≤ minted

instance (minted : ℕ) (maxSupply : Option ℕ) : Decidable (SoldOut minted maxSupply) :=
  inferInstanceAs (Decidable (∃ m ∈ maxSupply, 0 < m ∧ m ≤ minted))

/-! ### The sweep -/

/-- A sweep under way, with the snapshots it has inserted. -/
structure Sweep where
  targets : List Target
  now : ℤ
  pool : Pool Body Result
  db : ProjectDb
  inserted : List SupplySnapshot
  recorded : ℕ
  soldOut : ℕ
  failed : ℕ

inductive Event
  | turn (lane : ℕ)
  | answer (lane : ℕ) (reply : Option ℕ)
  | other (db : ProjectDb)

def lanes : ℕ := 6

/-- The snapshot of a reading. -/
def snapshot (projectId : String) (minted : ℕ) (maxSupply : Option ℕ) (now : ℤ) :
    SupplySnapshot :=
  ⟨projectId, minted, maxSupply.map Int.ofNat, now, "chain:erc721", maxSupply.isSome⟩

theorem snapshots_recordChainSupply (db : ProjectDb) (projectId : String) (minted : ℕ)
    (maxSupply : Option ℕ) (now : ℤ) :
    (recordChainSupply db projectId minted (maxSupply.map Int.ofNat) now).snapshots =
      snapshot projectId minted maxSupply now :: db.snapshots := by
  rw [recordChainSupply, snapshot, Option.isSome_map]

namespace Sweep

def start (db : ProjectDb) (limit : ℕ) (now : ℤ) : Sweep :=
  ⟨supplySweepTargets db limit, now, Pool.start lanes, db, [], 0, 0, 0⟩

/-- What a result does to the table and the counters. -/
def account (s : Sweep) (item : ℕ) : Result → Sweep
  | .recorded minted maxSupply =>
    match s.targets[item]? with
    | some target =>
      { s with
        db := recordChainSupply s.db target.id minted (maxSupply.map Int.ofNat) s.now
        inserted := snapshot target.id minted maxSupply s.now :: s.inserted
        recorded := s.recorded + 1
        soldOut := if SoldOut minted maxSupply then s.soldOut + 1 else s.soldOut }
    | none => s
  | .failed => { s with failed := s.failed + 1 }

theorem targets_account (s : Sweep) (item : ℕ) (result : Result) :
    (s.account item result).targets = s.targets := by
  cases result with
  | failed => rfl
  | recorded minted maxSupply =>
    rw [account]
    split <;> rfl

theorem now_account (s : Sweep) (item : ℕ) (result : Result) :
    (s.account item result).now = s.now := by
  cases result with
  | failed => rfl
  | recorded minted maxSupply =>
    rw [account]
    split <;> rfl

def step (s : Sweep) : Event → Option Sweep
  | .turn k => (s.pool.turn s.targets.length .totalSupply k).map fun pool => { s with pool }
  | .answer k reply =>
    match s.pool.lanes[k]? with
    | some (.busy item body) =>
      (s.pool.proceed (next reply) k).map fun pool =>
        match next reply body with
        | .inl _ => { s with pool }
        | .inr result => { s.account item result with pool }
    | _ => none
  | .other db => some { s with db }

/-- The snapshot that a result stands for. -/
def snapshot? (targets : List Target) (now : ℤ) : ℕ × Result → Option SupplySnapshot
  | (item, .recorded minted maxSupply) =>
    (targets[item]?).map fun target => snapshot target.id minted maxSupply now
  | (_, .failed) => none

/-- A result of a contract that says its supply is gone. -/
def CountsSoldOut : ℕ × Result → Bool
  | (_, .recorded minted maxSupply) => SoldOut minted maxSupply
  | (_, .failed) => false

def isFailed : ℕ × Result → Bool
  | (_, .recorded _ _) => false
  | (_, .failed) => true

/-- What the counters and the snapshots inserted show of the results so far. -/
structure Accounts (s : Sweep) : Prop where
  recorded_add : s.recorded + s.failed = s.pool.results.length
  failed_eq : s.failed = s.pool.results.countP isFailed
  soldOut_eq : s.soldOut = s.pool.results.countP CountsSoldOut
  inserted_eq : s.inserted = s.pool.results.filterMap (snapshot? s.targets s.now)

structure Inv (targets : List Target) (now : ℤ) (s : Sweep) : Prop where
  targets_eq : s.targets = targets
  now_eq : s.now = now
  pool : Pool.Inv targets.length s.pool
  lanes_eq : s.pool.lanes.length = lanes
  accounts : Accounts s

/-- Others leave the supplies alone. -/
def Quiet (s : Sweep) : Event → Prop
  | .other db => db.snapshots = s.db.snapshots
  | _ => True

variable {targets : List Target} {now : ℤ} {old : List SupplySnapshot} {s s' : Sweep}
  {db : ProjectDb} {limit : ℕ}

theorem inv_start (db : ProjectDb) (limit : ℕ) (now : ℤ) :
    Inv (supplySweepTargets db limit) now (start db limit now) :=
  ⟨rfl, rfl, Pool.inv_start _ _, List.length_replicate, rfl, rfl, rfl, rfl⟩

/-- A result that comes in changes the counters and the snapshots by what it stands for. -/
theorem Accounts.account {item : ℕ} {result : Result} {pool : Pool Body Result}
    (h : Accounts s) (hitem : item < s.targets.length)
    (hresults : pool.results = (item, result) :: s.pool.results) :
    Accounts { s.account item result with pool } := by
  have htarget : s.targets[item]? = some s.targets[item] := List.getElem?_eq_getElem hitem
  cases result with
  | failed =>
    refine ⟨?_, ?_, ?_, ?_⟩
    · show s.recorded + (s.failed + 1) = pool.results.length
      rw [hresults, List.length_cons, ← h.recorded_add, Nat.add_assoc]
    · show s.failed + 1 = pool.results.countP isFailed
      rw [hresults, List.countP_cons_of_pos rfl, h.failed_eq]
    · show s.soldOut = pool.results.countP CountsSoldOut
      rw [hresults, List.countP_cons_of_neg (by simp [CountsSoldOut]), h.soldOut_eq]
    · show s.inserted = _
      rw [hresults, List.filterMap_cons_none rfl]
      exact h.inserted_eq
  | recorded minted maxSupply =>
    have haccount : s.account item (.recorded minted maxSupply) = { s with
        db := recordChainSupply s.db s.targets[item].id minted (maxSupply.map Int.ofNat) s.now
        inserted := snapshot s.targets[item].id minted maxSupply s.now :: s.inserted
        recorded := s.recorded + 1
        soldOut := if SoldOut minted maxSupply then s.soldOut + 1 else s.soldOut } := by
      rw [Sweep.account, htarget]
    rw [haccount]
    refine ⟨?_, ?_, ?_, ?_⟩
    · show s.recorded + 1 + s.failed = pool.results.length
      rw [hresults, List.length_cons, ← h.recorded_add]
      omega
    · show s.failed = pool.results.countP isFailed
      rw [hresults, List.countP_cons_of_neg (by simp [isFailed]), h.failed_eq]
    · show (if SoldOut minted maxSupply then s.soldOut + 1 else s.soldOut) = _
      rw [hresults, List.countP_cons, h.soldOut_eq]
      by_cases hsold : SoldOut minted maxSupply <;> simp [CountsSoldOut, hsold]
    · show snapshot s.targets[item].id minted maxSupply s.now :: s.inserted = _
      rw [hresults, h.inserted_eq]
      rw [List.filterMap_cons_some (by rw [snapshot?, htarget]; rfl)]

theorem inv_step {event : Event} (h : Inv targets now s) (hs : s.step event = some s') :
    Inv targets now s' := by
  obtain ⟨htargets, hnow, hpool, hlanes, haccounts⟩ := h
  cases event with
  | turn k =>
    obtain ⟨pool, hturn, rfl⟩ := Option.map_eq_some_iff.mp hs
    rw [htargets] at hturn
    refine ⟨htargets, hnow, hpool.turn hturn, (Pool.length_turn hturn).trans hlanes, ?_⟩
    obtain ⟨-, ⟨-, rfl⟩ | ⟨-, rfl⟩⟩ := Pool.turn_cases hturn
    · exact ⟨haccounts.1, haccounts.2, haccounts.3, haccounts.4⟩
    · exact ⟨haccounts.1, haccounts.2, haccounts.3, haccounts.4⟩
  | answer k reply =>
    rw [step] at hs
    split at hs
    · next item body hk =>
      obtain ⟨pool, hproceed, rfl⟩ := Option.map_eq_some_iff.mp hs
      have hlength := (Pool.length_proceed hproceed).trans hlanes
      have hitem : item < s.targets.length := by
        -- an item under way is before the cursor
        have hbusy : item ∈ s.pool.busy :=
          List.mem_filterMap.mpr ⟨_, List.mem_of_getElem? hk, rfl⟩
        have hrange := hpool.taken.subset (List.mem_append_left _ hbusy)
        exact htargets ▸ (List.mem_range.mp hrange).trans_le hpool.cursor_le
      obtain ⟨item', body', hk', hcases⟩ := Pool.proceed_cases hproceed
      obtain ⟨rfl, rfl⟩ : item = item' ∧ body = body' := by simpa [hk] using hk'
      rcases hcases with ⟨body'', hnext, rfl⟩ | ⟨result, hnext, rfl⟩
      · rw [hnext]
        exact ⟨htargets, hnow, hpool.proceed hproceed, hlength,
          haccounts.1, haccounts.2, haccounts.3, haccounts.4⟩
      · rw [hnext]
        exact ⟨(targets_account s item result).trans htargets,
          (now_account s item result).trans hnow, hpool.proceed hproceed, hlength,
          haccounts.account hitem rfl⟩
    · exact absurd hs nofun
  | other db =>
    obtain rfl := Option.some_inj.mp hs
    exact ⟨htargets, hnow, hpool, hlanes, haccounts.1, haccounts.2, haccounts.3, haccounts.4⟩

theorem inv_of_reach {db : ProjectDb} {limit : ℕ} (h : Reachable step (start db limit now) s) :
    Inv (supplySweepTargets db limit) now s :=
  h.invariant (inv_start db limit now) fun _ _ _ _ hinv _ hs => inv_step hinv hs

/-- A result adds to the table what it adds to the snapshots inserted. -/
theorem snapshots_account (h : s.db.snapshots = s.inserted ++ old) (item : ℕ) (result : Result) :
    (s.account item result).db.snapshots = (s.account item result).inserted ++ old := by
  cases result with
  | failed => exact h
  | recorded minted maxSupply =>
    rw [account]
    split
    · show (recordChainSupply s.db _ _ _ _).snapshots = _
      rw [snapshots_recordChainSupply, h]
      rfl
    · exact h

/-- When others leave the supplies alone, the table has gained what the sweep has inserted. -/
theorem snapshots_of_reach {db : ProjectDb} {limit : ℕ}
    (h : Reach step Quiet (start db limit now) s) :
    s.db.snapshots = s.inserted ++ db.snapshots := by
  refine h.invariant (I := fun s => s.db.snapshots = s.inserted ++ db.snapshots) rfl ?_
  intro s event s' _ hsnapshots hquiet hs
  cases event with
  | turn k =>
    obtain ⟨pool, _, rfl⟩ := Option.map_eq_some_iff.mp hs
    exact hsnapshots
  | answer k reply =>
    rw [step] at hs
    split at hs
    · next item body _ =>
      obtain ⟨pool, _, rfl⟩ := Option.map_eq_some_iff.mp hs
      split
      · exact hsnapshots
      · exact snapshots_account hsnapshots item _
    · exact absurd hs nofun
  | other db =>
    obtain rfl := Option.some_inj.mp hs
    exact Eq.trans hquiet hsnapshots

/-! ### A whole sweep -/

/-- **Every target is read once.**  At any point of a sweep at most six targets are being read, and
none of them has been read before; the sweep has inserted one snapshot for each reading it has
recorded; and when the lanes are done every target has been read exactly once, and the counters
add up. -/
theorem sweep_reads_once {db : ProjectDb} {limit : ℕ} {now : ℤ}
    (h : Reachable step (start db limit now) s) :
    (s.pool.busy ++ s.pool.results.map Prod.fst).Nodup ∧ s.pool.busy.length ≤ 6 ∧
      s.inserted = s.pool.results.filterMap (snapshot? s.targets s.now) ∧
      (s.pool.Done →
        (s.pool.results.map Prod.fst).Perm (List.range (supplySweepTargets db limit).length) ∧
        s.recorded + s.failed = (supplySweepTargets db limit).length ∧
        s.soldOut = s.pool.results.countP CountsSoldOut) := by
  have hinv := inv_of_reach h
  refine ⟨hinv.pool.nodup, ?_, hinv.accounts.inserted_eq, fun hdone => ?_⟩
  · have hbusy : s.pool.busy.length ≤ s.pool.lanes.length := List.length_filterMap_le _ _
    exact hbusy.trans hinv.lanes_eq.le
  · have hlanes : s.pool.lanes ≠ [] := List.ne_nil_of_length_pos (by rw [hinv.lanes_eq]; decide)
    have hperm := hinv.pool.results_perm hlanes hdone
    have hlength := hperm.length_eq
    rw [List.length_map, List.length_range] at hlength
    exact ⟨hperm, hinv.accounts.recorded_add.trans hlength, hinv.accounts.soldOut_eq⟩

/-- A live project with a contract. -/
def liveProject : Project :=
  ⟨"p1", 4663, some "0xdrop", "drop", none, none, .verified, .live, none, 0, 0⟩

def oneProject : ProjectDb :=
  ⟨⟨[liveProject], by decide⟩, Relational.Table.empty, Relational.Table.empty, []⟩

/-- One lane reads the project, whose contract states a maximum of zero; the lanes end. -/
def oneReading : List Event :=
  [.turn 2, .turn 0, .answer 2 (some 5), .answer 2 (some 0), .turn 1, .answer 2 (some 0),
    .turn 2, .turn 3, .turn 4, .turn 5]

instance (s : Sweep) : DecidablePred (Quiet s) := fun event =>
  match event with
  | .other db => inferInstanceAs (Decidable (db.snapshots = s.db.snapshots))
  | .turn _ | .answer _ _ => isTrue trivial

/-- Meanwhile another writer records a supply of the project. -/
theorem sweep_reads_once_oneReading : ∃ s : Sweep, s.recorded + s.failed = 1 ∧
    s.db.snapshots.length = 2 ∧ s.inserted = [snapshot "p1" 5 (some 0) 7] := by
  obtain ⟨s, hreach, hs⟩ := exists_reachable_of_run step (start oneProject 300 7)
    (.other { oneProject with snapshots := [snapshot "p1" 4 none 6] } :: oneReading)
    (fun s => decide (s.pool.Done ∧ s.db.snapshots.length = 2 ∧
      s.pool.results = [(0, .recorded 5 (some 0))] ∧ s.targets = [⟨"p1", none, "0xdrop"⟩] ∧
      s.now = 7)) (by decide)
  obtain ⟨hended, hlength, hresults, htargets, hnow⟩ := of_decide_eq_true hs
  obtain ⟨-, -, hinserted, hdone⟩ := sweep_reads_once hreach
  refine ⟨s, (hdone hended).2.1, hlength, ?_⟩
  rw [hinserted, hresults, htargets, hnow]
  rfl

/-! ### What the recompute makes of it -/

/-- The result of a target is the only one that speaks of its project. -/
theorem result_unique (h : Inv (supplySweepTargets db limit) now s) {item item' : ℕ}
    {result result' : Result} {target target' : Target} (hr : (item, result) ∈ s.pool.results)
    (hr' : (item', result') ∈ s.pool.results) (ht : s.targets[item]? = some target)
    (ht' : s.targets[item']? = some target') (hid : target.id = target'.id) :
    item = item' ∧ result = result' := by
  obtain rfl : item = item' := by
    have hnodup := h.targets_eq ▸ nodup_supplySweepTargets db limit
    have hlt : item < (s.targets.map Target.id).length := by
      rw [List.length_map]
      exact (List.getElem?_eq_some_iff.mp ht).1
    refine (List.getElem?_inj hlt hnodup).mp ?_
    rw [List.getElem?_map, List.getElem?_map, ht, ht', Option.map_some, Option.map_some, hid]
  have hkeys : (s.pool.results.map Prod.fst).Nodup := h.pool.nodup.of_append_right
  exact ⟨rfl, congrArg Prod.snd (List.inj_on_of_nodup_map hkeys hr hr' rfl)⟩

/-- The latest supply of a project that the sweep has read. -/
theorem latestSupplyFor_eq (hpast : ∀ ss ∈ old, ss.observedAt < now)
    (h : Inv (supplySweepTargets db limit) now s)
    (hsnapshots : s.db.snapshots = s.inserted ++ old) {item : ℕ} {result : Result}
    {target : Target} (hr : (item, result) ∈ s.pool.results)
    (ht : s.targets[item]? = some target) :
    latestSupplyFor s.db.snapshots target.id =
      match result with
      | .recorded minted maxSupply => some (snapshot target.id minted maxSupply now)
      | .failed => latestSupplyFor old target.id := by
  -- a snapshot of the sweep for this project is the one of this result
  have hnew : ∀ ss ∈ s.pool.results.filterMap (snapshot? s.targets s.now),
      ss.projectId = target.id →
        ∃ minted maxSupply, result = .recorded minted maxSupply ∧
          ss = snapshot target.id minted maxSupply now := by
    intro ss hss hid
    obtain ⟨⟨item', result'⟩, hr', hsome⟩ := List.mem_filterMap.mp hss
    cases result' with
    | failed => exact absurd hsome nofun
    | recorded minted maxSupply =>
      obtain ⟨target', ht', rfl⟩ := Option.map_eq_some_iff.mp hsome
      obtain ⟨rfl, rfl⟩ := result_unique h hr hr' ht ht' hid.symm
      rw [ht, Option.some_inj] at ht'
      exact ⟨minted, maxSupply, rfl, by rw [ht', h.now_eq]⟩
  rw [latestSupplyFor, hsnapshots, h.accounts.inserted_eq, List.filter_append]
  cases result with
  | failed =>
    have hnone : (s.pool.results.filterMap (snapshot? s.targets s.now)).filter
        (fun ss => ss.projectId = target.id) = [] := by
      refine List.filter_eq_nil_iff.mpr fun ss hss hid => ?_
      obtain ⟨_, _, hresult, -⟩ := hnew ss hss (of_decide_eq_true hid)
      exact absurd hresult nofun
    rw [hnone, List.nil_append]
    rfl
  | recorded minted maxSupply =>
    have hmem : snapshot target.id minted maxSupply now ∈
        (s.pool.results.filterMap (snapshot? s.targets s.now)).filter
          fun ss => ss.projectId = target.id := by
      refine List.mem_filter.mpr ⟨List.mem_filterMap.mpr ⟨_, hr, ?_⟩, decide_eq_true rfl⟩
      rw [snapshot?, ht, h.now_eq]
      rfl
    cases hnewest : newest _ with
    | none =>
      have hnil := newest_eq_none.mp hnewest
      exact absurd (List.append_eq_nil_iff.mp hnil).1 (List.ne_nil_of_mem hmem)
    | some ss =>
      obtain ⟨hss, hmax⟩ := newest_spec hnewest
      have hnow : now ≤ ss.observedAt := hmax _ (List.mem_append_left _ hmem)
      rcases List.mem_append.mp hss with hss | hss
      · obtain ⟨hss, hid⟩ := List.mem_filter.mp hss
        obtain ⟨minted', maxSupply', hresult, rfl⟩ := hnew ss hss (of_decide_eq_true hid)
        obtain ⟨rfl, rfl⟩ := Result.recorded.inj hresult
        rfl
      · have hlt := hpast ss (List.mem_filter.mp hss).1
        exact absurd hnow (Int.not_le.mpr hlt)

/-- **A project is sold out when its contract says so.**  Others leave the supplies alone, and those
of before are older than the sweep.  Whenever lifecycles are recomputed after a target has been
read, its project, if it is live, next or paused, is `SOLD_OUT` exactly if the contract has stated a maximum and
minted as many (a maximum of zero included, which the sweep does not count), and if the reading
failed, exactly if the snapshots of before say so. -/
theorem sweep_marks_sold_out {db : ProjectDb} {limit : ℕ} {now : ℤ} (now' : ℤ)
    (hpast : ∀ ss ∈ db.snapshots, ss.observedAt < now)
    (h : Reach step Quiet (start db limit now) s) {item : ℕ} {result : Result} {target : Target}
    (hr : (item, result) ∈ s.pool.results) (ht : s.targets[item]? = some target) {p : Project}
    (hp : p ∈ s.db.projects) (hid : p.id = target.id)
    (hstatus : p.lifecycleStatus ∈ [.live, .next, .paused]) :
    ∃ p' ∈ (recomputeLifecycles s.db now').projects, p'.id = p.id ∧
      (p'.lifecycleStatus = .soldOut ↔
        match result with
        | .recorded minted maxSupply => ∃ m ∈ maxSupply, m ≤ minted
        | .failed => (projectState db now' p.id).soldOut = true) := by
  have hinv := inv_of_reach h.reachable
  have hselected : p.lifecycleStatus ∈ [.live, .next, .soldOut, .paused] := by
    simp only [List.mem_cons, List.not_mem_nil, or_false] at hstatus ⊢
    tauto
  have hnotSold : p.lifecycleStatus ≠ .soldOut := by
    intro hsold
    rw [hsold] at hstatus
    exact absurd hstatus (by decide)
  obtain ⟨p', hp', hid', hstatus', -⟩ := mem_recomputeLifecycles s.db now' p hp hselected
  refine ⟨p', hp', hid', ?_⟩
  have hsold : p'.lifecycleStatus = .soldOut ↔ (projectState s.db now' p.id).soldOut = true := by
    rw [hstatus', ProjectState.status]
    split
    · next hsold => simp [hsold]
    · next hsold =>
      split
      · simp [hsold]
      · split
        · simp [hsold]
        · split
          · simp [hsold]
          · simp [hsold, hnotSold]
  rw [hsold, projectState, hid, latestSupplyFor_eq hpast hinv (snapshots_of_reach h) hr ht]
  cases result with
  | failed => rfl
  | recorded minted maxSupply =>
    cases maxSupply with
    | none => simp [snapshot]
    | some m => simp [snapshot]

/-- The project is marked, and has not been counted. -/
theorem sweep_marks_sold_out_oneReading : ∃ s : Sweep, s.soldOut = 0 ∧
    ∃ p' ∈ (recomputeLifecycles s.db 8).projects, p'.id = "p1" ∧ p'.lifecycleStatus = .soldOut := by
  obtain ⟨s, hreach, hs⟩ := exists_reach_of_run step Quiet (start oneProject 300 7) oneReading
    (fun s => decide (s.soldOut = 0 ∧ (0, Result.recorded 5 (some 0)) ∈ s.pool.results ∧
      s.targets[0]? = some (Target.mk "p1" none "0xdrop") ∧ liveProject ∈ s.db.projects.rows))
    (by decide) (by decide)
  obtain ⟨hsoldOut, hr, ht, hp⟩ := of_decide_eq_true hs
  obtain ⟨p', hp', hid, hiff⟩ := sweep_marks_sold_out 8 (by decide) hreach hr ht hp rfl
    (by decide)
  exact ⟨s, hsoldOut, p', hp', hid, hiff.mpr ⟨0, rfl, Nat.zero_le 5⟩⟩

end Sweep

end SupplySweep
