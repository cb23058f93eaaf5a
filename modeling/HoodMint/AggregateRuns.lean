/-
The aggregates of a project over its whole history (`packages/db/src/repositories/onchain.ts`).

A recomputation reads the events of the last 48 hours and writes whole buckets.

* `AggregateStep`, `RadarDb.run` — statements of the radar in any order, and events removed;
* `refreshed_eq` — a bucket that the cutoff does not cut is written with the counts of all its
  events;
* `bounded_step`, `grows_step` — a step never lowers a stored count;
* `aggregates_never_lose` — so no run loses mints in which no bucket is cut.
-/
import HoodMint.ChainTables

namespace ChainRadar

open Relational

/-! ### Buckets -/

/-- A bucket of `mint_aggregates`. -/
structure Bucket where
  size : BucketSize
  projectId : ℕ
  start : ℤ
deriving DecidableEq

namespace Bucket

variable (b : Bucket)

/-- Its key in the table. -/
def key : ℕ × ℤ × BucketSize := (b.projectId, b.start, b.size)

/-- The event falls into the bucket. -/
def Holds (e : MintEvent) : Prop :=
  e.projectId = some b.projectId ∧ bucketStart b.size e.observedAt = b.start

instance (e : MintEvent) : Decidable (b.Holds e) :=
  (inferInstance : Decidable
    (e.projectId = some b.projectId ∧ bucketStart b.size e.observedAt = b.start))

/-- All events of the bucket. -/
def eventsIn (events : List MintEvent) : List MintEvent := events.filter fun e => b.Holds e

/-- The bucket's stored row. -/
def stored (db : RadarDb) : Option MintAggregate := db.aggregates.get? b.key

end Bucket

/-! ### Runs -/

/-- A statement of the radar that succeeds, with its answer, or an event that is removed. -/
inductive AggregateStep
  | exec (c : Cmd) (answer : c.Resp)
  | remove (e : MintEvent)

def AggregateStep.apply (db : RadarDb) : AggregateStep → RadarDb
  | .exec c answer => db.exec c answer
  | .remove e => { db with events := db.events.delete fun r => r.key = e.key }

/-- The tables after a run. -/
def RadarDb.run (db : RadarDb) (steps : List AggregateStep) : RadarDb :=
  steps.foldl AggregateStep.apply db

/-- A recomputation cuts no bucket: what it reads of a bucket is all of it. -/
def AggregateStep.Whole (db : RadarDb) : AggregateStep → Prop
  | .exec (.refreshBuckets size projectId) now =>
    ∀ e ∈ db.events, ∀ e' ∈ db.events, e.projectId = some projectId →
      e'.projectId = some projectId →
      bucketStart size e.observedAt = bucketStart size e'.observedAt →
      now - 48 * hour < e.observedAt → now - 48 * hour < e'.observedAt
  | _ => True

/-- The step takes an event out of the bucket. -/
def AggregateStep.Removes (db : RadarDb) (b : Bucket) : AggregateStep → Prop
  | .exec _ _ => False
  | .remove e => ∃ r ∈ db.events, r.key = e.key ∧ b.Holds r

/-- No recomputation of the run cuts a bucket. -/
def AllWhole : RadarDb → List AggregateStep → Prop
  | _, [] => True
  | db, step :: steps => step.Whole db ∧ AllWhole (step.apply db) steps

/-- The run takes no event out of the bucket. -/
def NoneRemoved (b : Bucket) : RadarDb → List AggregateStep → Prop
  | _, [] => True
  | db, step :: steps => ¬step.Removes db b ∧ NoneRemoved b (step.apply db) steps

variable {db : RadarDb} {b : Bucket} {step : AggregateStep} {size : BucketSize} {projectId : ℕ}
  {now : ℤ}

/-! ### One recomputation -/

/-- Of a bucket that is not cut, the recomputation reads every event. -/
theorem windowed_eq (hwhole : (AggregateStep.exec (.refreshBuckets size projectId) now).Whole db)
    {e : MintEvent} (he : e ∈ db.events) (hproject : e.projectId = some projectId)
    (hrecent : now - 48 * hour < e.observedAt) :
    (eventsSince db.events.rows projectId (now - 48 * hour)).filter
        (fun e' => bucketStart size e'.observedAt = bucketStart size e.observedAt) =
      (Bucket.mk size projectId (bucketStart size e.observedAt)).eventsIn db.events.rows := by
  rw [eventsSince, List.filter_filter, Bucket.eventsIn]
  refine List.filter_congr fun e' he' => ?_
  rw [Bool.eq_iff_iff, Bool.and_eq_true, decide_eq_true_iff, decide_eq_true_iff,
    decide_eq_true_iff]
  constructor
  · intro h
    exact ⟨h.2.1, h.1⟩
  · intro h
    exact ⟨h.2, h.1, hwhole e he e' he' hproject h.1 h.2.symm hrecent⟩

/-- **A bucket that is not cut is recomputed from all its events.** -/
theorem refreshed_eq (hwhole : (AggregateStep.exec (.refreshBuckets size projectId) now).Whole db)
    {e : MintEvent} (he : e ∈ db.events) (hproject : e.projectId = some projectId)
    (hrecent : now - 48 * hour < e.observedAt) (b : Bucket)
    (hb : b = ⟨size, projectId, bucketStart size e.observedAt⟩) :
    b.stored (db.exec (.refreshBuckets size projectId) now) =
      some ⟨b.projectId, b.start, b.size, quantityOf (b.eventsIn db.events.rows),
        recipientsOf (b.eventsIn db.events.rows), now⟩ := by
  subst hb
  have hmem : aggregateAt db.events.rows size projectId now (bucketStart size e.observedAt) ∈
      aggregatesAt db.events.rows size projectId now := by
    refine List.mem_map_of_mem (List.mem_dedup.mpr (List.mem_map.mpr ⟨e, ?_, rfl⟩))
    exact List.mem_filter.mpr ⟨he, decide_eq_true ⟨hproject, hrecent⟩⟩
  refine (Table.get?_foldl_upsert_of_mem (nodup_aggregatesAt db.events.rows) hmem).trans ?_
  rw [aggregateAt, windowed_eq hwhole he hproject hrecent]

/-- A bucket without an event in the window is left as it is. -/
theorem refreshed_of_old
    (h : ¬(b.size = size ∧ b.projectId = projectId ∧
      ∃ e ∈ db.events, b.Holds e ∧ now - 48 * hour < e.observedAt)) :
    b.stored (db.exec (.refreshBuckets size projectId) now) = b.stored db := by
  refine Table.get?_foldl_upsert_of_forall_ne fun r hr hkey => h ?_
  obtain ⟨start, hstart, rfl⟩ := List.mem_map.mp hr
  obtain ⟨e, he, rfl⟩ := List.mem_map.mp (List.mem_dedup.mp hstart)
  obtain ⟨he, hrecent⟩ := List.mem_filter.mp he
  obtain ⟨hproject, hrecent⟩ := of_decide_eq_true hrecent
  obtain ⟨hid, hkey⟩ := Prod.mk.inj hkey
  obtain ⟨hstart, hsize⟩ := Prod.mk.inj hkey
  have hid : projectId = b.projectId := hid
  have hsize : size = b.size := hsize
  refine ⟨hsize.symm, hid.symm, e, he, ⟨hproject.trans (congrArg some hid), ?_⟩, hrecent⟩
  rw [← hsize]
  exact hstart

/-! ### Counts only grow -/

/-- The counts of some events are at most those of others. -/
def CountsLe (events events' : List MintEvent) : Prop :=
  quantityOf events ≤ quantityOf events' ∧ recipientsOf events ≤ recipientsOf events'

theorem CountsLe.refl (events : List MintEvent) : CountsLe events events := ⟨le_rfl, le_rfl⟩

theorem countsLe_of_sublist {events events' : List MintEvent} (h : events.Sublist events') :
    CountsLe (b.eventsIn events) (b.eventsIn events') :=
  ⟨total_mono (h.filter _), countDistinct_mono (h.filter _).subset⟩

/-- Rows with another finality count as they did. -/
theorem countsLe_map {events : List MintEvent} {g : MintEvent → MintEvent}
    (hg : ∀ e, (g e).projectId = e.projectId ∧ (g e).observedAt = e.observedAt ∧
      (g e).quantity = e.quantity ∧ (g e).recipient = e.recipient) :
    CountsLe (b.eventsIn events) (b.eventsIn (events.map g)) := by
  have hmap : b.eventsIn (events.map g) = (b.eventsIn events).map g := by
    rw [Bucket.eventsIn, List.filter_map, Bucket.eventsIn]
    refine congrArg (List.map g) (List.filter_congr fun e _ => ?_)
    simp only [Function.comp, Bucket.Holds, (hg e).1, (hg e).2.1]
  rw [hmap]
  refine ⟨le_of_eq ?_, le_of_eq ?_⟩
  · rw [quantityOf, quantityOf, total, total, List.map_map]
    exact congrArg List.sum (List.map_congr_left fun e _ => (hg e).2.2.1.symm)
  · rw [recipientsOf, recipientsOf, countDistinct, countDistinct, List.map_map]
    exact congrArg (fun l => l.dedup.length) (List.map_congr_left fun e _ => (hg e).2.2.2.symm)

/-- A step that takes nothing out of a bucket leaves at least its counts. -/
theorem counts_step (hkept : ¬step.Removes db b) :
    CountsLe (b.eventsIn db.events.rows) (b.eventsIn (step.apply db).events.rows) := by
  cases step with
  | exec c answer =>
    cases c with
    | insertMintEvent row =>
      refine countsLe_of_sublist ?_
      show db.events.rows.Sublist (db.events.insert row).rows
      rw [Table.insert]
      split
      · exact List.Sublist.refl _
      · exact List.sublist_cons_self _ _
    | markEventsFinalized =>
      refine countsLe_map fun e => ?_
      split <;> exact ⟨rfl, rfl, rfl, rfl⟩
    | unfinalizeFromBlock =>
      refine countsLe_map fun e => ?_
      split <;> exact ⟨rfl, rfl, rfl, rfl⟩
    | ensureContractProject chainId contract =>
      show CountsLe _ (b.eventsIn (RadarDb.exec db _ answer).events.rows)
      rw [RadarDb.exec]
      split <;> exact CountsLe.refl _
    | _ => exact CountsLe.refl _
  | remove e =>
    have hsame : b.eventsIn (db.events.delete fun r => r.key = e.key).rows =
        b.eventsIn db.events.rows := by
      rw [Bucket.eventsIn, Table.delete, List.filter_filter, Bucket.eventsIn]
      refine List.filter_congr fun r hr => ?_
      by_cases hholds : b.Holds r
      · have hother : r.key ≠ e.key := fun hkey => hkept ⟨r, hr, hkey, hholds⟩
        simp [hholds, hother]
      · simp [hholds]
    exact hsame ▸ CountsLe.refl _

/-! ### Stored counts -/

/-- What is stored of a bucket is at most the counts of its events. -/
def Bounded (b : Bucket) (db : RadarDb) : Prop :=
  ∀ r, b.stored db = some r → r.quantity ≤ quantityOf (b.eventsIn db.events.rows) ∧
    r.uniqueRecipients ≤ recipientsOf (b.eventsIn db.events.rows)

/-- What is stored of a bucket does not decrease. -/
def Grows (b : Bucket) (db db' : RadarDb) : Prop :=
  ∀ r, b.stored db = some r → ∃ r', b.stored db' = some r' ∧ r.quantity ≤ r'.quantity ∧
    r.uniqueRecipients ≤ r'.uniqueRecipients

theorem Grows.refl (b : Bucket) (db : RadarDb) : Grows b db db :=
  fun r hr => ⟨r, hr, le_rfl, le_rfl⟩

theorem Grows.trans {db' db'' : RadarDb} (h : Grows b db db') (h' : Grows b db' db'') :
    Grows b db db'' := by
  intro r hr
  obtain ⟨r', hr', hquantity, hrecipients⟩ := h r hr
  obtain ⟨r'', hr'', hquantity', hrecipients'⟩ := h' r' hr'
  exact ⟨r'', hr'', hquantity.trans hquantity', hrecipients.trans hrecipients'⟩

/-- A step that does not write the bucket leaves it bounded. -/
theorem Bounded.of_stored (hb : Bounded b db) (hkept : ¬step.Removes db b)
    (hstored : b.stored (step.apply db) = b.stored db) : Bounded b (step.apply db) := by
  intro r hr
  obtain ⟨hquantity, hrecipients⟩ := hb r (hstored ▸ hr)
  obtain ⟨hquantity', hrecipients'⟩ := counts_step hkept
  exact ⟨hquantity.trans hquantity', hrecipients.trans hrecipients'⟩

/-- Only a recomputation writes a bucket. -/
theorem stored_step (h : ∀ size projectId now,
    step ≠ .exec (.refreshBuckets size projectId) now) : b.stored (step.apply db) = b.stored db := by
  cases step with
  | exec c answer =>
    cases c with
    | refreshBuckets size projectId => exact absurd rfl (h size projectId answer)
    | ensureContractProject chainId contract =>
      show b.stored (RadarDb.exec db _ answer) = _
      rw [RadarDb.exec]
      split <;> rfl
    | _ => rfl
  | remove e => rfl

/-- **A step that cuts no bucket loses nothing.** -/
theorem bounded_step (hb : Bounded b db) (hwhole : step.Whole db) (hkept : ¬step.Removes db b) :
    Bounded b (step.apply db) ∧ Grows b db (step.apply db) := by
  by_cases hrefresh : ∃ size projectId now, step = .exec (.refreshBuckets size projectId) now
  · obtain ⟨size, projectId, now, rfl⟩ := hrefresh
    by_cases hin : b.size = size ∧ b.projectId = projectId ∧
        ∃ e ∈ db.events, b.Holds e ∧ now - 48 * hour < e.observedAt
    · obtain ⟨rfl, rfl, e, he, hholds, hrecent⟩ := hin
      have hb' : b = ⟨b.size, b.projectId, bucketStart b.size e.observedAt⟩ := by
        rw [hholds.2]
      have hstored := refreshed_eq hwhole he hholds.1 hrecent b hb'
      refine ⟨fun r hr => ?_, fun r hr => ?_⟩
      · obtain rfl := Option.some_inj.mp (hstored.symm.trans hr)
        exact ⟨le_rfl, le_rfl⟩
      · obtain ⟨hquantity, hrecipients⟩ := hb r hr
        exact ⟨_, hstored, hquantity, hrecipients⟩
    · have hsame := refreshed_of_old hin
      exact ⟨hb.of_stored hkept hsame, fun r hr => ⟨r, hsame.trans hr, le_rfl, le_rfl⟩⟩
  · have hsame : b.stored (step.apply db) = b.stored db :=
      stored_step fun size projectId now h => hrefresh ⟨size, projectId, now, h⟩
    exact ⟨hb.of_stored hkept hsame, fun r hr => ⟨r, hsame.trans hr, le_rfl, le_rfl⟩⟩

/-! ### Whole runs -/

variable {steps steps' : List AggregateStep}

theorem run_append : db.run (steps ++ steps') = (db.run steps).run steps' := List.foldl_append

theorem allWhole_append :
    AllWhole db (steps ++ steps') ↔ AllWhole db steps ∧ AllWhole (db.run steps) steps' := by
  induction steps generalizing db with
  | nil => exact (and_iff_right trivial).symm
  | cons step steps ih =>
    show step.Whole db ∧ AllWhole (step.apply db) (steps ++ steps') ↔ _
    rw [ih]
    exact and_assoc.symm

theorem noneRemoved_append : NoneRemoved b db (steps ++ steps') ↔
    NoneRemoved b db steps ∧ NoneRemoved b (db.run steps) steps' := by
  induction steps generalizing db with
  | nil => exact (and_iff_right trivial).symm
  | cons step steps ih =>
    show ¬step.Removes db b ∧ NoneRemoved b (step.apply db) (steps ++ steps') ↔ _
    rw [ih]
    exact and_assoc.symm

theorem bounded_run (hb : Bounded b db) (hwhole : AllWhole db steps)
    (hkept : NoneRemoved b db steps) :
    Bounded b (db.run steps) ∧ Grows b db (db.run steps) := by
  induction steps generalizing db with
  | nil => exact ⟨hb, Grows.refl b db⟩
  | cons step steps ih =>
    obtain ⟨hb', hgrows⟩ := bounded_step hb hwhole.1 hkept.1
    obtain ⟨hend, hrest⟩ := ih hb' hwhole.2 hkept.2
    exact ⟨hend, hgrows.trans hrest⟩

/-- In the run no stored count of a bucket that keeps its events decreases, and a bucket that
is recomputed has the counts of all its events. -/
structure NeverLoses (db : RadarDb) (steps : List AggregateStep) : Prop where
  grows : ∀ (xs ys zs : List AggregateStep) (b : Bucket), steps = xs ++ ys ++ zs →
    NoneRemoved b db (xs ++ ys) → Grows b (db.run xs) (db.run (xs ++ ys))
  recomputed : ∀ (xs ys : List AggregateStep) (size : BucketSize) (projectId : ℕ) (now : ℤ),
    steps = xs ++ .exec (.refreshBuckets size projectId) now :: ys →
    ∀ e ∈ (db.run xs).events, e.projectId = some projectId → now - 48 * hour < e.observedAt →
      ∃ r, (Bucket.mk size projectId (bucketStart size e.observedAt)).stored
          ((db.run xs).exec (.refreshBuckets size projectId) now) = some r ∧
        r.quantity = quantityOf ((Bucket.mk size projectId
          (bucketStart size e.observedAt)).eventsIn (db.run xs).events.rows) ∧
        r.uniqueRecipients = recipientsOf ((Bucket.mk size projectId
          (bucketStart size e.observedAt)).eventsIn (db.run xs).events.rows)

/-- **Aggregates never lose mints** in a run that starts without aggregates and in which no
recomputation cuts a bucket at its 48 hours, whatever else the run does. -/
theorem aggregates_never_lose (hempty : db.aggregates.rows = []) (hwhole : AllWhole db steps) :
    NeverLoses db steps := by
  constructor
  · intro xs ys zs b hsteps hkept
    subst hsteps
    have hwhole := (allWhole_append.mp hwhole).1
    have hb : Bounded b db := by
      intro r hr
      have hmem := (Table.get?_eq_some.mp hr).1
      rw [← Table.mem_rows, hempty] at hmem
      exact absurd hmem List.not_mem_nil
    obtain ⟨hwhole, hwhole'⟩ := allWhole_append.mp hwhole
    obtain ⟨hkept, hkept'⟩ := noneRemoved_append.mp hkept
    rw [run_append]
    exact (bounded_run (bounded_run hb hwhole hkept).1 hwhole' hkept').2
  · intro xs ys size projectId now hsteps e he hproject hrecent
    subst hsteps
    exact ⟨_, refreshed_eq (allWhole_append.mp hwhole).2.1 he hproject hrecent _ rfl, rfl, rfl⟩

/-! ### Samples -/

namespace Sample

/-- A project's first mint, a minute into an hour; its second, at ten to the next; and one two
days after those. -/
def firstMint : MintEvent := ⟨4663, "0x01", 0, 1, "0xb1", some 7, "0xaa", 1, false, 60000⟩

def secondMint : MintEvent := ⟨4663, "0x02", 0, 2, "0xb2", some 7, "0xbb", 1, false, 3000000⟩

def lateMint : MintEvent :=
  ⟨4663, "0x03", 0, 3, "0xb3", some 7, "0xaa", 1, false, 172900000⟩

def noRows : RadarDb :=
  { events := .empty, projects := .empty, checkpoints := .empty, aggregates := .empty
    activity := .empty, holders := .empty }

/-- Two mints, and the hour recomputed. -/
def firstHour : List AggregateStep :=
  [.exec (.insertMintEvent firstMint) true, .exec (.insertMintEvent secondMint) true,
    .exec (.refreshBuckets .hour 7) 3600000]

/-- A third mint two days later, and a recomputation whose cutoff lies between the first two. -/
def twoDaysLater : List AggregateStep :=
  [.exec (.insertMintEvent lateMint) true, .exec (.refreshBuckets .hour 7) 172920000]

def firstBucket : Bucket := ⟨.hour, 7, 0⟩

end Sample

theorem aggregates_never_lose_firstHour : NeverLoses Sample.noRows Sample.firstHour := by
  refine aggregates_never_lose rfl ⟨trivial, trivial, ?_, trivial⟩
  show ∀ e ∈ (Sample.noRows.run (Sample.firstHour.take 2)).events.rows,
    ∀ e' ∈ (Sample.noRows.run (Sample.firstHour.take 2)).events.rows, e.projectId = some 7 →
      e'.projectId = some 7 → bucketStart .hour e.observedAt = bucketStart .hour e'.observedAt →
      (3600000 : ℤ) - 48 * hour < e.observedAt → (3600000 : ℤ) - 48 * hour < e'.observedAt
  decide

/-- Of the two mints of the hour one is left. -/
theorem aggregates_lose : ¬NeverLoses Sample.noRows (Sample.firstHour ++ Sample.twoDaysLater) := by
  intro h
  have hkept : NoneRemoved Sample.firstBucket Sample.noRows
      (Sample.firstHour ++ Sample.twoDaysLater) := ⟨id, id, id, id, id, trivial⟩
  have htwo : (Sample.firstBucket.stored (Sample.noRows.run Sample.firstHour)).map
      MintAggregate.quantity = some 2 := by decide
  have hone : (Sample.firstBucket.stored
      (Sample.noRows.run (Sample.firstHour ++ Sample.twoDaysLater))).map
      MintAggregate.quantity = some 1 := by decide
  obtain ⟨r, hr, hquantity⟩ := Option.map_eq_some_iff.mp htwo
  obtain ⟨r', hr', hle, -⟩ := h.grows Sample.firstHour Sample.twoDaysLater [] _
    (List.append_nil _).symm hkept r hr
  rw [hr', Option.map_some, Option.some_inj] at hone
  omega

end ChainRadar
