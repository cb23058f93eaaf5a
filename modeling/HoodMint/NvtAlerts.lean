/-
What the scanner loses over many passes.

* `ScanRun`, `step` — the stored keys, pass by pass, with the keys that have been delivered, those
  that were dropped while their hit was still reported, and those delivered again while stored;
* `NothingLost` — a key is stored only when it has been delivered, none is dropped so, and none is
  delivered again unless somebody forces it;
* `Delivers` — what it takes: a pass that sends a list shows every hit it alerts, in one of the
  first forty mints, in an embed that still has its line and is acknowledged, and none that has
  been alerted before; and no hit it reports has its key before the last two hundred
  (`nothingLost_of_reach`).
-/
import HoodMint.Lib.Transition
import HoodMint.NvtScan

namespace NvtScan

open Transition

/-! ### Passes -/

/-- The stored keys, those delivered so far, those dropped while still reported, and those that a
pass nobody has forced delivered while they were stored. -/
structure ScanRun where
  lastAlertedKeys : List String
  delivered : List String
  dropped : List String
  again : List String

namespace ScanRun

/-- No key. -/
def init : ScanRun := ⟨[], [], [], []⟩

/-- The keys stored after a pass; one that fails to write them leaves the old ones. -/
def keysAfter (s : ScanRun) (p : Pass) : List String :=
  if p.written then trimmedKeys (p.newAlertedKeys s.lastAlertedKeys) else s.lastAlertedKeys

/-- A pass. -/
def step (f : Formats) (s : ScanRun) (p : Pass) : Option ScanRun :=
  some
    { lastAlertedKeys := s.keysAfter p
      delivered := p.delivered f s.lastAlertedKeys ++ s.delivered
      dropped := (s.lastAlertedKeys.filter fun key =>
        key ∈ p.reported.map Hit.key ∧ key ∉ s.keysAfter p) ++ s.dropped
      again := (if p.forceSend then [] else
        (p.delivered f s.lastAlertedKeys).filter (· ∈ s.lastAlertedKeys)) ++ s.again }

end ScanRun

/-- **No hit is lost.**  A key that is stored has been delivered, none has been dropped while its
hit was reported, and none has been delivered again while it was stored. -/
structure NothingLost (s : ScanRun) : Prop where
  delivered : ∀ key ∈ s.lastAlertedKeys, key ∈ s.delivered
  kept : s.dropped = []
  once : s.again = []

/-! ### What it takes -/

/-- The key is shown by its part of a digest, one of the first five, and the part is
acknowledged. -/
def Pass.Reaches (f : Formats) (p : Pass) (items : List Item) (key : String) : Prop :=
  ∃ i, i < 40 ∧ p.acknowledged (i / 8) = true ∧
    key ∈ (partAt (items.insertionSort fun a b => a.start ≤ b.start) p.hours (i / 8 * 8)).showsAt f
      p.now (i % 8)

instance (f : Formats) (p : Pass) (items : List Item) (key : String) :
    Decidable (p.Reaches f items key) :=
  (inferInstance : Decidable (∃ i, i < 40 ∧ p.acknowledged (i / 8) = true ∧
    key ∈ (partAt (items.insertionSort fun a b => a.start ≤ b.start) p.hours (i / 8 * 8)).showsAt f
      p.now (i % 8)))

/-- The pass sends one of its lists. -/
def Shape.IsList : Shape → Prop
  | .digest | .list _ => True
  | .card _ | .nothing => False

instance : DecidablePred Shape.IsList := fun shape =>
  match shape with
  | .digest | .list _ => isTrue trivial
  | .card _ | .nothing => isFalse id

/-- The condition on a pass, in the state before it. -/
def Delivers (f : Formats) (s : ScanRun) (p : Pass) : Prop :=
  (p.written = true →
    ((p.shape s.lastAlertedKeys).IsList → ∀ h ∈ p.hits s.lastAlertedKeys,
      p.Reaches f (p.listedMints (p.shape s.lastAlertedKeys)) h.key) ∧
    ∀ key ∈ (p.newAlertedKeys s.lastAlertedKeys).take
        ((p.newAlertedKeys s.lastAlertedKeys).length - 200),
      key ∉ p.reported.map Hit.key) ∧
    (p.forceSend = false → (p.shape s.lastAlertedKeys).IsList → ∀ key ∈ s.lastAlertedKeys,
      ¬ p.Reaches f (p.listedMints (p.shape s.lastAlertedKeys)) key)

instance (f : Formats) (s : ScanRun) : DecidablePred (Delivers f s) := fun p =>
  (inferInstance : Decidable ((_ → (_ → ∀ h ∈ p.hits s.lastAlertedKeys,
    p.Reaches f (p.listedMints (p.shape s.lastAlertedKeys)) h.key) ∧
      ∀ key ∈ (p.newAlertedKeys s.lastAlertedKeys).take
        ((p.newAlertedKeys s.lastAlertedKeys).length - 200), key ∉ p.reported.map Hit.key) ∧
    (_ → _ → ∀ key ∈ s.lastAlertedKeys,
      ¬ p.Reaches f (p.listedMints (p.shape s.lastAlertedKeys)) key)))

/-! ### The digest -/

section

variable {f : Formats} {now : ℤ} {sorted items : List Item} {hours room i n : ℕ} {key : String}

/-- The `n`-th message of the loop is the `n`-th part. -/
theorem digestParts_getElem? {message : Message} :
    (digestParts f now sorted hours room i)[n]? = some message ↔
      n < room ∧ i + 8 * n < sorted.length ∧
        message = ⟨(partAt sorted hours (i + 8 * n)).embed f now (i + 8 * n),
          (partAt sorted hours (i + 8 * n)).shows f now⟩ := by
  induction room generalizing i n with
  | zero => simp [digestParts]
  | succ room ih =>
    rw [digestParts]
    split
    · next hi =>
      cases n with
      | zero =>
        rw [List.getElem?_cons_zero, Option.some_inj]
        exact ⟨fun h => ⟨by omega, hi, h.symm⟩, fun h => h.2.2.symm⟩
      | succ n =>
        have hshift : i + 8 + 8 * n = i + 8 * (n + 1) := by omega
        rw [List.getElem?_cons_succ, ih, hshift, Nat.succ_lt_succ_iff]
    · next hi =>
      refine iff_of_false ?_ fun h => hi (by omega)
      rw [List.getElem?_nil]
      exact nofun

/-- A part shows what one of its mints shows. -/
theorem Part.mem_shows {part : Part} {k : ℕ} (h : key ∈ part.showsAt f now k) :
    k < part.slice.length ∧ key ∈ part.shows f now := by
  have hk : k < part.slice.length := by
    by_contra hle
    rw [Part.showsAt, List.getElem?_eq_none (not_lt.mp hle)] at h
    exact absurd h List.not_mem_nil
  exact ⟨hk, List.mem_flatMap.mpr ⟨k, List.mem_range.mpr hk, h⟩⟩

/-- What reaches Discord is what is in a message that is acknowledged. -/
theorem Pass.reaches_key_iff {p : Pass} : p.Reaches f items key ↔
    ∃ n, ∃ message : Message,
      (buildUpcomingDigestEmbeds f p.now items p.hours)[n]? = some message ∧
        p.acknowledged n = true ∧ key ∈ message.shows := by
  have hnth : ∀ (n : ℕ) (message : Message),
      (buildUpcomingDigestEmbeds f p.now items p.hours)[n]? = some message →
      key ∈ message.shows → (digestParts f p.now
        (items.insertionSort fun a b => a.start ≤ b.start) p.hours 5 0)[n]? = some message := by
    intro n message hmessage hkey
    rw [buildUpcomingDigestEmbeds] at hmessage
    split at hmessage
    · obtain rfl := List.mem_singleton.mp (List.mem_of_getElem? hmessage)
      exact absurd hkey List.not_mem_nil
    · exact hmessage
  constructor
  · rintro ⟨i, hi, hack, hshows⟩
    obtain ⟨hk, hkey⟩ := Part.mem_shows hshows
    have hlen : i / 8 * 8 < (items.insertionSort fun a b => a.start ≤ b.start).length := by
      have hslice := hk
      rw [partAt, List.length_take, List.length_drop] at hslice
      omega
    have hne : items ≠ [] := by
      rintro rfl
      simp at hlen
    have hat : 0 + 8 * (i / 8) = i / 8 * 8 := by omega
    rw [buildUpcomingDigestEmbeds, if_neg hne]
    refine ⟨i / 8, _, digestParts_getElem?.mpr ⟨by omega, hat ▸ hlen, rfl⟩, hack, ?_⟩
    rw [hat]
    exact hkey
  · rintro ⟨n, message, hmessage, hack, hkey⟩
    obtain ⟨hn, -, rfl⟩ := digestParts_getElem?.mp (hnth n message hmessage hkey)
    obtain ⟨k, hk, hshows⟩ := List.mem_flatMap.mp hkey
    have hk8 : k < 8 := (List.mem_range.mp hk).trans_le (List.length_take_le _ _)
    have hdiv : (8 * n + k) / 8 = n := by omega
    have hmod : (8 * n + k) % 8 = k := by omega
    refine ⟨8 * n + k, by omega, hdiv.symm ▸ hack, ?_⟩
    rw [hdiv, hmod, Nat.mul_comm n 8, ← Nat.zero_add (8 * n)]
    exact hshows

end

/-! ### Keys -/

theorem mem_addKey {keys : List String} {key key' : String} :
    key' ∈ addKey keys key ↔ key' ∈ keys ∨ key' = key := by
  rw [addKey]
  split
  · next hmem =>
    refine ⟨Or.inl, ?_⟩
    rintro (h | rfl)
    · exact h
    · exact hmem
  · rw [List.mem_append, List.mem_singleton]

theorem mem_foldl_addKey {keys added : List String} {key : String} :
    key ∈ added.foldl addKey keys ↔ key ∈ keys ∨ key ∈ added := by
  induction added generalizing keys with
  | nil => simp
  | cons k added ih => rw [List.foldl_cons, ih, mem_addKey, List.mem_cons, or_assoc]

section

variable {f : Formats} {s s' : ScanRun} {p : Pass} {key : String} {keys : List String}

/-- A pass adds keys, and each of them is that of a hit: of the card that is acknowledged, or of
any hit when it sends a list. -/
theorem mem_newAlertedKeys :
    key ∈ p.newAlertedKeys keys ↔ key ∈ keys ∨
      (∃ hit, p.shape keys = .card hit ∧ p.acknowledged 0 = true ∧ key = hit.key) ∨
      ((p.shape keys).IsList ∧ ∃ h ∈ p.hits keys, h.key = key) := by
  rw [Pass.newAlertedKeys]
  cases p.shape keys with
  | digest =>
    rw [mem_foldl_addKey, List.mem_map]
    simp [Shape.IsList]
  | list hits =>
    rw [mem_foldl_addKey, List.mem_map]
    simp [Shape.IsList]
  | card hit =>
    by_cases hack : p.acknowledged 0 = true
    · simp [hack, mem_addKey, Shape.IsList]
    · simp [hack, Shape.IsList]
  | nothing => simp [Shape.IsList]

theorem mem_delivered :
    key ∈ p.delivered f keys ↔ ∃ n message, (p.messages f keys)[n]? = some message ∧
      p.acknowledged n = true ∧ key ∈ message.shows := by
  rw [Pass.delivered, List.mem_flatMap]
  constructor
  · rintro ⟨⟨message, n⟩, hmem, hkey⟩
    have hat := List.mem_zipIdx_iff_getElem?.mp hmem
    by_cases hack : p.acknowledged n = true
    · exact ⟨n, message, hat, hack, by simpa [hack] using hkey⟩
    · simp [hack] at hkey
  · rintro ⟨n, message, hat, hack, hkey⟩
    exact ⟨(message, n), List.mem_zipIdx_iff_getElem?.mpr hat, by simpa [hack] using hkey⟩

/-- A list that a pass sends has the messages of a digest. -/
theorem messages_of_isList (h : (p.shape keys).IsList) :
    p.messages f keys =
      buildUpcomingDigestEmbeds f p.now (p.listedMints (p.shape keys)) p.hours := by
  rw [Pass.messages]
  cases hshape : p.shape keys with
  | digest => rfl
  | list hits => rfl
  | card hit =>
    rw [hshape] at h
    exact absurd h id
  | nothing =>
    rw [hshape] at h
    exact absurd h id

/-- The card that a pass sends is of a hit that has not been alerted. -/
theorem card_not_mem {hit : Hit} (h : p.shape keys = .card hit) (hforce : p.forceSend = false) :
    hit.key ∉ keys := by
  have hhit : hit ∈ p.hits keys := by
    rw [Pass.shape] at h
    split at h
    · split at h <;> cases h
    · split at h
      · split at h
        · cases h
        · next only honly =>
          split at h
          · cases h
          · cases h
            rw [honly]
            exact List.mem_singleton_self _
        · cases h
      · cases h
  simpa [Pass.hits, hforce] using (List.mem_filter.mp hhit).2

/-- What a list delivers reaches Discord with it. -/
theorem delivered_of_isList (h : (p.shape keys).IsList) :
    key ∈ p.delivered f keys ↔ p.Reaches f (p.listedMints (p.shape keys)) key := by
  rw [mem_delivered, messages_of_isList h, Pass.reaches_key_iff]

/-- A card delivers the key of its hit. -/
theorem delivered_of_card {hit : Hit} (h : p.shape keys = .card hit) :
    key ∈ p.delivered f keys ↔ p.acknowledged 0 = true ∧ key = hit.key := by
  have hmessages : p.messages f keys = [hitCard hit p.hours] := by rw [Pass.messages, h]
  rw [mem_delivered, hmessages]
  constructor
  · rintro ⟨n, message, hmessage, hack, hkey⟩
    obtain rfl := List.mem_singleton.mp (List.mem_of_getElem? hmessage)
    obtain rfl : n = 0 := Nat.lt_one_iff.mp (List.getElem?_eq_some_iff.mp hmessage).1
    exact ⟨hack, List.mem_singleton.mp hkey⟩
  · rintro ⟨hack, rfl⟩
    exact ⟨0, _, rfl, hack, List.mem_singleton_self _⟩

/-- Nothing is delivered again by a pass that shows nothing alerted before. -/
theorem not_again (hforce : p.forceSend = false)
    (h : (p.shape keys).IsList → ∀ key ∈ keys,
      ¬ p.Reaches f (p.listedMints (p.shape keys)) key) :
    ∀ key ∈ p.delivered f keys, key ∉ keys := by
  intro key hkey hold
  cases hshape : p.shape keys with
  | card hit =>
    obtain ⟨_, rfl⟩ := (delivered_of_card hshape).mp hkey
    exact card_not_mem hshape hforce hold
  | nothing =>
    rw [Pass.delivered, Pass.messages, hshape] at hkey
    exact absurd hkey List.not_mem_nil
  | digest =>
    have hlist : (p.shape keys).IsList := by rw [hshape]; exact trivial
    exact h hlist key hold ((delivered_of_isList hlist).mp hkey)
  | list hits =>
    have hlist : (p.shape keys).IsList := by rw [hshape]; exact trivial
    exact h hlist key hold ((delivered_of_isList hlist).mp hkey)

/-- **Step.**  A pass in the condition stores only what has been delivered, drops nothing that it
reports, and delivers nothing again. -/
theorem nothingLost_step (hs : NothingLost s) (hφ : Delivers f s p) (h : s.step f p = some s') :
    NothingLost s' := by
  obtain rfl := Option.some_inj.mp h
  have honce : (if p.forceSend then [] else
      (p.delivered f s.lastAlertedKeys).filter (· ∈ s.lastAlertedKeys)) ++ s.again = [] := by
    refine List.append_eq_nil_iff.mpr ⟨?_, hs.once⟩
    split
    · rfl
    · next hforce =>
      refine List.filter_eq_nil_iff.mpr fun key hkey hold => ?_
      exact not_again (Bool.not_eq_true _ ▸ hforce) (hφ.2 (Bool.not_eq_true _ ▸ hforce)) key hkey
        (of_decide_eq_true hold)
  by_cases hwritten : p.written = true
  · obtain ⟨hreaches, htrimmed⟩ := hφ.1 hwritten
    have hafter : s.keysAfter p = trimmedKeys (p.newAlertedKeys s.lastAlertedKeys) :=
      if_pos hwritten
    refine ⟨fun key hkey => ?_, ?_, honce⟩
    · have hkey : key ∈ p.newAlertedKeys s.lastAlertedKeys :=
        List.mem_of_mem_drop (hafter ▸ hkey)
      rcases mem_newAlertedKeys.mp hkey with
        hold | ⟨hit, hshape, hack, rfl⟩ | ⟨hlist, hit, hhit, rfl⟩
      · exact List.mem_append_right _ (hs.delivered key hold)
      · exact List.mem_append_left _ ((delivered_of_card hshape).mpr ⟨hack, rfl⟩)
      · exact List.mem_append_left _ ((delivered_of_isList hlist).mpr (hreaches hlist hit hhit))
    · refine List.append_eq_nil_iff.mpr ⟨List.filter_eq_nil_iff.mpr ?_, hs.kept⟩
      intro key hkey hdropped
      obtain ⟨hreported, hgone⟩ := of_decide_eq_true hdropped
      have hnew : key ∈ p.newAlertedKeys s.lastAlertedKeys := mem_newAlertedKeys.mpr (Or.inl hkey)
      rw [hafter, trimmedKeys] at hgone
      -- a key that is not among the last two hundred is before them
      rw [← List.take_append_drop ((p.newAlertedKeys s.lastAlertedKeys).length - 200)
        (p.newAlertedKeys s.lastAlertedKeys), List.mem_append] at hnew
      exact htrimmed key (hnew.resolve_right hgone) hreported
  · have hafter : s.keysAfter p = s.lastAlertedKeys := if_neg hwritten
    refine ⟨fun key hkey => List.mem_append_right _ (hs.delivered key (hafter ▸ hkey)), ?_, honce⟩
    refine List.append_eq_nil_iff.mpr ⟨List.filter_eq_nil_iff.mpr ?_, hs.kept⟩
    intro key hkey hdropped
    obtain ⟨_, hgone⟩ := of_decide_eq_true hdropped
    exact hgone (hafter ▸ hkey)

/-- **Run.**  In every run whose passes all meet the condition, no hit is lost. -/
theorem nothingLost_of_reach (h : Reach (ScanRun.step f) (Delivers f) ScanRun.init s) :
    NothingLost s := by
  refine h.invariant ⟨?_, rfl, rfl⟩ fun s p s' _ hs hφ hstep => nothingLost_step hs hφ hstep
  intro key hkey
  exact absurd hkey List.not_mem_nil

end

/-! ### Samples -/

namespace Sample

def formats : Formats := ⟨fun _ => "<t>", fun _ => "2026-09-01 07:00", id⟩

def stage : Stage := ⟨"Allowlist", "gtd", some ⟨"0.01", false⟩, "ETH", 1000, none⟩

def mint : Mint :=
  ⟨"robinhood:0xc0", "robinhood", "0xc0", "Hood", "hood", ⟨none, none, none⟩, [stage], "upcoming",
    "hot"⟩

/-- A pass that finds one account on the list of one stage. -/
def pass (digest : Bool) (acknowledged : Bool) : Pass where
  now := 0
  lookForwardHours := 24
  notifyWhitelistHits := none
  notifyUpcomingDigest := some digest
  includeLivePublic := none
  forceSend := false
  sendUpcomingDigest := false
  mints := [mint]
  accounts := [⟨"0xAA", "main"⟩]
  listed := fun _ => [⟨some "hood", none, [(some "Allowlist", none)]⟩]
  acknowledged := fun _ => acknowledged
  written := true

end Sample

/-- A card that fails is sent again, its key is stored then, and a pass that sends none and a digest
that fails keep it. -/
theorem nothingLost_of_reach_again :
    ∃ s, Reach (ScanRun.step Sample.formats) (Delivers Sample.formats) ScanRun.init s ∧
      s.lastAlertedKeys.length = 1 ∧ NothingLost s := by
  obtain ⟨s, hreach, hstored⟩ := exists_reach_of_run (ScanRun.step Sample.formats)
    (Delivers Sample.formats) ScanRun.init
    [Sample.pass false false, Sample.pass false true, Sample.pass false true,
      Sample.pass true false]
    (fun s => s.lastAlertedKeys.length = 1) (by decide) (by decide)
  exact ⟨s, hreach, of_decide_eq_true hstored, nothingLost_of_reach hreach⟩

/-- A digest that Discord does not acknowledge stores the key of its hit. -/
theorem failed_digest_loses :
    (∃ s, Reachable (ScanRun.step Sample.formats) ScanRun.init s ∧
      s.lastAlertedKeys ≠ [] ∧ s.delivered = []) ∧
    ¬ ∀ f s, Reachable (ScanRun.step f) ScanRun.init s → NothingLost s := by
  have hlost : ∃ s, Reachable (ScanRun.step Sample.formats) ScanRun.init s ∧
      s.lastAlertedKeys ≠ [] ∧ s.delivered = [] := by
    obtain ⟨s, hreach, hlost⟩ := exists_reachable_of_run (ScanRun.step Sample.formats) ScanRun.init
      [Sample.pass true false] (fun s => s.lastAlertedKeys ≠ [] ∧ s.delivered = [])
      (by decide)
    exact ⟨s, hreach, of_decide_eq_true hlost⟩
  refine ⟨hlost, fun h => ?_⟩
  obtain ⟨s, hreach, hkeys, hdelivered⟩ := hlost
  obtain ⟨key, hkey⟩ := List.exists_mem_of_ne_nil _ hkeys
  have hmem := (h Sample.formats s hreach).delivered key hkey
  rw [hdelivered] at hmem
  exact List.not_mem_nil hmem

end NvtScan
