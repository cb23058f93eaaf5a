/-
One stage for each row of the feed (`decisionStage` of `apps/web/src/lib/mint-presentation.ts`).

* `decisionStage` — the stage that a card shows, read off the columns of the row;
* `OneStage` — the stage of the whitelist test, that of the price filter and that of the card are
  one row of `drop_stages`, or none;
* `StagesAgree` — what it takes: the subqueries have no tie to break, an open stage without a
  price has no priced one behind it, and the start kept on the project is the next stage's
  (`oneStage_iff`).
-/
import HoodMint.Feed
import HoodMint.Lib.LimitOne

namespace Feed

open Relational Projects Eligibility

/-! ### The card -/

inductive Timing | live | next | unknown
deriving DecidableEq

/-- `DecisionStage`. -/
structure DecisionStage where
  id : Option String
  label : Option String
  kind : Option StageKind
  priceWei : Option String
  maxPerWallet : Option ℕ
  startsAt : Option ℤ
  endsAt : Option ℤ
  timing : Timing
deriving DecidableEq

/-- `decisionStage`. -/
def decisionStage (row : FeedRow) : DecisionStage :=
  if row.stageLabel ≠ none ∨ row.stageStartsAt ≠ none then
    ⟨row.stageId, row.stageLabel, row.stageKind, row.stagePriceWei, row.stageMaxPerWallet,
      row.stageStartsAt, row.stageEndsAt, .live⟩
  else if row.nextStageLabel ≠ none ∨ row.project.nextStageStart ≠ none then
    ⟨row.nextStageId, row.nextStageLabel, row.nextStageKind, row.nextStagePriceWei,
      row.nextStageMaxPerWallet, row.project.nextStageStart, row.nextStageEndsAt, .next⟩
  else ⟨none, none, none, none, none, none, none, .unknown⟩

/-- The columns of one row, or none at all. -/
structure DecisionStage.Shows (view : DecisionStage) (d : Option StageRow) : Prop where
  id : view.id = d.map (·.id)
  label : view.label = d.map (·.label)
  kind : view.kind = d.map (·.type)
  priceWei : view.priceWei = d.bind (·.priceWei)
  maxPerWallet : view.maxPerWallet = d.bind (·.maxPerWallet)
  startsAt : view.startsAt = d.map (·.startsAt)
  endsAt : view.endsAt = d.bind (·.endsAt)

/-- Every subquery meets every row. -/
def Scans.Of (scans : Scans) (db : FeedDb) : Prop := ∀ site, (scans site).Perm db.stages.rows

/-- **One stage** decides, filters and is shown. -/
def OneStage (db : FeedDb) (scans : Scans) (now : ℤ) (p : FeedProject) : Prop :=
  ∃ d : Option StageRow, (∀ s ∈ d, s ∈ db.stages) ∧
    decisionStageId scans p.id now = d.map (·.id) ∧
    decisionStagePrice scans p.id now = d.bind (·.priceWei) ∧
    (decisionStage (feedRow scans now p)).Shows d

section

variable (db : FeedDb) (p : FeedProject) (now : ℤ)

/-- An open stage of a project that a subquery may give. -/
def TopCurrent (s : StageRow) : Prop :=
  IsTop currentRank (currentStages db.stages.rows p.id now) s

/-- An upcoming stage of a project that a subquery may give. -/
def TopNext (s : StageRow) : Prop := IsTop nextRank (nextStages db.stages.rows p.id now) s

/-- What the columns need to be those of one row. -/
structure StagesAgree : Prop where
  oneCurrent : OneTop currentRank (currentStages db.stages.rows p.id now)
  /-- `coalesce` passes over an open stage that has no price. -/
  priced : ∀ c, TopCurrent db p now c → c.priceWei = none →
    ∀ n, TopNext db p now n → n.priceWei = none
  /-- Without an open stage the next one is shown, and its start is read off the project. -/
  oneNext : currentStages db.stages.rows p.id now = [] →
    OneTop nextRank (nextStages db.stages.rows p.id now) ∧
      p.nextStageStart =
        ((nextStages db.stages.rows p.id now).argmin nextRank).map (·.startsAt)

end

/-! ### What a subquery gives -/

section

variable {db : FeedDb} {p : FeedProject} {now : ℤ} {scans : Scans} {c n : StageRow}
  {α : Type}

theorem mem_of_topCurrent (h : TopCurrent db p now c) : c ∈ db.stages :=
  (List.mem_filter.mp h.1).1

theorem mem_of_topNext (h : TopNext db p now n) : n ∈ db.stages := (List.mem_filter.mp h.1).1

/-- A subquery for an open stage gives one of the first. -/
theorem currentStageCol_eq (col : StageRow → Option α) (hscans : scans.Of db) (site : Site) :
    (currentStages db.stages.rows p.id now = [] ∧
        currentStageCol col (scans site) p.id now = none) ∨
      ∃ c, TopCurrent db p now c ∧ currentStageCol col (scans site) p.id now = col c := by
  have hperm : (currentStages (scans site) p.id now).Perm
      (currentStages db.stages.rows p.id now) := (hscans site).filter _
  cases h : (currentStages (scans site) p.id now).argmin currentRank with
  | none =>
    rw [currentStageCol, h]
    rw [List.argmin_eq_none] at h
    exact Or.inl ⟨List.nil_perm.mp (h ▸ hperm), rfl⟩
  | some c =>
    rw [currentStageCol, h]
    exact Or.inr ⟨c, isTop_of_perm hperm (isTop_of_argmin h), rfl⟩

/-- So does one for an upcoming stage. -/
theorem nextStageCol_eq (now : ℤ) (col : StageRow → Option α) (hscans : scans.Of db)
    (site : Site) :
    (nextStages db.stages.rows p.id now = [] ∧
        nextStageCol col (scans site) p.id now = none) ∨
      ∃ n, TopNext db p now n ∧ nextStageCol col (scans site) p.id now = col n := by
  have hperm : (nextStages (scans site) p.id now).Perm
      (nextStages db.stages.rows p.id now) := (hscans site).filter _
  cases h : (nextStages (scans site) p.id now).argmin nextRank with
  | none =>
    rw [nextStageCol, h]
    rw [List.argmin_eq_none] at h
    exact Or.inl ⟨List.nil_perm.mp (h ▸ hperm), rfl⟩
  | some n =>
    rw [nextStageCol, h]
    exact Or.inr ⟨n, isTop_of_perm hperm (isTop_of_argmin h), rfl⟩

/-- Where there are no two of them, they all give the same. -/
theorem currentStageCol_of_one (col : StageRow → Option α) (hscans : scans.Of db)
    (hone : OneTop currentRank (currentStages db.stages.rows p.id now)) (site : Site) :
    currentStageCol col (scans site) p.id now =
      ((currentStages db.stages.rows p.id now).argmin currentRank).bind col :=
  congrArg (·.bind col) (argmin_of_perm ((hscans site).filter _) hone)

theorem nextStageCol_of_one (col : StageRow → Option α) (hscans : scans.Of db)
    (hone : OneTop nextRank (nextStages db.stages.rows p.id now)) (site : Site) :
    nextStageCol col (scans site) p.id now =
      ((nextStages db.stages.rows p.id now).argmin nextRank).bind col :=
  congrArg (·.bind col) (argmin_of_perm ((hscans site).filter _) hone)

/-- The table, with one row met first. -/
def frontAt (db : FeedDb) (s : StageRow) : List StageRow := s :: db.stages.rows.erase s

theorem frontAt_perm (h : c ∈ db.stages) : (frontAt db c).Perm db.stages.rows := front_perm h

theorem currentStageCol_front (col : StageRow → Option α) (h : TopCurrent db p now c) :
    currentStageCol col (frontAt db c) p.id now = col c :=
  congrArg (·.bind col) (argmin_front h)

theorem nextStageCol_front (col : StageRow → Option α) (h : TopNext db p now n) :
    nextStageCol col (frontAt db n) p.id now = col n :=
  congrArg (·.bind col) (argmin_front h)

theorem currentStageCol_nil (col : StageRow → Option α) (hscans : scans.Of db)
    (hnil : currentStages db.stages.rows p.id now = []) (site : Site) :
    currentStageCol col (scans site) p.id now = none := by
  rcases currentStageCol_eq col hscans site with ⟨_, h⟩ | ⟨c, hc, _⟩
  · exact h
  · exact absurd hc.1 (hnil ▸ List.not_mem_nil)

/-! ### Cards -/

variable {row : FeedRow}

theorem decisionStage_current {label : String} (h : row.stageLabel = some label) :
    decisionStage row = ⟨row.stageId, row.stageLabel, row.stageKind, row.stagePriceWei,
      row.stageMaxPerWallet, row.stageStartsAt, row.stageEndsAt, .live⟩ :=
  if_pos (Or.inl (h ▸ Option.some_ne_none label))

theorem decisionStage_next {label : String} (h : row.stageLabel = none)
    (h' : row.stageStartsAt = none) (hnext : row.nextStageLabel = some label) :
    decisionStage row = ⟨row.nextStageId, row.nextStageLabel, row.nextStageKind,
      row.nextStagePriceWei, row.nextStageMaxPerWallet, row.project.nextStageStart,
      row.nextStageEndsAt, .next⟩ := by
  rw [decisionStage, if_neg (by simp [h, h']), if_pos (Or.inl (hnext ▸ Option.some_ne_none label))]

/-- A card of an open stage, when every subquery gives the same one. -/
theorem shows_current (h : ∀ {α : Type} (col : StageRow → Option α) (column : StageColumn),
      currentStageCol col (scans ⟨.row, false, column⟩) p.id now = col c) :
    (decisionStage (feedRow scans now p)).Shows (some c) := by
  rw [decisionStage_current (h (fun ds => some ds.label) .label)]
  exact ⟨h _ _, h _ _, h _ _, h _ _, h _ _, h _ _, h _ _⟩

/-- The card of the next stage. -/
theorem shows_next (hscans : scans.Of db) (hnil : currentStages db.stages.rows p.id now = [])
    (h : ∀ {α : Type} (col : StageRow → Option α) (column : StageColumn),
      nextStageCol col (scans ⟨.row, true, column⟩) p.id now = col n)
    (hstart : p.nextStageStart = some n.startsAt) :
    (decisionStage (feedRow scans now p)).Shows (some n) := by
  rw [decisionStage_next (currentStageCol_nil _ hscans hnil _)
    (currentStageCol_nil _ hscans hnil _) (h (fun ds => some ds.label) .label)]
  exact ⟨h _ _, h _ _, h _ _, h _ _, h _ _, hstart, h _ _⟩

end

/-! ### One stage -/

section

variable {db : FeedDb} {p : FeedProject} {now : ℤ} {scans : Scans}

/-- **Enough.**  Open stages first, as `coalesce` and the card take them. -/
theorem oneStage_of_agree (hagree : StagesAgree db p now) (hscans : scans.Of db) :
    OneStage db scans now p := by
  have hcurrent := fun {α : Type} (col : StageRow → Option α) =>
    currentStageCol_of_one col hscans hagree.oneCurrent
  cases hc : (currentStages db.stages.rows p.id now).argmin currentRank with
  | some c =>
    rw [hc] at hcurrent
    have htop : TopCurrent db p now c := isTop_of_argmin hc
    refine ⟨some c, ?_, ?_, ?_, shows_current fun col column => hcurrent col _⟩
    · intro s hs
      cases hs
      exact mem_of_topCurrent htop
    · rw [decisionStageId, decisionStageCol, hcurrent]
      rfl
    · rw [decisionStagePrice, decisionStageCol, hcurrent]
      show c.priceWei.or _ = c.priceWei
      -- a stage without a price shows the one of the next stage, which has to agree
      cases hprice : c.priceWei with
      | some price => rfl
      | none =>
        have hlater := nextStageCol_eq (p := p) now (fun ds => ds.priceWei) hscans
          ⟨.priceFilter, true, .priceWei⟩
        rcases hlater with ⟨_, h⟩ | ⟨n, hn, h⟩
        · exact h
        · exact h.trans (hagree.priced c htop hprice n hn)
  | none =>
    -- no current stage: the columns are those of the next one
    rw [List.argmin_eq_none] at hc
    obtain ⟨hone, hstart⟩ := hagree.oneNext hc
    have hnone := fun {α : Type} (col : StageRow → Option α) =>
      currentStageCol_nil col hscans hc
    have hnext := fun {α : Type} (col : StageRow → Option α) =>
      nextStageCol_of_one col hscans hone
    cases hn : (nextStages db.stages.rows p.id now).argmin nextRank with
    | some n =>
      rw [hn] at hnext hstart
      refine ⟨some n, ?_, ?_, ?_, shows_next hscans hc (fun col column => hnext col _) hstart⟩
      · intro s hs
        cases hs
        exact mem_of_topNext (isTop_of_argmin hn)
      · rw [decisionStageId, decisionStageCol, hnone, hnext]
        rfl
      · rw [decisionStagePrice, decisionStageCol, hnone, hnext]
        rfl
    | none =>
      rw [hn] at hnext hstart
      refine ⟨none, by simp, ?_, ?_, ?_⟩
      · rw [decisionStageId, decisionStageCol, hnone, hnext]
        rfl
      · rw [decisionStagePrice, decisionStageCol, hnone, hnext]
        rfl
      · have hcard : decisionStage (feedRow scans now p) =
            ⟨none, none, none, none, none, none, none, .unknown⟩ := by
          rw [decisionStage, if_neg, if_neg]
          · rintro (h | h)
            · exact h (hnext _ _)
            · exact h hstart
          · rintro (h | h)
            · exact h (hnone _ _)
            · exact h (hnone _ _)
        rw [hcard]
        exact ⟨rfl, rfl, rfl, rfl, rfl, rfl, rfl⟩

/-! ### Nothing less is enough -/

/-- Scans of a table that meet one row first for the card, and another for the conditions. -/
def splitScans (db : FeedDb) (s s' : StageRow) : Scans :=
  fun site => if site.place = .row then frontAt db s' else frontAt db s

theorem splitScans_of {s s' : StageRow} (hs : s ∈ db.stages) (hs' : s' ∈ db.stages) :
    (splitScans db s s').Of db := by
  intro site
  rw [splitScans]
  split
  · exact frontAt_perm hs'
  · exact frontAt_perm hs

theorem oneCurrent_of_oneStage (h : ∀ scans : Scans, scans.Of db → OneStage db scans now p) :
    OneTop currentRank (currentStages db.stages.rows p.id now) := by
  intro c c' (hc : TopCurrent db p now c) (hc' : TopCurrent db p now c')
  have hmem := mem_of_topCurrent hc
  have hmem' := mem_of_topCurrent hc'
  obtain ⟨d, _, hid, _, hshows⟩ := h (splitScans db c c') (splitScans_of hmem hmem')
  have hcard : (decisionStage (feedRow (splitScans db c c') now p)).Shows (some c') :=
    shows_current fun col _ => currentStageCol_front col hc'
  have htest : decisionStageId (splitScans db c c') p.id now = some c.id := by
    rw [decisionStageId, decisionStageCol]
    have hfront := currentStageCol_front (fun ds => some ds.id) hc
    show (currentStageCol _ (frontAt db c) p.id now).or _ = _
    rw [hfront]
    rfl
  have hsame : some c.id = some c'.id := by
    rw [← htest, hid, ← hshows.id, hcard.id]
    rfl
  exact Table.eq_of_key hmem hmem' (Option.some_inj.mp hsame)

theorem priced_of_oneStage (h : ∀ scans : Scans, scans.Of db → OneStage db scans now p)
    {c n : StageRow} (hc : TopCurrent db p now c) (hprice : c.priceWei = none)
    (hn : TopNext db p now n) : n.priceWei = none := by
  let scans : Scans := fun site => if site.next then frontAt db n else frontAt db c
  have hscans : scans.Of db := by
    intro site
    show (if site.next then frontAt db n else frontAt db c).Perm _
    split
    · exact frontAt_perm (mem_of_topNext hn)
    · exact frontAt_perm (mem_of_topCurrent hc)
  obtain ⟨d, _, _, hfilter, hshows⟩ := h scans hscans
  have hcard : (decisionStage (feedRow scans now p)).Shows (some c) :=
    shows_current fun col _ => currentStageCol_front col hc
  have hsecond : decisionStagePrice scans p.id now = n.priceWei := by
    rw [decisionStagePrice, decisionStageCol]
    have hopen := currentStageCol_front (fun ds => ds.priceWei) hc
    have hlater := nextStageCol_front (fun ds => ds.priceWei) hn
    show (currentStageCol _ (frontAt db c) p.id now).or
      (nextStageCol _ (frontAt db n) p.id now) = _
    rw [hopen, hlater, hprice]
    rfl
  rw [← hsecond, hfilter, ← hshows.priceWei, hcard.priceWei]
  exact hprice

theorem oneNext_of_oneStage (h : ∀ scans : Scans, scans.Of db → OneStage db scans now p)
    (hnil : currentStages db.stages.rows p.id now = []) :
    OneTop nextRank (nextStages db.stages.rows p.id now) := by
  intro n n' (hn : TopNext db p now n) (hn' : TopNext db p now n')
  have hmem := mem_of_topNext hn
  have hmem' := mem_of_topNext hn'
  have hscans := splitScans_of hmem hmem'
  obtain ⟨d, _, hid, _, hshows⟩ := h (splitScans db n n') hscans
  have hcard : (decisionStage (feedRow (splitScans db n n') now p)).id = some n'.id := by
    rw [decisionStage_next (currentStageCol_nil _ hscans hnil _)
      (currentStageCol_nil _ hscans hnil _) (nextStageCol_front (fun ds => some ds.label) hn')]
    exact nextStageCol_front _ hn'
  have htest : decisionStageId (splitScans db n n') p.id now = some n.id := by
    rw [decisionStageId, decisionStageCol, currentStageCol_nil _ hscans hnil]
    exact nextStageCol_front (fun ds => some ds.id) hn
  have hsame : some n.id = some n'.id := by
    rw [← htest, hid, ← hshows.id, hcard]
  exact Table.eq_of_key hmem hmem' (Option.some_inj.mp hsame)

theorem nextStart_of_oneStage (h : ∀ scans : Scans, scans.Of db → OneStage db scans now p)
    (hnil : currentStages db.stages.rows p.id now = []) :
    p.nextStageStart =
      ((nextStages db.stages.rows p.id now).argmin nextRank).map (·.startsAt) := by
  have hscans : Scans.Of (fun _ => db.stages.rows) db := fun _ => List.Perm.refl _
  obtain ⟨d, hd, hid, _, hshows⟩ := h (fun _ => db.stages.rows) hscans
  have hnone := fun {α : Type} (col : StageRow → Option α) =>
    currentStageCol_nil col hscans hnil ⟨.row, false, .id⟩
  have hlabel := hnone fun ds => some ds.label
  have hstarts := hnone fun ds => some ds.startsAt
  rw [decisionStageId, decisionStageCol, hnone] at hid
  cases hn : (nextStages db.stages.rows p.id now).argmin nextRank with
  | some n =>
    rw [nextStageCol, hn] at hid
    have hnextLabel : (feedRow (fun _ => db.stages.rows) now p).nextStageLabel =
        some n.label := congrArg (·.bind fun ds => some ds.label) hn
    have hstart := hshows.startsAt
    rw [decisionStage_next hlabel hstarts hnextLabel] at hstart
    cases d with
    | none => exact absurd hid (Option.some_ne_none n.id)
    | some s =>
      have htop : TopNext db p now n := isTop_of_argmin hn
      have hsame : n = s :=
        Table.eq_of_key (mem_of_topNext htop) (hd s rfl) (Option.some_inj.mp hid)
      rw [hsame]
      exact hstart
  | none =>
    rw [nextStageCol, hn] at hid
    have hd : d = none := Option.map_eq_none_iff.mp hid.symm
    rw [hd] at hshows
    by_contra hsome
    have hrow : (feedRow (fun _ => db.stages.rows) now p).project.nextStageStart ≠ none := hsome
    have hstart := hshows.startsAt
    rw [decisionStage, if_neg (by simp [hlabel, hstarts, feedRow]), if_pos (Or.inr hrow)] at hstart
    exact hsome hstart

/-- **One decision stage per row**, in whatever order the rows are met. -/
theorem oneStage_iff (db : FeedDb) (now : ℤ) (p : FeedProject) :
    (∀ scans : Scans, scans.Of db → OneStage db scans now p) ↔ StagesAgree db p now :=
  ⟨fun h => ⟨oneCurrent_of_oneStage h, fun _ hc hprice _ hn => priced_of_oneStage h hc hprice hn,
      fun hnil => ⟨oneNext_of_oneStage h hnil, nextStart_of_oneStage h hnil⟩⟩,
    fun hagree _ hscans => oneStage_of_agree hagree hscans⟩

end

/-! ### An open stage without a price -/

/-- An open public stage whose price the provider did not say. -/
def openStage : StageRow where
  id := "s1"
  projectId := "p"
  providerStageId := "open"
  version := 1
  label := "Public"
  type := .publicSale
  priceWei := none
  currency := none
  maxPerWallet := none
  startsAt := 0
  endsAt := none
  paused := false
  updatedAt := 0

/-- A priced stage that opens later. -/
def laterStage : StageRow :=
  { openStage with
    id := "s2", providerStageId := "later", startsAt := 200, priceWei := some "1000" }

def twoPhases : FeedDb where
  projects := Table.empty
  aliases := []
  stages := ⟨[openStage, laterStage], by decide⟩
  snapshots := []
  checks := []
  wallets := []
  watchlist := []

def twoPhaseProject : FeedProject where
  id := "p"
  chainId := 1
  contractAddress := none
  name := "Two phases"
  slug := some "two-phases"
  imageUrl := none
  confidence := .verified
  lifecycleStatus := .live
  nextStageStart := some 200
  firstSeenAt := 0
  lastSeenAt := 0
  twitterUsername := none
  projectUrl := none

/-- The filter takes the price of the later stage; the card shows the open one. -/
theorem unpriced_borrows : ¬ OneStage twoPhases (fun _ => twoPhases.stages.rows) 100
    twoPhaseProject := by
  rintro ⟨d, _, _, hfilter, hshows⟩
  have hprice : decisionStagePrice (fun _ => twoPhases.stages.rows) "p" 100 = some "1000" := by
    decide
  have hcard : (decisionStage (feedRow (fun _ => twoPhases.stages.rows) 100
      twoPhaseProject)).priceWei = none := by
    decide
  have hsame : some "1000" = none := hprice.symm.trans
    (hfilter.trans (hshows.priceWei.symm.trans hcard))
  exact Option.some_ne_none _ hsame

end Feed
