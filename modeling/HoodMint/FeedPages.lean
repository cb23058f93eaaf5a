/-
Following the cursors of the feed (`encodeCursor` against the keyset of `queryFeed`).

* `pages` — request after request, each with the cursor of the one before, until there is none;
* `ExactlyOnce` — the rows are the matching projects, each once and in order;
* `cursorMark` — what the keyset compares of a cursor, once its text is cast;
* `CursorExact`, `exactlyOnce_iff` — where the cursor of a boundary row says too little of it.

The requests may come at different times; the matching projects are those of every request.
-/
import HoodMint.Feed
import HoodMint.Lib.Keyset
import Mathlib.Data.List.Sort

namespace Feed

open Relational Projects Eligibility

/-! ### Requests -/

section

variable {κ : Type} [LinearOrder κ] (collate : String → κ) (db : FeedDb) (scans : ℕ → Scans)
  (clock : ℕ → ℤ) (filters : FeedFilters)

/-- Pages from request `k` on. -/
def pages : ℕ → ℕ → Option Cursor → Option (List FeedRow)
  | 0, _, _ => none
  | fuel + 1, k, cursor =>
    (queryFeed collate db (scans k) (clock k) { filters with cursor := cursor }).bind fun page =>
      match page.nextCursor with
      | none => some page.rows
      | some next => (pages fuel (k + 1) (some next)).map (page.rows ++ ·)

/-- The projects that meet the conditions. -/
def matching : List FeedProject :=
  db.projects.rows.filter (filters.conditions db (scans 0) (clock 0))

/-- They are the same at every request. -/
def Steady : Prop :=
  ∀ k, ∀ p ∈ db.projects, filters.conditions db (scans k) (clock k) p =
    filters.conditions db (scans 0) (clock 0) p

/-- **Exactly once**, and in the sort order. -/
def ExactlyOnce : Prop :=
  ∃ fuel rows, pages collate db scans clock filters fuel 0 none = some rows ∧
    (rows.map (·.project)).Perm (matching db scans clock filters) ∧
    (rows.map (·.project)).Pairwise fun p q => before collate db filters.sorting p q

end

/-! ### Cursors -/

/-- An instant to the millisecond. -/
def wholeMs (t : ℤ) : ℤ := t / 1000 * 1000

/-- The cursor of a project. -/
def cursorOf (sort : FeedSort) (p : FeedProject) : Cursor :=
  encodeCursor (feedRow (fun _ => []) 0 p) sort

section

variable {κ : Type} [LinearOrder κ] (collate : String → κ) (db : FeedDb)

/-- What the keyset compares of a cursor.  No row shows its supply, so none carries a ratio. -/
def cursorMark (sort : FeedSort) (p : FeedProject) : SortKey κ :=
  match sort with
  | .name => .name (collate p.name)
  | .starting | .velocity => .time (p.nextStageStart.elim ⊤ fun t => (wholeMs t : WithTop ℤ))
  | .discovered => .time (wholeMs p.firstSeenAt)
  | .minted => .number (-1)
  | .recent => .time (wholeMs p.lastSeenAt)

/-- A project past the cursor of another. -/
def pastRow (sort : FeedSort) (r s : FeedProject) : Bool :=
  pastCursor collate db sort (cursorMark collate sort r) r.id s

/-- **When the cursor of row `r` is exact** for the rows listed.

* A name is.
* The velocity order is ascending, its keyset descending: no cursor is.
* A start is when it is whole milliseconds, or unknown.
* An instant that comes last is when no later row is in what was cut off.
* A ratio, which is left out, is when no row is between it and those of unknown supply. -/
def CursorExact (sort : FeedSort) (listing : List FeedProject) (r : FeedProject) : Prop :=
  match sort with
  | .name => True
  | .velocity => False
  | .starting => ∀ t, r.nextStageStart = some t → wholeMs t = t
  | .discovered => ∀ s ∈ listing, toLex (s.firstSeenAt, s.id) < toLex (r.firstSeenAt, r.id) →
      toLex (s.firstSeenAt, s.id) < toLex (wholeMs r.firstSeenAt, r.id)
  | .recent => ∀ s ∈ listing, toLex (s.lastSeenAt, s.id) < toLex (r.lastSeenAt, r.id) →
      toLex (s.lastSeenAt, s.id) < toLex (wholeMs r.lastSeenAt, r.id)
  | .minted => ∀ s ∈ listing,
      (toLex (mintedRatio db s, s.id) < toLex ((-1 : ℚ), r.id) ↔
        toLex (mintedRatio db s, s.id) < toLex (mintedRatio db r, r.id))

end

section

variable {κ : Type} [LinearOrder κ] {collate : String → κ} {db : FeedDb} {scans : ℕ → Scans}
  {clock : ℕ → ℤ} {filters : FeedFilters} {sort : FeedSort} {l : List FeedProject}
  {p q r s : FeedProject} {a b : ℤ} {i j : String}

theorem wholeMs_le (t : ℤ) : wholeMs t ≤ t := Int.ediv_mul_le t (by decide)

omit [LinearOrder κ] in
/-- What is written of a row in a cursor is cast to its mark. -/
theorem cursorValue_cursorOf :
    cursorValue collate sort (cursorOf sort p).v = some (cursorMark collate sort p) := by
  cases sort with
  | name => rfl
  | starting | velocity => cases h : p.nextStageStart <;> simp [cursorOf, encodeCursor, feedRow, h,
      cursorValue, cursorMark, toIso, wholeMs]
  | discovered => rfl
  | recent => rfl
  | minted => rfl

/-! ### Order -/

theorem time_lt_time :
    (toLex (SortKey.time (a : WithTop ℤ), i) : SortKey κ ×ₗ String) <
        toLex (SortKey.time (b : WithTop ℤ), j) ↔ toLex (a, i) < toLex (b, j) := by
  simp only [Prod.Lex.toLex_lt_toLex, SortKey.time, Sum.Lex.inr_lt_inr_iff,
    Sum.Lex.inl_lt_inl_iff, WithTop.coe_lt_coe]
  refine or_congr Iff.rfl (and_congr ⟨fun h => ?_, fun h => by rw [h]⟩ Iff.rfl)
  exact WithTop.coe_inj.mp (Sum.inl_injective (Sum.inr_injective h))

theorem number_lt_number {x y : ℚ} :
    (toLex (SortKey.number x, i) : SortKey κ ×ₗ String) < toLex (SortKey.number y, j) ↔
      toLex (x, i) < toLex (y, j) := by
  simp only [Prod.Lex.toLex_lt_toLex, SortKey.number, Sum.Lex.inr_lt_inr_iff]
  refine or_congr Iff.rfl (and_congr ⟨fun h => ?_, fun h => by rw [h]⟩ Iff.rfl)
  exact Sum.inr_injective (Sum.inr_injective h)

theorem time_le_time {x y : WithTop ℤ} (h : x ≤ y) :
    (toLex (SortKey.time x, i) : SortKey κ ×ₗ String) ≤ toLex (SortKey.time y, i) := by
  rw [Prod.Lex.toLex_le_toLex]
  rcases lt_or_eq_of_le h with h | rfl
  · exact Or.inl (Sum.Lex.inr_lt_inr_iff.mpr (Sum.Lex.inl_lt_inl_iff.mpr h))
  · exact Or.inr ⟨rfl, le_refl i⟩

/-! ### The listing -/

/-- A sort order, as positions in a linear order that tell rows apart. -/
structure Ordered (collate : String → κ) (db : FeedDb) (sort : FeedSort) {K : Type} [LinearOrder K]
    (pos : FeedProject → K) : Prop where
  before_iff : ∀ p q, before collate db sort p q = true ↔ pos p < pos q
  id_eq : ∀ p q, pos p = pos q → p.id = q.id

section

variable {K : Type} [LinearOrder K] {pos mark : FeedProject → K}

theorem sorted_perm : (sorted collate db sort l).Perm l := List.perm_insertionSort _ l

theorem sorted_pairwise (hpos : Ordered collate db sort pos) (hl : (l.map FeedProject.key).Nodup) :
    (sorted collate db sort l).Pairwise (pos · < pos ·) := by
  have hle : ∀ p q, (¬ before collate db sort q p = true) ↔ pos p ≤ pos q := fun p q =>
    (not_congr (hpos.before_iff q p)).trans not_lt
  have : Std.Total fun p q => ¬ before collate db sort q p = true :=
    ⟨fun p q => by simpa only [hle] using le_total (pos p) (pos q)⟩
  have : IsTrans FeedProject fun p q => ¬ before collate db sort q p = true :=
    ⟨fun p q r => by simpa only [hle] using le_trans⟩
  have hweak := List.pairwise_insertionSort (fun p q => ¬ before collate db sort q p = true) l
  have hkeys : (sorted collate db sort l).Pairwise fun p q => p.id ≠ q.id := by
    have hnodup : ((sorted collate db sort l).map FeedProject.key).Nodup :=
      (sorted_perm.map FeedProject.key).nodup_iff.mpr hl
    exact List.pairwise_map.mp hnodup
  refine (hweak.and hkeys).imp ?_
  rintro p q ⟨hnot, hne⟩
  exact lt_of_le_of_ne ((hle p q).mp hnot) fun heq => hne (hpos.id_eq p q heq)

/-- Two listings of the same projects in order are the same. -/
theorem listing_unique {l₁ l₂ : List FeedProject} (h₁ : l₁.Pairwise (pos · < pos ·))
    (h₂ : l₂.Pairwise (pos · < pos ·)) (hperm : l₁.Perm l₂) : l₁ = l₂ :=
  List.Perm.eq_of_pairwise (fun _ _ _ _ h h' => absurd h' (lt_asymm h)) h₁ h₂ hperm

theorem sorted_filter (hpos : Ordered collate db sort pos) (hl : (l.map FeedProject.key).Nodup)
    (f : FeedProject → Bool) :
    sorted collate db sort (l.filter f) = (sorted collate db sort l).filter f := by
  have hsub : ((l.filter f).map FeedProject.key).Nodup :=
    (List.filter_sublist.map FeedProject.key).nodup hl
  exact listing_unique (sorted_pairwise hpos hsub) ((sorted_pairwise hpos hl).filter f)
    (sorted_perm.trans (sorted_perm.filter f).symm)

/-! ### A request -/

theorem matching_nodup : ((matching db scans clock filters).map FeedProject.key).Nodup :=
  (List.filter_sublist.map FeedProject.key).nodup db.projects.nodup

/-- The matching projects in order. -/
def listing (collate : String → κ) (db : FeedDb) (scans : ℕ → Scans) (clock : ℕ → ℤ)
    (filters : FeedFilters) : List FeedProject :=
  sorted collate db filters.sorting (matching db scans clock filters)

theorem listing_pairwise (hpos : Ordered collate db filters.sorting pos) :
    (listing collate db scans clock filters).Pairwise (pos · < pos ·) :=
  sorted_pairwise hpos matching_nodup

theorem pageLimit_pos : 0 < filters.pageLimit := by
  rw [FeedFilters.pageLimit]
  omega

section

variable {found : List FeedProject} {sc : Scans} {now : ℤ}

/-- A page, of which one row more is read. -/
theorem take_read {rows : List FeedProject} {limit : ℕ} :
    ((rows.take (limit + 1)).map (feedRow sc now)).take limit =
      (rows.take limit).map (feedRow sc now) := by
  rw [← List.map_take, List.take_take, Nat.min_eq_left (Nat.le_succ limit)]

theorem pageOf_rows : (pageOf collate db sc now filters found).rows.map (·.project) =
    (sorted collate db filters.sorting found).take filters.pageLimit := by
  rw [pageOf, take_read, List.map_map]
  exact List.map_id _

theorem pageOf_nextCursor : (pageOf collate db sc now filters found).nextCursor =
    (Keyset.handOn filters.pageLimit (sorted collate db filters.sorting found)).map
      (cursorOf filters.sorting) := by
  have hmore : (((sorted collate db filters.sorting found).take (filters.pageLimit + 1)).map
      (feedRow sc now)).length > filters.pageLimit ↔
        filters.pageLimit < (sorted collate db filters.sorting found).length := by
    rw [List.length_map, List.length_take]
    omega
  rw [pageOf, take_read, Keyset.handOn]
  by_cases h : filters.pageLimit < (sorted collate db filters.sorting found).length
  · rw [if_pos (hmore.mpr h), if_pos h, List.getLast?_map, Option.map_map]
    rfl
  · rw [if_neg (mt hmore.mp h), if_neg h]
    rfl

end

/-- A request finds the listing, or what of it is past the cursor. -/
theorem queryFeed_eq (hpos : Ordered collate db filters.sorting pos)
    (hsteady : Steady db scans clock filters) (k : ℕ) (cursor : Option FeedProject) :
    ∃ found, queryFeed collate db (scans k) (clock k)
        { filters with cursor := cursor.map (cursorOf filters.sorting) } =
          some (pageOf collate db (scans k) (clock k) filters found) ∧
      sorted collate db filters.sorting found =
        Keyset.found (listing collate db scans clock filters)
          (pastRow collate db filters.sorting) cursor := by
  have hsame : db.projects.rows.filter (filters.conditions db (scans k) (clock k)) =
      matching db scans clock filters := List.filter_congr (hsteady k)
  cases cursor with
  | none => exact ⟨_, rfl, congrArg _ hsame⟩
  | some r =>
    refine ⟨db.projects.rows.filter fun p => filters.conditions db (scans k) (clock k) p ∧
      pastRow collate db filters.sorting r p, ?_, ?_⟩
    · show (cursorValue collate filters.sorting (cursorOf filters.sorting r).v).map _ = _
      rw [cursorValue_cursorOf]
      rfl
    · rw [Keyset.found, listing, ← sorted_filter hpos matching_nodup, ← hsame, List.filter_filter]
      refine congrArg _ (List.filter_congr fun p _ => ?_)
      rw [Bool.decide_and, Bool.decide_eq_true, Bool.decide_eq_true, Bool.and_comm]

/-- **The pages are those of the listing**, as a keyset cuts it. -/
theorem pages_eq (hpos : Ordered collate db filters.sorting pos)
    (hsteady : Steady db scans clock filters) :
    ∀ fuel k cursor,
      (pages collate db scans clock filters fuel k
          (cursor.map (cursorOf filters.sorting))).map (·.map (·.project)) =
        Keyset.follow (listing collate db scans clock filters)
          (pastRow collate db filters.sorting) filters.pageLimit fuel cursor := by
  intro fuel
  induction fuel with
  | zero => exact fun k cursor => rfl
  | succ fuel ih =>
    intro k cursor
    obtain ⟨found, hpage, hfound⟩ := queryFeed_eq hpos hsteady k cursor
    rw [pages, hpage, Option.bind_some, pageOf_nextCursor, hfound, Keyset.follow]
    cases hon : Keyset.handOn filters.pageLimit (Keyset.found
        (listing collate db scans clock filters) (pastRow collate db filters.sorting) cursor) with
    | none =>
      show some (List.map _ (pageOf collate db (scans k) (clock k) filters found).rows) = _
      rw [pageOf_rows, hfound]
    | some r =>
      show ((pages collate db scans clock filters fuel (k + 1)
        (some (cursorOf filters.sorting r))).map _).map _ = Option.map _ _
      rw [← ih (k + 1) (some r), Option.map_map, Option.map_map]
      refine congrArg (Option.map · _) (funext fun rest => ?_)
      show ((pageOf collate db (scans k) (clock k) filters found).rows ++ rest).map (·.project) = _
      rw [List.map_append, pageOf_rows, hfound]
      rfl

/-- The pages are right just when they make up the listing. -/
theorem exactlyOnce_iff_follow (hpos : Ordered collate db filters.sorting pos)
    (hsteady : Steady db scans clock filters) :
    ExactlyOnce collate db scans clock filters ↔
      ∃ fuel, Keyset.follow (listing collate db scans clock filters)
        (pastRow collate db filters.sorting) filters.pageLimit fuel none =
          some (listing collate db scans clock filters) := by
  have hsorted : (listing collate db scans clock filters).Pairwise (pos · < pos ·) :=
    listing_pairwise hpos
  constructor
  · rintro ⟨fuel, rows, hrows, hperm, horder⟩
    refine ⟨fuel, ?_⟩
    rw [← pages_eq hpos hsteady fuel 0 none]
    show (pages collate db scans clock filters fuel 0 none).map _ = _
    rw [hrows]
    refine congrArg some (listing_unique ?_ hsorted (hperm.trans sorted_perm.symm))
    exact horder.imp fun h => (hpos.before_iff _ _).mp h
  · rintro ⟨fuel, h⟩
    rw [← pages_eq hpos hsteady fuel 0 none] at h
    obtain ⟨rows, hrows, hproject⟩ := Option.map_eq_some_iff.mp h
    refine ⟨fuel, rows, hrows, ?_, ?_⟩
    · rw [hproject]
      exact sorted_perm
    · rw [hproject]
      exact hsorted.imp fun h => (hpos.before_iff _ _).mpr h

end

/-! ### Where cursors are exact -/

theorem ordered_ascending (h : sort.ascending = true) :
    Ordered collate db sort (position collate db sort) where
  before_iff p q := by rw [before, if_pos h, decide_eq_true_iff]
  id_eq p q heq := congrArg (fun x => (ofLex x).2) heq

theorem ordered_descending (h : sort.ascending = false) :
    Ordered collate db sort fun p => OrderDual.toDual (position collate db sort p) where
  before_iff p q := by
    rw [before, if_neg (by simp [h]), decide_eq_true_iff]
    exact OrderDual.toDual_lt_toDual.symm
  id_eq p q heq := congrArg (fun x => (ofLex (OrderDual.ofDual x)).2) heq

/-- But for the velocity order, a boundary cursor must separate as its row does. -/
theorem exactlyOnce_iff_separates (hsort : filters.sorting ≠ .velocity)
    (hsteady : Steady db scans clock filters) :
    ExactlyOnce collate db scans clock filters ↔
      ∀ k r, Keyset.Boundary (listing collate db scans clock filters) filters.pageLimit k r →
        ∀ s ∈ listing collate db scans clock filters,
          (pastRow collate db filters.sorting r s = true ↔
            before collate db filters.sorting r s = true) := by
  have hdirection : filters.sorting.descSort = ! filters.sorting.ascending := by
    cases h : filters.sorting <;> first | rfl | exact absurd h hsort
  cases hasc : filters.sorting.ascending with
  | true =>
    have hpos : Ordered collate db filters.sorting _ := ordered_ascending hasc
    have hpast : pastRow collate db filters.sorting = fun r s =>
        decide (toLex (cursorMark collate filters.sorting r, r.id) <
          position collate db filters.sorting s) := by
      funext r s
      rw [pastRow, pastCursor, if_neg (by simp [hdirection, hasc])]
    rw [exactlyOnce_iff_follow hpos hsteady, hpast,
      Keyset.follow_mark_iff pageLimit_pos (listing_pairwise hpos)]
    simp only [decide_eq_true_iff, hpos.before_iff]
  | false =>
    have hpos : Ordered collate db filters.sorting _ := ordered_descending hasc
    have hpast : pastRow collate db filters.sorting = fun r s =>
        decide (OrderDual.toDual (toLex (cursorMark collate filters.sorting r, r.id)) <
          OrderDual.toDual (position collate db filters.sorting s)) := by
      funext r s
      rw [pastRow, pastCursor, if_pos (by simp [hdirection, hasc])]
      exact decide_eq_decide.mpr OrderDual.toDual_lt_toDual.symm
    rw [exactlyOnce_iff_follow hpos hsteady, hpast,
      Keyset.follow_mark_iff pageLimit_pos (listing_pairwise hpos)]
    simp only [decide_eq_true_iff, hpos.before_iff]

/-- The velocity order is right on a single page. -/
theorem exactlyOnce_velocity (hsort : filters.sorting = .velocity)
    (hsteady : Steady db scans clock filters) :
    ExactlyOnce collate db scans clock filters ↔
      (listing collate db scans clock filters).length ≤ filters.pageLimit := by
  have hpos : Ordered collate db filters.sorting _ := ordered_ascending (by rw [hsort]; rfl)
  have hpast : pastRow collate db filters.sorting = fun r s =>
      decide (position collate db filters.sorting s <
        toLex (cursorMark collate filters.sorting r, r.id)) := by
    funext r s
    rw [pastRow, pastCursor, if_pos (by rw [hsort]; rfl)]
  rw [exactlyOnce_iff_follow hpos hsteady, hpast]
  refine Keyset.follow_backward_iff pageLimit_pos (listing_pairwise hpos) fun r => ?_
  rw [hsort]
  show toLex (SortKey.time _, r.id) ≤ toLex (SortKey.time _, r.id)
  refine time_le_time ?_
  cases r.nextStageStart with
  | none => exact le_refl _
  | some t => exact WithTop.coe_le_coe.mpr (wholeMs_le t)

/-- An instant cut off below, for rows that come last first. -/
theorem cut_iff {t : FeedProject → ℤ} :
    (∀ s ∈ l, (toLex (t s, s.id) < toLex (wholeMs (t r), r.id) ↔
        toLex (t s, s.id) < toLex (t r, r.id))) ↔
      ∀ s ∈ l, toLex (t s, s.id) < toLex (t r, r.id) →
        toLex (t s, s.id) < toLex (wholeMs (t r), r.id) := by
  have hle : toLex (wholeMs (t r), r.id) ≤ toLex (t r, r.id) := by
    rw [Prod.Lex.toLex_le_toLex]
    rcases Int.lt_or_eq_of_le (wholeMs_le (t r)) with h | h
    · exact Or.inl h
    · exact Or.inr ⟨h, le_refl _⟩
  exact ⟨fun h s hs => (h s hs).mpr, fun h s hs => ⟨fun hlt => lt_of_lt_of_le hlt hle, h s hs⟩⟩

/-- An instant cut off below, for rows that come first first: the row itself would come again. -/
theorem cursorExact_starting (hr : r ∈ l) :
    (∀ s ∈ l, (pastRow collate db .starting r s = true ↔
        before collate db .starting r s = true)) ↔
      ∀ t, r.nextStageStart = some t → wholeMs t = t := by
  have hmark : ∀ s, (pastRow collate db .starting r s = true ↔
      toLex (cursorMark collate .starting r, r.id) < position collate db .starting s) :=
    fun s => decide_eq_true_iff
  have hown : ∀ s, (before collate db .starting r s = true ↔
      position collate db .starting r < position collate db .starting s) :=
    fun s => decide_eq_true_iff
  simp only [hmark, hown]
  constructor
  · intro h t ht
    by_contra hne
    have hlt : wholeMs t < t := lt_of_le_of_ne (wholeMs_le t) hne
    refine lt_irrefl _ ((h r hr).mp ?_)
    simp only [cursorMark, position, sortKey, ht]
    exact time_lt_time.mpr (Prod.Lex.toLex_lt_toLex.mpr (Or.inl hlt))
  · intro hwhole s _
    have heq : cursorMark collate .starting r = sortKey collate db .starting r := by
      rw [cursorMark, sortKey]
      cases ht : r.nextStageStart with
      | none => rfl
      | some t => exact congrArg (fun t : ℤ => SortKey.time (t : WithTop ℤ)) (hwhole t ht)
    rw [heq]
    exact Iff.rfl

/-- **The cursor of a row is exact** when it separates the rows as the row does. -/
theorem cursorExact_iff (hsort : sort ≠ .velocity) (hr : r ∈ l) :
    (∀ s ∈ l, (pastRow collate db sort r s = true ↔ before collate db sort r s = true)) ↔
      CursorExact db sort l r := by
  cases sort with
  | velocity => exact absurd rfl hsort
  | name => exact iff_of_true (fun s _ => Iff.rfl) trivial
  | starting => exact cursorExact_starting hr
  | discovered =>
    refine Iff.trans (forall₂_congr fun s _ => iff_congr ?_ ?_) cut_iff
    · exact decide_eq_true_iff.trans time_lt_time
    · exact decide_eq_true_iff.trans time_lt_time
  | recent =>
    refine Iff.trans (forall₂_congr fun s _ => iff_congr ?_ ?_) cut_iff
    · exact decide_eq_true_iff.trans time_lt_time
    · exact decide_eq_true_iff.trans time_lt_time
  | minted =>
    refine forall₂_congr fun s _ => iff_congr ?_ ?_
    · exact decide_eq_true_iff.trans number_lt_number
    · exact decide_eq_true_iff.trans number_lt_number

/-- **Pagination.**  Following the cursors gives every matching project once and in order just when
the cursor of every boundary row is exact. -/
theorem exactlyOnce_iff (collate : String → κ) (db : FeedDb) (scans : ℕ → Scans) (clock : ℕ → ℤ)
    (filters : FeedFilters) (hsteady : Steady db scans clock filters) :
    ExactlyOnce collate db scans clock filters ↔
      ∀ k r, Keyset.Boundary (listing collate db scans clock filters) filters.pageLimit k r →
        CursorExact db filters.sorting (listing collate db scans clock filters) r := by
  by_cases hsort : filters.sorting = .velocity
  · rw [exactlyOnce_velocity hsort hsteady, Keyset.length_le_iff pageLimit_pos, hsort]
    exact Iff.rfl
  · rw [exactlyOnce_iff_separates hsort hsteady]
    exact forall₃_congr fun k r hboundary =>
      cursorExact_iff hsort (Keyset.mem_of_boundary hboundary)

end

/-! ### Two projects, one to a page -/

/-- A drop that starts at an instant. -/
def dropAt (id : String) (start : ℤ) : FeedProject where
  id := id
  chainId := 1
  contractAddress := none
  name := id
  slug := some id
  imageUrl := none
  confidence := .verified
  lifecycleStatus := .next
  nextStageStart := some start
  firstSeenAt := 0
  lastSeenAt := 0
  twitterUsername := none
  projectUrl := none

def twoDrops : FeedDb where
  projects := ⟨[dropAt "a" 3600000000, dropAt "b" 7200000000], by decide⟩
  aliases := []
  stages := Table.empty
  snapshots := []
  checks := []
  wallets := []
  watchlist := []

/-- By name, both come. -/
theorem exactlyOnce_iff_twoDrops : ExactlyOnce id twoDrops (fun _ _ => []) (fun _ => 0)
    { view := .all, sort := some .name, limit := some 1 } :=
  (exactlyOnce_iff id twoDrops (fun _ _ => []) (fun _ => 0)
    { view := .all, sort := some .name, limit := some 1 } fun _ _ _ => rfl).mpr
      fun _ _ _ => trivial

/-- By velocity, the second page looks for what is before the first. -/
theorem velocity_loses : ¬ ExactlyOnce id twoDrops (fun _ _ => []) (fun _ => 0)
    { view := .all, sort := some .velocity, limit := some 1 } := by
  rw [exactlyOnce_velocity rfl fun _ _ _ => rfl]
  decide

end Feed
