/-
The project feed (`queryFeed`, `encodeCursor` and `decodeCursor` of
`packages/db/src/repositories/projects.ts`).

* `currentStageCol`, `nextStageCol`, `decisionStageCol` — the scalar subqueries that pick a stage
  column by column;
* `FeedFilters.conditions` — what a project must meet to be on a feed;
* `sortKey`, `cursorValue` — the two sides of the keyset comparison: what SQL reads of a project,
  and what JavaScript wrote of it into the cursor;
* `queryFeed` — one page, with the cursor of the next.

Instants are those the tables keep, in microseconds.  Names are ordered by the collation of the
database, a parameter.  A tie that `ORDER BY … LIMIT 1` leaves open is broken by the order in
which a subquery meets the rows of `drop_stages`: `Scans` gives each its own.
-/
import HoodMint.Eligibility
import HoodMint.Lib.Double
import Mathlib.Data.Int.ConditionallyCompleteOrder
import Mathlib.Data.List.MinMax
import Mathlib.Data.Prod.Lex
import Mathlib.Data.Rat.Floor
import Mathlib.Data.String.Basic
import Mathlib.Data.Sum.Order

namespace Feed

open Relational Projects Eligibility

/-! ### Rows -/

/-- A row of `projects`, with the socials that the feed filters by. -/
structure FeedProject extends Project where
  twitterUsername : Option String
  projectUrl : Option String
deriving DecidableEq

def FeedProject.key (p : FeedProject) : String := p.id

/-- A row of `watchlist_entries`. -/
structure WatchlistEntry where
  userId : String
  projectId : String
deriving DecidableEq

structure FeedDb where
  projects : Table FeedProject String FeedProject.key
  aliases : List ProjectAlias
  stages : Table StageRow String StageRow.id
  snapshots : List SupplySnapshot
  checks : List EligibilityCheck
  wallets : List WalletRow
  watchlist : List WatchlistEntry

/-! ### Filters -/

inductive FeedView | all | live | next | latest | eligible | watchlist
deriving DecidableEq

inductive FeedSort | recent | starting | velocity | minted | name | discovered
deriving DecidableEq

inductive FeedPrice | free | paid
deriving DecidableEq

inductive FeedWlFilter | hit | none
deriving DecidableEq

inductive FeedSocialFilter | twitter | website | either | both
deriving DecidableEq

/-- What a cursor says of the last row of a page, besides its id. -/
inductive CursorText
  | text (name : String) | instant (ms : ℤ) | infinity | ratio (millionths : ℤ) | empty
deriving DecidableEq

/-- `DecodedCursor`.  The base64url text of its JSON decodes to it again. -/
structure Cursor where
  v : CursorText
  id : String
deriving DecidableEq

structure FeedFilters where
  view : FeedView
  userId : Option String := none
  search : Option String := none
  status : Option LifecycleStatus := none
  source : Option String := none
  confidence : Option Confidence := none
  price : Option FeedPrice := none
  wl : Option FeedWlFilter := none
  social : Option FeedSocialFilter := none
  eligibility : Option EligibilityState := none
  watchedBy : Option String := none
  firstSeenFrom : Option ℤ := none
  firstSeenTo : Option ℤ := none
  sort : Option FeedSort := none
  limit : Option ℤ := none
  cursor : Option Cursor := none

/-- Rows of a page: at most a hundred, and at least one. -/
def FeedFilters.pageLimit (filters : FeedFilters) : ℕ :=
  (min (max (filters.limit.getD 50) 1) 100).toNat

def FeedFilters.sorting (filters : FeedFilters) : FeedSort :=
  filters.sort.getD
    (if filters.view = .latest then .discovered
    else if filters.view = .next then .starting else .recent)

/-! ### The stage of a row -/

inductive StageColumn | id | label | type | priceWei | maxPerWallet | startsAt | endsAt
deriving DecidableEq

/-- Where in the statement a scalar subquery stands. -/
inductive Place | wlHit | priceFilter | row
deriving DecidableEq

structure Site where
  place : Place
  next : Bool
  column : StageColumn
deriving DecidableEq

/-- The order in which the subquery at a site meets the rows of `drop_stages`. -/
abbrev Scans := Site → List StageRow

def currentStages (rows : List StageRow) (projectId : String) (now : ℤ) : List StageRow :=
  rows.filter fun ds => ds.projectId = projectId ∧ ¬ ds.paused ∧ ds.startsAt ≤ now ∧
    ds.endsAt.elim true (· > now)

def nextStages (rows : List StageRow) (projectId : String) (now : ℤ) : List StageRow :=
  rows.filter fun ds => ds.projectId = projectId ∧ ¬ ds.paused ∧ ds.startsAt > now

/-- The order of two instants in an `order by`. -/
abbrev rankOrder : LinearOrder (ℤ ×ₗ ℤ) :=
  @Prod.Lex.instLinearOrder ℤ ℤ Int.instLinearOrder Int.instLinearOrder

local instance rankPreorder : Preorder (ℤ ×ₗ ℤ) := rankOrder.toPreorder

local instance decidableRankLT : DecidableLT (ℤ ×ₗ ℤ) := rankOrder.toDecidableLT

/-- `order by ds.updated_at desc, ds.starts_at asc`. -/
def currentRank (ds : StageRow) : ℤ ×ₗ ℤ := toLex (-ds.updatedAt, ds.startsAt)

/-- `order by ds.starts_at asc, ds.updated_at desc`. -/
def nextRank (ds : StageRow) : ℤ ×ₗ ℤ := toLex (ds.startsAt, -ds.updatedAt)

section

variable {α : Type} (col : StageRow → Option α) (rows : List StageRow) (projectId : String)
  (now : ℤ)

/-- `currentStageCol`. -/
def currentStageCol : Option α :=
  ((currentStages rows projectId now).argmin currentRank).bind col

/-- `nextStageCol`. -/
def nextStageCol : Option α :=
  ((nextStages rows projectId now).argmin nextRank).bind col

end

section

variable (db : FeedDb) (scans : Scans) (projectId : String) (now : ℤ)

/-- `decisionStageCol`: each column coalesces by itself. -/
def decisionStageCol {α : Type} (col : StageRow → Option α) (place : Place)
    (column : StageColumn) : Option α :=
  (currentStageCol col (scans ⟨place, false, column⟩) projectId now).or
    (nextStageCol col (scans ⟨place, true, column⟩) projectId now)

/-- `decisionStageId`. -/
def decisionStageId : Option String :=
  decisionStageCol scans projectId now (fun ds => some ds.id) .wlHit .id

/-- `decisionStagePrice`. -/
def decisionStagePrice : Option String :=
  decisionStageCol scans projectId now (fun ds => ds.priceWei) .priceFilter .priceWei

/-- `hasWlHit`. -/
def hasWlHit : Bool :=
  db.checks.any fun ec =>
    (db.wallets.any fun w => w.id = ec.walletId ∧ w.enabled) ∧ ec.projectId = projectId ∧
      decisionStageId scans projectId now = some ec.stageId ∧ ec.status = .eligibleRestricted

end

/-! ### Conditions -/

/-- `text LIKE pattern`, character by character. -/
def like : List Char → List Char → Bool
  | [], text => text.isEmpty
  | '%' :: pattern, text => text.tails.any (like pattern)
  | '_' :: pattern, text => ¬ text.isEmpty ∧ like pattern text.tail
  | '\\' :: c :: pattern, text => text.head? = some c ∧ like pattern text.tail
  | c :: pattern, text => text.head? = some c ∧ like pattern text.tail

/-- `text ILIKE pattern`. -/
def ilike (text pattern : String) : Bool :=
  like (Text.lower pattern).toList (Text.lower text).toList

/-- `nullif(btrim(text), '') is not null`. -/
def filled (text : Option String) : Bool := text.elim false fun t => t.toList.any (· ≠ ' ')

section

variable (db : FeedDb) (scans : Scans) (now : ℤ) (filters : FeedFilters) (p : FeedProject)

def FeedView.condition : FeedView → Bool
  | .live => p.lifecycleStatus = .live ∧ db.stages.rows.any fun s =>
      s.projectId = p.id ∧ ¬ s.paused ∧ s.startsAt ≤ now ∧ s.endsAt.elim true (· > now)
  | .next => p.lifecycleStatus = .next
  | .latest => true
  | .eligible => hasWlHit db scans p.id now
  | .watchlist => db.watchlist.any fun we => we.projectId = p.id ∧ some we.userId = filters.userId
  | .all => true

/-- Radar placeholders, and collections without a schedule, are on no feed. -/
def curated : Bool :=
  ¬ (p.slug = none ∧ Text.startsWith p.name "Unknown ") ∧
    (p.lifecycleStatus ≠ .unknown ∨ db.stages.rows.any fun ds => ds.projectId = p.id)

def searched (search : String) : Bool :=
  Text.trim search = "" ∨ ilike p.name ("%" ++ Text.trim search ++ "%") ∨
    p.slug.elim false (ilike · ("%" ++ Text.trim search ++ "%")) ∨
    p.contractAddress = some (Text.lower (Text.trim search))

def FeedPrice.condition : FeedPrice → Bool
  | .free => decisionStagePrice scans p.id now = some "0"
  | .paid => (decisionStagePrice scans p.id now).elim false (· ≠ "0")

def FeedSocialFilter.condition : FeedSocialFilter → Bool
  | .twitter => filled p.twitterUsername
  | .website => filled p.projectUrl
  | .either => filled p.twitterUsername || filled p.projectUrl
  | .both => filled p.twitterUsername && filled p.projectUrl

/-- All conditions but the keyset's. -/
def FeedFilters.conditions : Bool :=
  filters.view.condition db scans now filters p ∧ curated db p ∧
    filters.status.elim true (p.lifecycleStatus = ·) ∧
    filters.confidence.elim true (p.confidence = ·) ∧
    filters.source.elim true (fun source => db.aliases.any fun pa =>
      pa.projectId = p.id ∧ pa.providerKind = source) ∧
    filters.search.elim true (searched p) ∧
    filters.firstSeenFrom.elim true (· ≤ p.firstSeenAt) ∧
    filters.firstSeenTo.elim true (p.firstSeenAt ≤ ·) ∧
    filters.price.elim true (·.condition scans now p) ∧
    filters.wl.elim true (fun wl => hasWlHit db scans p.id now = decide (wl = .hit)) ∧
    filters.social.elim true (·.condition p) ∧
    filters.watchedBy.elim true (fun user => db.watchlist.any fun we =>
      we.projectId = p.id ∧ we.userId = user) ∧
    (filters.view = .eligible ∨ filters.eligibility.elim true fun status =>
      db.checks.any fun ec => ec.projectId = p.id ∧ ec.status = status)

end

/-! ### Numbers -/

/-- Halves away from zero, with `scale` digits after the point. -/
def roundTo (scale : ℕ) (q : ℚ) : ℚ :=
  (if q < 0 then -1 else 1) * (⌊|q| * (10 ^ scale : ℕ) + 1 / 2⌋ : ℚ) / (10 ^ scale : ℕ)

/-- The leading digit of a `numeric`, in base ten thousand. -/
def firstDigit (n : ℕ) : ℕ := n / 10000 ^ Nat.log 10000 n

/-- Digits after the point of a quotient of whole `numeric`s: at least sixteen significant ones,
in groups of four. -/
def divScale (a b : ℤ) : ℕ :=
  let qweight := (Nat.log 10000 a.natAbs : ℤ) - Nat.log 10000 b.natAbs -
    (if firstDigit a.natAbs ≤ firstDigit b.natAbs then 1 else 0)
  (min (max (16 - 4 * qweight) 0) 1000).toNat

/-- `a::numeric / b::numeric`. -/
def numericDiv (a b : ℤ) : ℚ := roundTo (divScale a b) ((a : ℚ) / b)

/-- `(Number(a) / Number(b)).toFixed(6)`, in millionths. -/
def ratioMillionths (a b : ℤ) : ℤ :=
  let q := Double.nearest (Double.nearest a / Double.nearest b)
  (if q < 0 then -1 else 1) * ⌊|q| * 1000000 + 1 / 2⌋

/-! ### Keys and cursors -/

/-- What the sort orders compare: names, instants with infinity, or ratios. -/
abbrev SortKey (κ : Type) := κ ⊕ₗ (WithTop ℤ) ⊕ₗ ℚ

namespace SortKey

variable {κ : Type}

def name (n : κ) : SortKey κ := Sum.inlₗ n
def time (t : WithTop ℤ) : SortKey κ := Sum.inrₗ (Sum.inlₗ t)
def number (q : ℚ) : SortKey κ := Sum.inrₗ (Sum.inrₗ q)

end SortKey

/-- The latest snapshot of a project. -/
def latestSnapshot (db : FeedDb) (projectId : String) : Option SupplySnapshot :=
  newest (db.snapshots.filter fun s => s.projectId = projectId)

/-- `coalesce((select case … end …), -1)`. -/
def mintedRatio (db : FeedDb) (p : FeedProject) : ℚ :=
  match latestSnapshot db p.id with
  | none => -1
  | some s =>
    match s.verified, s.maxSupply with
    | true, some maxSupply => if maxSupply > 0 then numericDiv s.minted maxSupply else -1
    | _, _ => -1

/-- A row of a page. -/
structure FeedRow where
  project : FeedProject
  minted : Option ℤ
  maxSupply : Option ℤ
  supplyVerified : Bool
  stageId : Option String
  stageLabel : Option String
  stageKind : Option StageKind
  stagePriceWei : Option String
  stageMaxPerWallet : Option ℕ
  stageStartsAt : Option ℤ
  stageEndsAt : Option ℤ
  nextStageId : Option String
  nextStageLabel : Option String
  nextStageKind : Option StageKind
  nextStagePriceWei : Option String
  nextStageMaxPerWallet : Option ℕ
  nextStageEndsAt : Option ℤ

/-- The select list.  In it a bare `projects.id` is rendered without its table, and inside a
subquery of `supply_snapshots` means the snapshot's own id, which is no project's: the supply comes
back as of a project that has none. -/
def feedRow (scans : Scans) (now : ℤ) (p : FeedProject) : FeedRow :=
  let current {α : Type} (col : StageRow → Option α) (column : StageColumn) : Option α :=
    currentStageCol col (scans ⟨.row, false, column⟩) p.id now
  let next {α : Type} (col : StageRow → Option α) (column : StageColumn) : Option α :=
    nextStageCol col (scans ⟨.row, true, column⟩) p.id now
  { project := p
    minted := none
    maxSupply := none
    supplyVerified := false
    stageId := current (fun ds => some ds.id) .id
    stageLabel := current (fun ds => some ds.label) .label
    stageKind := current (fun ds => some ds.type) .type
    stagePriceWei := current (fun ds => ds.priceWei) .priceWei
    stageMaxPerWallet := current (fun ds => ds.maxPerWallet) .maxPerWallet
    stageStartsAt := current (fun ds => some ds.startsAt) .startsAt
    stageEndsAt := current (fun ds => ds.endsAt) .endsAt
    nextStageId := next (fun ds => some ds.id) .id
    nextStageLabel := next (fun ds => some ds.label) .label
    nextStageKind := next (fun ds => some ds.type) .type
    nextStagePriceWei := next (fun ds => ds.priceWei) .priceWei
    nextStageMaxPerWallet := next (fun ds => ds.maxPerWallet) .maxPerWallet
    nextStageEndsAt := next (fun ds => ds.endsAt) .endsAt }

/-- `coerceDate(…).toISOString()`: what is below the millisecond is dropped. -/
def toIso (t : ℤ) : CursorText := .instant (t / 1000)

/-- `encodeCursor`. -/
def encodeCursor (row : FeedRow) (sort : FeedSort) : Cursor where
  id := row.project.id
  v :=
    match sort with
    | .name => .text row.project.name
    | .starting | .velocity => row.project.nextStageStart.elim .infinity toIso
    | .discovered => toIso row.project.firstSeenAt
    | .minted =>
      match row.maxSupply, row.supplyVerified, row.minted with
      | some maxSupply, true, some minted =>
        if maxSupply ≠ 0 then .ratio (ratioMillionths minted maxSupply) else .empty
      | _, _, _ => .empty
    | .recent => toIso row.project.lastSeenAt

section

variable {κ : Type} [LinearOrder κ] (collate : String → κ) (db : FeedDb)

/-- `sortExpr`. -/
def sortKey (sort : FeedSort) (p : FeedProject) : SortKey κ :=
  match sort with
  | .name => .name (collate p.name)
  | .starting | .velocity => .time (p.nextStageStart.elim ⊤ fun t => (t : WithTop ℤ))
  | .discovered => .time p.firstSeenAt
  | .minted => .number (mintedRatio db p)
  | .recent => .time p.lastSeenAt

/-- `cursorValue`; nothing for a text that the cast does not take. -/
def cursorValue (sort : FeedSort) (v : CursorText) : Option (SortKey κ) :=
  match sort, v with
  | .name, .text name => some (.name (collate name))
  | .starting, .infinity | .velocity, .infinity => some (.time ⊤)
  | .starting, .instant ms | .velocity, .instant ms | .discovered, .instant ms
  | .recent, .instant ms => some (.time ((ms * 1000 : ℤ) : WithTop ℤ))
  | .minted, .empty => some (.number (-1))
  | .minted, .ratio millionths => some (.number (millionths / 1000000))
  | _, _ => none

/-- `asc`, or else `desc`, in `orderBy`. -/
def FeedSort.ascending (sort : FeedSort) : Bool :=
  sort = .name ∨ sort = .starting ∨ sort = .velocity

/-- `descSort`, of the keyset comparison. -/
def FeedSort.descSort (sort : FeedSort) : Bool := sort ≠ .starting ∧ sort ≠ .name

/-- `(sortExpr, id)`. -/
def position (sort : FeedSort) (p : FeedProject) : SortKey κ ×ₗ String :=
  toLex (sortKey collate db sort p, p.id)

/-- `orderBy`. -/
def before (sort : FeedSort) (p q : FeedProject) : Bool :=
  if sort.ascending then decide (position collate db sort p < position collate db sort q)
  else decide (position collate db sort q < position collate db sort p)

/-- `comparison`. -/
def pastCursor (sort : FeedSort) (value : SortKey κ) (id : String) (p : FeedProject) : Bool :=
  if sort.descSort then decide (position collate db sort p < toLex (value, id))
  else decide (toLex (value, id) < position collate db sort p)

structure FeedPage where
  rows : List FeedRow
  nextCursor : Option Cursor

/-- The rows of a query, in order. -/
def sorted (sort : FeedSort) (ps : List FeedProject) : List FeedProject :=
  ps.insertionSort fun p q => ¬ before collate db sort q p

/-- The page that the rows found make: one more is read than it shows. -/
def pageOf (scans : Scans) (now : ℤ) (filters : FeedFilters) (found : List FeedProject) :
    FeedPage :=
  let rows := ((sorted collate db filters.sorting found).take (filters.pageLimit + 1)).map
    (feedRow scans now)
  let page := rows.take filters.pageLimit
  ⟨page, if rows.length > filters.pageLimit then
    page.getLast?.map (encodeCursor · filters.sorting) else none⟩

/-- `queryFeed`; nothing when the cursor's text does not cast. -/
def queryFeed (scans : Scans) (now : ℤ) (filters : FeedFilters) : Option FeedPage :=
  match filters.cursor with
  | none =>
    some (pageOf collate db scans now filters
      (db.projects.rows.filter (filters.conditions db scans now)))
  | some cursor =>
    (cursorValue collate filters.sorting cursor.v).map fun value =>
      pageOf collate db scans now filters (db.projects.rows.filter fun p =>
        filters.conditions db scans now p ∧
          pastCursor collate db filters.sorting value cursor.id p)

end

end Feed
