/-
Feeds as files (`apps/web/src/app/api/v1/exports/[view]/route.ts`).

* `can` — who may do what (`packages/auth/src/rbac.ts`);
* `csvEscape` — a cell, with a quote in front of what a spreadsheet would take for a formula;
* `getExport` — the route;
* `export_csv` — what a reader makes of the file: the first hundred projects of the listing, with
  no formula among the cells, and a header that says whether there are more;
* `export_csv_carriage` — a reader that also ends records at carriage returns sees the same exactly
  when none stands in a cell without quotes.

The texts that the driver and `String` make of a row's columns are a parameter.
-/
import HoodMint.FeedPages
import HoodMint.FirstAdmin
import HoodMint.Lib.Csv
import HoodMint.Lib.Utf16

namespace FeedExports

open Feed
open FirstAdmin (Role)

/-! ### Roles -/

/-- `ACTIONS`. -/
inductive Action
  | feedsRead | projectsRead | watchlistManage | scansRun | walletsManage | credentialsManage
  | providersConfigure | alertsConfigure | usersManage | auditRead | systemOperate | exportsRead
  | executionConfigure | executionOperate
deriving DecidableEq

/-- `MATRIX`. -/
def permits : Role → Action → Bool
  | .viewer, action => action ∈ [.feedsRead, .projectsRead]
  | .operator, action => action ∈
      [.feedsRead, .projectsRead, .watchlistManage, .scansRun, .walletsManage, .exportsRead]
  | .admin, _ => true

/-- `can`. -/
def can (role : Option Role) (action : Action) : Bool := role.elim false (permits · action)

structure SessionUser where
  id : String
  role : Role

/-! ### The request -/

/-- `VIEWS`. -/
def viewOf : String → Option FeedView
  | "all" => some .all
  | "live" => some .live
  | "next" => some .next
  | "latest" => some .latest
  | "eligible" => some .eligible
  | "watchlist" => some .watchlist
  | _ => none

structure QueryParams where
  format : Option String := none
  q : Option String := none
  sort : Option String := none
  price : Option String := none
  wl : Option String := none
  social : Option String := none

def sortOf : String → Option FeedSort
  | "recent" => some .recent
  | "starting" => some .starting
  | "velocity" => some .velocity
  | "minted" => some .minted
  | "name" => some .name
  | "discovered" => some .discovered
  | _ => none

def priceOf : String → Option FeedPrice
  | "free" => some .free
  | "paid" => some .paid
  | _ => none

def wlOf : String → Option FeedWlFilter
  | "hit" => some .hit
  | "none" => some .none
  | _ => none

def socialOf : String → Option FeedSocialFilter
  | "twitter" => some .twitter
  | "website" => some .website
  | "either" => some .either
  | "both" => some .both
  | _ => none

/-- `z.enum([…]).optional()`; the outer `none` is an issue. -/
def optionalEnum {β : Type} (read : String → Option β) : Option String → Option (Option β)
  | none => some none
  | some text => (read text).map some

inductive Format | csv | json
deriving DecidableEq

def formatOf : String → Option Format
  | "csv" => some .csv
  | "json" => some .json
  | _ => none

/-- `z.string().trim().max(120).optional()`. -/
def searchOf : Option String → Option (Option String)
  | none => some none
  | some text =>
    if (Utf16.ofText (Text.trim text)).length ≤ 120 then some (some (Text.trim text)) else none

/-- `MAX_EXPORT_ROWS`. -/
def maxExportRows : ℤ := 1000

/-- `querySchema.safeParse`, and the filters that come of it. -/
def exportQuery (view : FeedView) (userId : Option String) (params : QueryParams) :
    Option (Format × FeedFilters) := do
  let format ← (optionalEnum formatOf params.format).map (·.getD .json)
  let search ← searchOf params.q
  let sort ← optionalEnum sortOf params.sort
  let price ← optionalEnum priceOf params.price
  let wl ← optionalEnum wlOf params.wl
  let social ← optionalEnum socialOf params.social
  return (format, { view, userId, search, sort, price, wl, social, limit := some maxExportRows })

/-! ### The file -/

inductive Column
  | id | name | chainId | contractAddress | lifecycleStatus | confidence | stageLabel
  | stagePriceWei | stageStartsAt | minted | maxSupply | velocity1h | uniqueMinters1h
  | activityComputedAt | firstSeenAt
deriving DecidableEq

namespace Column

def text : Column → String
  | id => "id"
  | name => "name"
  | chainId => "chainId"
  | contractAddress => "contractAddress"
  | lifecycleStatus => "lifecycleStatus"
  | confidence => "confidence"
  | stageLabel => "stageLabel"
  | stagePriceWei => "stagePriceWei"
  | stageStartsAt => "stageStartsAt"
  | minted => "minted"
  | maxSupply => "maxSupply"
  | velocity1h => "velocity1h"
  | uniqueMinters1h => "uniqueMinters1h"
  | activityComputedAt => "activityComputedAt"
  | firstSeenAt => "firstSeenAt"

end Column

/-- `CSV_COLUMNS`. -/
def csvColumns : List Column :=
  [.id, .name, .chainId, .contractAddress, .lifecycleStatus, .confidence, .stageLabel,
    .stagePriceWei, .stageStartsAt, .minted, .maxSupply, .velocity1h, .uniqueMinters1h,
    .activityComputedAt, .firstSeenAt]

/-- What a spreadsheet takes for the start of a formula. -/
def formula (c : Char) : Bool := c ∈ ['=', '+', '-', '@', '\t', '\r']

/-- With a single quote in front of a formula. -/
def guarded (s : List Char) : List Char := if s.head?.any formula then '\'' :: s else s

/-- `csvEscape`, of a value by its text; `null` has none. -/
def csvEscape (value : Option String) : List Char :=
  match value with
  | none => []
  | some text =>
    let s := guarded text.toList
    if s.any fun c => c ∈ ['"', ',', '\n'] then
      '"' :: s.flatMap (fun c => if c = '"' then ['"', '"'] else [c]) ++ ['"']
    else s

/-- `csv`, of the rows by their columns' values. -/
def csvText (rows : List (Column → Option String)) : List Char :=
  let header := [','].intercalate (csvColumns.map fun col => col.text.toList)
  let lines := rows.map fun row => [','].intercalate (csvColumns.map fun col => csvEscape (row col))
  ['\n'].intercalate (header :: lines)

/-- What the route answers; `truncated` is its `x-export-truncated`. -/
inductive Response
  | problem (status : ℕ)
  | json (rows : List FeedRow) (truncated : Bool)
  | csv (body : List Char) (truncated : Bool)

section

variable {κ : Type} [LinearOrder κ] (collate : String → κ) (db : FeedDb) (scans : Scans) (now : ℤ)
  (shown : FeedRow → Column → Option String)

/-- `GET`; nothing where the query throws. -/
def getExport (view : String) (user : Option SessionUser) (params : QueryParams) :
    Option Response :=
  match viewOf view with
  | none => some (.problem 404)
  | some view =>
    if can (user.map SessionUser.role) .exportsRead = false then some (.problem 403)
    else if (view = .watchlist ∨ view = .eligible) ∧ user.isNone then some (.problem 401)
    else match exportQuery view (user.map SessionUser.id) params with
      | none => some (.problem 400)
      | some (format, filters) =>
        (queryFeed collate db scans now filters).map fun page =>
          let truncated := page.nextCursor.isSome
          match format with
          | .json => .json page.rows truncated
          | .csv => .csv (csvText (page.rows.map shown)) truncated

end

/-! ### What a reader makes of a cell -/

/-- The writer of the route, and a reader that ends records at `ends`. -/
def dialect (ends : Char → Bool) (hnewline : ends '\n' = true) (hcomma : ends ',' = false)
    (hquote : ends '"' = false) : Csv.Dialect Char where
  comma := ','
  quote := '"'
  newline := '\n'
  ends := ends
  ends_newline := hnewline
  ends_comma := hcomma
  ends_quote := hquote
  comma_ne_quote := by decide

/-- Records end at newlines. -/
def lines : Csv.Dialect Char := dialect (· = '\n') (by decide) (by decide) (by decide)

/-- Records end at newlines and at carriage returns. -/
def carriages : Csv.Dialect Char :=
  dialect (fun c => c = '\n' ∨ c = '\r') (by decide) (by decide) (by decide)

/-- The text of a cell, as it is to be read. -/
def cellText (value : Option String) : List Char :=
  value.elim [] fun text => guarded text.toList

section

variable {d : Csv.Dialect Char}

theorem special_eq (ends : Char → Bool) (h₁ h₂ h₃) (c : Char) :
    Csv.special (dialect ends h₁ h₂ h₃) c = decide (c ∈ ['"', ',', '\n']) := by
  simp only [Csv.special, dialect, List.mem_cons, List.not_mem_nil, or_false]
  by_cases hc : c = ','
  · simp [hc]
  · simp [hc]

theorem csvEscape_eq (ends : Char → Bool) (h₁ h₂ h₃) (value : Option String) :
    csvEscape value = Csv.cell (dialect ends h₁ h₂ h₃) (cellText value) := by
  cases value with
  | none => rfl
  | some text =>
    have hany : (guarded text.toList).any (Csv.special (dialect ends h₁ h₂ h₃)) =
        (guarded text.toList).any fun c => c ∈ ['"', ',', '\n'] := by
      congr
      exact funext (special_eq ends h₁ h₂ h₃)
    rw [csvEscape, cellText, Option.elim_some, Csv.cell, hany]
    rfl

/-- No cell starts a formula. -/
theorem not_formula_cellText (value : Option String) :
    (cellText value).head?.any formula = false := by
  cases value with
  | none => rfl
  | some text =>
    rw [cellText, Option.elim_some, guarded]
    split
    · rfl
    · next h => exact Bool.eq_false_iff.mpr h

end

/-! ### What a reader makes of the file -/

/-- The records of a file: the columns, and the cells of each row. -/
def records (rows : List (Column → Option String)) : List (List (List Char)) :=
  (csvColumns.map fun col => col.text.toList) ::
    rows.map fun row => csvColumns.map fun col => cellText (row col)

section

variable (ends : Char → Bool) (hnewline : ends '\n' = true) (hcomma : ends ',' = false)
  (hquote : ends '"' = false) (rows : List (Column → Option String))

theorem csvText_eq :
    csvText rows = Csv.document (dialect ends hnewline hcomma hquote) (records rows) := by
  -- the names of the columns need no quotes
  have hheader : (csvColumns.map fun col => col.text.toList) = csvColumns.map
      (Csv.cell (dialect ends hnewline hcomma hquote) ∘ fun col => col.text.toList) := by
    refine List.map_congr_left fun col _ => ?_
    rw [Function.comp_apply, Csv.cell, if_neg]
    cases col <;> simp [Csv.special, dialect, Column.text]
  have hcells : ∀ row : Column → Option String, [','].intercalate (csvColumns.map fun col =>
      csvEscape (row col)) = Csv.record (dialect ends hnewline hcomma hquote)
        (csvColumns.map fun col => cellText (row col)) := by
    intro row
    rw [Csv.record, List.map_map]
    exact congrArg _ (List.map_congr_left fun col _ => csvEscape_eq ends hnewline hcomma hquote _)
  rw [csvText, Csv.document, records, List.map_cons, List.map_map, Csv.record, List.map_map,
    ← hheader]
  simp only [hcells]
  rfl

theorem read_csvText_iff :
    Csv.read (dialect ends hnewline hcomma hquote) .start [] [] (csvText rows) = records rows ↔
      ∀ cells ∈ records rows, ∀ text ∈ cells,
        Csv.breaks (dialect ends hnewline hcomma hquote) text = 0 := by
  rw [csvText_eq ends hnewline hcomma hquote]
  refine Csv.read_document_iff (List.cons_ne_nil _ _) fun cells hcells => ?_
  rcases List.mem_cons.mp hcells with rfl | hcells
  · exact List.cons_ne_nil _ _
  · obtain ⟨row, -, rfl⟩ := List.mem_map.mp hcells
    exact List.cons_ne_nil _ _

end

/-- A newline is between quotes. -/
theorem breaks_lines (text : List Char) : Csv.breaks lines text = 0 := by
  rw [Csv.breaks]
  split
  · rfl
  · next h =>
    rw [List.countP_eq_zero]
    intro c hc hend
    refine h (List.any_eq_true.mpr ⟨c, hc, ?_⟩)
    have hnewline : c = '\n' := of_decide_eq_true hend
    rw [hnewline]
    decide

/-- A reader that ends records at newlines sees the cells of the file. -/
theorem read_lines (rows : List (Column → Option String)) :
    Csv.read lines .start [] [] (csvText rows) = records rows :=
  (read_csvText_iff _ _ _ _ rows).mpr fun _ _ text _ => breaks_lines text

/-- So is a carriage return next to another special symbol. -/
theorem breaks_carriages (text : List Char) : Csv.breaks carriages text = 0 ↔
    ('\r' ∈ text → ∃ c ∈ text, c ∈ ['"', ',', '\n']) := by
  have hany : text.any (Csv.special carriages) = true ↔ ∃ c ∈ text, c ∈ ['"', ',', '\n'] := by
    simp only [List.any_eq_true, carriages, special_eq, decide_eq_true_eq]
  rw [Csv.breaks]
  split
  · next h => exact ⟨fun _ _ => hany.mp h, fun _ => rfl⟩
  · next h =>
    rw [List.countP_eq_zero]
    constructor
    · exact fun hnone hr => absurd (by decide) (hnone '\r' hr)
    · intro himp c hc hend
      have hcases : c = '\n' ∨ c = '\r' := of_decide_eq_true hend
      rcases hcases with rfl | rfl
      · exact h (hany.mpr ⟨_, hc, by simp⟩)
      · exact h (hany.mpr (himp hc))

/-! ### The route -/

section

variable {κ : Type} [LinearOrder κ] {collate : String → κ} {db : FeedDb} {scans : Scans} {now : ℤ}
  {shown : FeedRow → Column → Option String} {view : String} {user : Option SessionUser}
  {params : QueryParams} {body : List Char} {truncated : Bool}

theorem exportQuery_limit {v : FeedView} {userId : Option String} {format : Format}
    {filters : FeedFilters} (h : exportQuery v userId params = some (format, filters)) :
    filters.pageLimit = 100 ∧ filters.cursor = none := by
  simp only [exportQuery, Option.bind_eq_bind, Option.bind_eq_some_iff, Option.pure_def,
    Option.some_inj, Prod.mk.injEq] at h
  obtain ⟨-, -, -, -, -, -, -, -, -, -, -, -, -, rfl⟩ := h
  exact ⟨show (min (max (1000 : ℤ) 1) 100).toNat = 100 by decide, rfl⟩

/-- What a file has come of. -/
theorem getExport_csv
    (h : getExport collate db scans now shown view user params = some (.csv body truncated)) :
    ∃ u, user = some u ∧ u.role ≠ .viewer ∧ ∃ v filters, viewOf view = some v ∧
      exportQuery v (some u.id) params = some (.csv, filters) ∧
        ∃ page, queryFeed collate db scans now filters = some page ∧
          truncated = page.nextCursor.isSome ∧ body = csvText (page.rows.map shown) := by
  rw [getExport] at h
  split at h
  · cases h
  · next v hview =>
    split at h
    · cases h
    · next hcan =>
      split at h
      · cases h
      · split at h
        · cases h
        · next format filters hquery =>
          obtain ⟨page, hpage, hbody⟩ := Option.map_eq_some_iff.mp h
          cases user with
          | none => exact absurd rfl hcan
          | some u =>
            refine ⟨u, rfl, ?_, v, filters, hview, ?_, page, hpage, ?_⟩
            · rintro hrole
              rw [Option.map_some, can, Option.elim_some, hrole] at hcan
              exact hcan rfl
            · cases format with
              | json => cases hbody
              | csv => exact hquery
            · cases format with
              | json => cases hbody
              | csv =>
                obtain ⟨rfl, rfl⟩ := Response.csv.inj hbody
                exact ⟨rfl, rfl⟩

/-- The projects of a file, in order. -/
def listing (collate : String → κ) (db : FeedDb) (scans : Scans) (now : ℤ)
    (filters : FeedFilters) : List FeedProject :=
  sorted collate db filters.sorting (db.projects.rows.filter (filters.conditions db scans now))

theorem page_of_listing {filters : FeedFilters} {page : FeedPage} (hlimit : filters.pageLimit = 100)
    (hcursor : filters.cursor = none) (h : queryFeed collate db scans now filters = some page) :
    page.rows = ((listing collate db scans now filters).take 100).map (feedRow scans now) ∧
      (page.nextCursor.isSome = true ↔ 100 < (listing collate db scans now filters).length) := by
  rw [queryFeed, hcursor] at h
  obtain rfl := Option.some_inj.mp h
  refine ⟨?_, ?_⟩
  · rw [pageOf, take_read, hlimit]
    rfl
  · have hnone : Keyset.handOn 100 (listing collate db scans now filters) = none ↔ _ :=
      Keyset.handOn_eq_none (by decide)
    rw [pageOf_nextCursor, Option.isSome_map, hlimit, Option.isSome_iff_ne_none, Ne]
    exact (not_congr hnone).trans Nat.not_le

/-- **The file.**  It is for operators and admins.  Its records are the columns and the first
hundred projects of the listing, though a thousand are asked for; whether there are more is said;
and no cell that a reader sees starts a formula. -/
theorem export_csv
    (h : getExport collate db scans now shown view user params = some (.csv body truncated)) :
    ∃ u, user = some u ∧ u.role ≠ .viewer ∧ ∃ v filters, viewOf view = some v ∧
      exportQuery v (some u.id) params = some (.csv, filters) ∧
        (truncated = true ↔ 100 < (listing collate db scans now filters).length) ∧
        Csv.read lines .start [] [] body = records
          (((listing collate db scans now filters).take 100).map
            fun p => shown (feedRow scans now p)) ∧
        ∀ record ∈ (Csv.read lines .start [] [] body).tail, ∀ cell ∈ record,
          cell.head?.any formula = false := by
  obtain ⟨u, huser, hrole, v, filters, hview, hquery, page, hpage, rfl, rfl⟩ := getExport_csv h
  obtain ⟨hlimit, hcursor⟩ := exportQuery_limit hquery
  obtain ⟨hrows, hmore⟩ := page_of_listing hlimit hcursor hpage
  refine ⟨u, huser, hrole, v, filters, hview, hquery, hmore, ?_, ?_⟩
  · rw [read_lines, hrows, List.map_map]
    rfl
  · rw [read_lines]
    rintro cells hcells cell hcell
    obtain ⟨row, -, rfl⟩ := List.mem_map.mp hcells
    obtain ⟨col, -, rfl⟩ := List.mem_map.mp hcell
    exact not_formula_cellText (row col)

/-- **Carriage returns.**  A reader that also ends records at them sees the same records exactly
when each cell that has one is between quotes. -/
theorem export_csv_carriage
    (h : getExport collate db scans now shown view user params = some (.csv body truncated)) :
    Csv.read carriages .start [] [] body = Csv.read lines .start [] [] body ↔
      ∀ record ∈ Csv.read lines .start [] [] body, ∀ cell ∈ record,
        '\r' ∈ cell → ∃ c ∈ cell, c ∈ ['"', ',', '\n'] := by
  obtain ⟨u, -, -, v, filters, -, -, page, -, -, rfl⟩ := getExport_csv h
  rw [read_lines]
  refine (read_csvText_iff _ _ _ _ _).trans ?_
  exact forall₂_congr fun record _ => forall₂_congr fun cell _ => breaks_carriages cell

end

/-! ### A file -/

namespace Sample

def operator : SessionUser := ⟨"u", .operator⟩

/-- Every name looks like a formula. -/
def shown (row : FeedRow) : Column → Option String
  | .name => some ("=" ++ row.project.name)
  | _ => none

/-- Everything, in CSV. -/
def fileOfAll : Option Response :=
  getExport id twoDrops (fun _ => []) 0 shown "all" (some operator) { format := some "csv" }

/-- A name with a carriage return in it. -/
def carriage : Column → Option String
  | .name => some "a\r=1+1"
  | _ => none

/-- Everything, with such names. -/
def fileOfCarriages : Option Response :=
  getExport id twoDrops (fun _ => []) 0 (fun _ => carriage) "all" (some operator)
    { format := some "csv" }

/-- The text of an answer that is a file. -/
def text : Option Response → List Char
  | some (.csv body _) => body
  | _ => []

theorem exists_of_text {answer : Option Response} (h : text answer ≠ []) :
    ∃ truncated, answer = some (.csv (text answer) truncated) := by
  cases answer with
  | none => exact absurd rfl h
  | some answer =>
    cases answer with
    | problem => exact absurd rfl h
    | json => exact absurd rfl h
    | csv body truncated => exact ⟨truncated, rfl⟩

end Sample

theorem export_csv_twoDrops : ∃ body truncated,
    Sample.fileOfAll = some (.csv body truncated) ∧
      ∀ record ∈ (Csv.read lines .start [] [] body).tail, ∀ cell ∈ record,
        cell.head?.any formula = false := by
  have hfile : Sample.text Sample.fileOfAll ≠ [] := by decide +kernel
  obtain ⟨truncated, h⟩ := Sample.exists_of_text hfile
  obtain ⟨-, -, -, -, -, -, -, -, -, hcells⟩ := export_csv h
  exact ⟨_, truncated, h, hcells⟩

/-- The two readers see different records. -/
theorem export_csv_carriage_twoDrops : ∃ body truncated,
    Sample.fileOfCarriages = some (.csv body truncated) ∧
      Csv.read carriages .start [] [] body ≠ Csv.read lines .start [] [] body := by
  have hfile : (csvText []).length < (Sample.text Sample.fileOfCarriages).length := by
    decide +kernel
  obtain ⟨truncated, h⟩ :=
    Sample.exists_of_text (List.ne_nil_of_length_pos (Nat.zero_lt_of_lt hfile))
  obtain ⟨-, -, -, -, -, -, -, page, -, -, hbody⟩ := getExport_csv h
  refine ⟨_, truncated, h, fun hsame => ?_⟩
  cases hrows : page.rows with
  | nil =>
    rw [hbody, hrows] at hfile
    exact absurd hfile (lt_irrefl _)
  | cons row rest =>
    -- the name has a carriage return, and is written without quotes
    have hrecord : (csvColumns.map fun col => cellText (Sample.carriage col)) ∈
        Csv.read lines .start [] [] (Sample.text Sample.fileOfCarriages) := by
      rw [hbody, read_lines, hrows]
      exact List.mem_cons_of_mem _ List.mem_cons_self
    have hcell : cellText (Sample.carriage .name) ∈
        csvColumns.map fun col => cellText (Sample.carriage col) :=
      List.mem_map_of_mem (by decide)
    obtain ⟨c, hc, hspecial⟩ :=
      (export_csv_carriage h).mp hsame _ hrecord _ hcell (by decide +kernel)
    have hplain : (cellText (Sample.carriage .name)).all (fun c => c ∉ ['"', ',', '\n']) = true := by
      decide +kernel
    exact of_decide_eq_true (List.all_eq_true.mp hplain c hc) hspecial

/-- The formula behind a carriage return starts a record. -/
example : (Csv.read carriages .start [] [] (csvText [Sample.carriage]))[2]?.bind List.head? =
    some "=1+1".toList := by
  decide +kernel

end FeedExports
