/-
What a wallet may still mint on a drop (`packages/db/src/repositories/mint-allowance.ts`,
`apps/web/src/lib/mint-allowance.ts`).

* `walletMintTotalsForProject` — for every wallet the larger of two sums: the events indexed, and
  the quantities of the plans that have been broadcast;
* `remainingAllowance` — what a cap leaves of a request;
* `Books` — the mints there have been, and the rows that tell of them;
* `CountExact` — the count covers what is known to be minted, and is exact once all is indexed;
* `countExact_iff` — where it is: the larger of two sums is their union only when one holds the
  other.

Sums are cast to `integer`; a sum too large for one fails the query, and its callers then count
nothing.
-/
import HoodMint.Eligibility
import HoodMint.Lib.Grouping
import HoodMint.MintPlans

namespace MintAllowance

open Relational MintWorker Eligibility

/-! ### Totals -/

/-- A row of `mint_events`, as far as the totals read it. -/
structure MintedEvent where
  projectId : Option String
  recipient : String
  quantity : ℕ
deriving DecidableEq

/-- `WalletDropMintTotals`. -/
structure WalletDropMintTotals where
  walletId : String
  address : String
  confirmedQuantity : ℕ
  broadcastQuantity : ℕ
  alreadyMinted : ℕ
deriving DecidableEq

/-- The largest `integer`. -/
def integerMax : ℕ := 2147483647

/-- A plan that has been broadcast, as far as its status tells. -/
def isBroadcast (status : PlanStatus) : Bool := status = .executed ∨ status = .executing

section

variable (events : List MintedEvent) (plans : MintPlans) (projectId : String)

/-- The events of a project. -/
def projectEvents : List MintedEvent := events.filter fun e => e.projectId = some projectId

/-- The broadcast plans of a project. -/
def broadcastPlans : List MintPlan :=
  plans.rows.filter fun r => r.projectId = projectId ∧ isBroadcast r.status

/-- `sum(…)::int … GROUP BY recipient`. -/
def onchain : List (String × ℕ) :=
  groupTotals MintedEvent.recipient MintedEvent.quantity (projectEvents events projectId)

/-- `sum(…)::int … GROUP BY wallet_id`. -/
def broadcast : List (String × ℕ) :=
  groupTotals MintPlan.walletId MintPlan.quantity (broadcastPlans plans projectId)

/-- A sum does not fit an `integer`. -/
def overflows : Bool :=
  (onchain events projectId).any (fun g => g.2 > integerMax) ||
    (broadcast plans projectId).any fun g => g.2 > integerMax

/-- The row of a wallet. -/
def totalsOf (w : WalletRow) : WalletDropMintTotals :=
  let confirmed := ((onchain events projectId).lookup (Text.lower w.address)).getD 0
  let broadcastQuantity := ((broadcast plans projectId).lookup w.id).getD 0
  ⟨w.id, w.address, confirmed, broadcastQuantity, max confirmed broadcastQuantity⟩

/-- `walletMintTotalsForProject`; nothing when it fails. -/
def walletMintTotalsForProject (wallets : Table WalletRow String WalletRow.id) :
    Option (List WalletDropMintTotals) :=
  if overflows events plans projectId then none
  else some (wallets.rows.map (totalsOf events plans projectId))

/-- `totals.get(walletId)?.alreadyMinted ?? 0`, of no totals when the query has failed. -/
def alreadyMinted (wallets : Table WalletRow String WalletRow.id) (walletId : String) : ℕ :=
  (((walletMintTotalsForProject events plans projectId wallets).getD []).find? fun t =>
    t.walletId = walletId).elim 0 (·.alreadyMinted)

end

/-! ### What a cap leaves -/

/-- `RemainingAllowance`. -/
structure RemainingAllowance where
  capKnown : Bool
  maxPerWallet : Option ℕ
  alreadyMinted : ℕ
  remaining : Option ℕ
  requested : ℕ
  effective : ℕ
  clamped : Bool
  exhausted : Bool
deriving DecidableEq

/-- `asCount`. -/
def asCount (value : Option ℤ) : ℕ := (value.getD 0).toNat

/-- `remainingAllowance`. -/
def remainingAllowance (maxPerWallet alreadyMinted : Option ℤ) (requested : ℤ) :
    RemainingAllowance :=
  let requested := max 1 (asCount (some requested))
  let alreadyMinted := asCount alreadyMinted
  let cap := asCount maxPerWallet
  if cap = 0 then ⟨false, none, alreadyMinted, none, requested, requested, false, false⟩
  else
    let remaining := cap - alreadyMinted
    let effective := min requested remaining
    ⟨true, some cap, alreadyMinted, some remaining, requested, effective,
      effective < requested, remaining = 0⟩

@[simp] theorem asCount_natCast (n : ℕ) : asCount (some (n : ℤ)) = n := Int.toNat_natCast n

/-- **Allowances.**  Of a known cap no more is used than it leaves, and a wallet is refused only
where it leaves nothing. -/
theorem remainingAllowance_spec {cap minted requested : ℕ} (hcap : 0 < cap) :
    (remainingAllowance (some cap) (some minted) requested).effective =
        min (max 1 requested) (cap - minted) ∧
      ((remainingAllowance (some cap) (some minted) requested).exhausted = true ↔
        cap ≤ minted) := by
  have hknown : asCount (some (cap : ℤ)) ≠ 0 := by
    rw [asCount_natCast]
    omega
  rw [remainingAllowance, if_neg hknown]
  simp only [asCount_natCast, decide_eq_true_eq, true_and]
  exact Nat.sub_eq_zero_iff_le

/-! ### Mints and rows -/

/-- A successful mint: what a wallet has received on a drop in one transaction. -/
structure Mint where
  projectId : String
  recipient : String
  quantity : ℕ
  planId : Option String
  indexed : Bool
deriving DecidableEq

/-- The mints there have been, and the rows that tell of them: the events are those of the mints
indexed so far.  A plan may have minted less than its quantity, or not yet; nothing keeps a wallet
from minting outside the console. -/
structure Books where
  mints : List Mint
  events : List MintedEvent
  plans : MintPlans
  wallets : Table WalletRow String WalletRow.id
  told : ∀ projectId recipient,
    total MintedEvent.quantity (events.filter fun e =>
        e.projectId = some projectId ∧ e.recipient = recipient) =
      total Mint.quantity (mints.filter fun m =>
        m.projectId = projectId ∧ m.recipient = recipient ∧ m.indexed = true)

namespace Books

variable (b : Books) (w : WalletRow) (projectId : String)

/-- The mints of a wallet on a drop. -/
def minted : List Mint :=
  b.mints.filter fun m => m.projectId = projectId ∧ m.recipient = Text.lower w.address

/-- The broadcast plans of a wallet on a drop. -/
def plansOf : List MintPlan :=
  (broadcastPlans b.plans projectId).filter fun r => r.walletId = w.id

/-- The mint was made by a broadcast plan of the wallet. -/
def byBroadcast (m : Mint) : Bool := (b.plansOf w projectId).any fun r => m.planId = some r.id

/-- The mint was made by an executed plan of the wallet. -/
def byExecuted (m : Mint) : Bool :=
  (b.plansOf w projectId).any fun r => m.planId = some r.id ∧ r.status = .executed

/-- Indexed, or of an executed plan. -/
def known (m : Mint) : Bool := m.indexed || b.byExecuted w projectId m

/-- The tokens of a wallet that are indexed or belong to an executed plan. -/
def covered : ℕ := total Mint.quantity ((b.minted w projectId).filter (b.known w projectId))

/-- All tokens of a wallet. -/
def everything : ℕ := total Mint.quantity (b.minted w projectId)

/-- The figure that is charged against the cap. -/
def figure : ℕ := alreadyMinted b.events b.plans projectId b.wallets w.id

/-- Everything is indexed, and no plan of the wallet is executing. -/
def Settled : Prop :=
  (∀ m ∈ b.minted w projectId, m.indexed = true) ∧
    ∀ r ∈ b.plansOf w projectId, r.status = .executed

/-! What the two sums are made of. -/

/-- Tokens of executed plans that are yet to be indexed. -/
def unindexed : ℕ :=
  total Mint.quantity ((b.minted w projectId).filter fun m =>
    ¬ m.indexed ∧ b.byExecuted w projectId m)

/-- Tokens indexed that no broadcast plan has minted. -/
def outside : ℕ :=
  total Mint.quantity ((b.minted w projectId).filter fun m =>
    m.indexed ∧ ¬ b.byBroadcast w projectId m)

/-- Tokens of broadcast plans that are indexed, or whose plan is executed. -/
def own : ℕ :=
  total Mint.quantity ((b.minted w projectId).filter fun m =>
    b.known w projectId m ∧ b.byBroadcast w projectId m)

/-- What the quantities of the broadcast plans exceed these tokens by: what descending left
unminted, and what executing plans have yet to mint. -/
def slack : ℤ := (total MintPlan.quantity (b.plansOf w projectId) : ℤ) - b.own w projectId

/-! ### What the figure is -/

section

variable {b : Books} {w : WalletRow} {projectId : String}

theorem byBroadcast_of_byExecuted {m : Mint} (h : b.byExecuted w projectId m = true) :
    b.byBroadcast w projectId m = true := by
  obtain ⟨r, hr, hm⟩ := List.any_eq_true.mp h
  exact List.any_eq_true.mpr ⟨r, hr, decide_eq_true (of_decide_eq_true hm).1⟩

/-- The tokens indexed, of the mints of a wallet. -/
theorem confirmed_eq :
    ((onchain b.events projectId).lookup (Text.lower w.address)).getD 0 =
      total Mint.quantity ((b.minted w projectId).filter Mint.indexed) := by
  rw [onchain, lookup_groupTotals, projectEvents, List.filter_filter, minted, List.filter_filter]
  have htold := b.told projectId (Text.lower w.address)
  simpa only [Bool.decide_and, Bool.decide_eq_true, Bool.and_comm, Bool.and_left_comm] using htold

theorem broadcast_eq :
    ((broadcast b.plans projectId).lookup w.id).getD 0 =
      total MintPlan.quantity (b.plansOf w projectId) :=
  lookup_groupTotals w.id

/-- The figure of a tracked wallet is the larger of the two sums. -/
theorem figure_eq (hw : w ∈ b.wallets) (hfit : overflows b.events b.plans projectId = false) :
    b.figure w projectId =
      max (total Mint.quantity ((b.minted w projectId).filter Mint.indexed))
        (total MintPlan.quantity (b.plansOf w projectId)) := by
  have hfind : ∃ t, ((b.wallets.rows.map (totalsOf b.events b.plans projectId)).find? fun t =>
      t.walletId = w.id) = some t := by
    refine Option.isSome_iff_exists.mp (List.find?_isSome.mpr ?_)
    exact ⟨_, List.mem_map_of_mem hw, decide_eq_true rfl⟩
  obtain ⟨t, ht⟩ := hfind
  obtain ⟨w', hw', rfl⟩ := List.mem_map.mp (List.mem_of_find?_eq_some ht)
  -- no two wallets share an identifier
  have hid : decide ((totalsOf b.events b.plans projectId w').walletId = w.id) = true := by
    have hsome := List.find?_some ht
    exact hsome
  obtain rfl := Table.eq_of_key hw' hw (of_decide_eq_true hid)
  rw [figure, alreadyMinted, walletMintTotalsForProject, if_neg (by simp [hfit])]
  simp only [Option.getD_some, ht, Option.elim_some, totalsOf, confirmed_eq, broadcast_eq]

/-- When a sum does not fit, nothing is charged. -/
theorem figure_eq_zero (hover : overflows b.events b.plans projectId = true) :
    b.figure w projectId = 0 := by
  rw [figure, alreadyMinted, walletMintTotalsForProject, if_pos hover]
  rfl

variable (b w projectId)

/-- What is covered is indexed, or of an executed plan and not indexed. -/
theorem covered_eq_indexed_add : b.covered w projectId =
    total Mint.quantity ((b.minted w projectId).filter Mint.indexed) +
      b.unindexed w projectId := by
  rw [covered, ← total_filter_add Mint.indexed, List.filter_filter, List.filter_filter, unindexed]
  congr 2
  · refine List.filter_congr fun m _ => ?_
    simp only [known]
    cases m.indexed <;> simp
  · refine List.filter_congr fun m _ => ?_
    simp only [known]
    cases m.indexed <;> simp

/-- What is covered is the console's own, or has been minted outside of it. -/
theorem covered_eq_own_add :
    b.covered w projectId = b.own w projectId + b.outside w projectId := by
  rw [covered, ← total_filter_add (b.byBroadcast w projectId), List.filter_filter,
    List.filter_filter, own, outside]
  congr 2
  · refine List.filter_congr fun m _ => ?_
    simp [Bool.and_comm]
  · refine List.filter_congr fun m _ => ?_
    simp only [known]
    cases hexecuted : b.byExecuted w projectId m with
    | true => simp [byBroadcast_of_byExecuted hexecuted]
    | false => simp [Bool.and_comm]

theorem plans_eq_own_add : (total MintPlan.quantity (b.plansOf w projectId) : ℤ) =
    b.own w projectId + b.slack w projectId := by
  rw [slack]
  omega

variable {b w projectId}

/-- Once everything is indexed it is covered, and none of it is waiting. -/
theorem covered_of_settled (h : b.Settled w projectId) :
    b.covered w projectId = b.everything w projectId ∧ b.unindexed w projectId = 0 := by
  have hall : (b.minted w projectId).filter (b.known w projectId) = b.minted w projectId := by
    refine List.filter_eq_self.mpr fun m hm => ?_
    rw [known, h.1 m hm, Bool.true_or]
  have hnone : ((b.minted w projectId).filter fun m =>
      ¬ m.indexed ∧ b.byExecuted w projectId m) = [] := by
    refine List.filter_eq_nil_iff.mpr fun m hm hwaiting => ?_
    exact (of_decide_eq_true hwaiting).1 (h.1 m hm)
  rw [covered, everything, unindexed, hall, hnone]
  exact ⟨rfl, rfl⟩

end

end Books

/-! ### The count is exact -/

variable (b : Books) (w : WalletRow) (projectId : String)

/-- The count covers what is known to be minted, and is exact once all is settled; of what a cap
leaves no more is used, and nothing is refused that it allows. -/
structure CountExact : Prop where
  covers : b.covered w projectId ≤ b.figure w projectId
  settles : b.Settled w projectId → b.figure w projectId = b.everything w projectId
  clamps : ∀ cap requested : ℕ, 0 < cap →
    (remainingAllowance (some cap) (some (b.figure w projectId)) requested).effective ≤
      cap - b.covered w projectId
  permits : b.Settled w projectId → ∀ cap requested : ℕ, 0 < cap →
    (remainingAllowance (some cap) (some (b.figure w projectId)) requested).effective =
        min (max 1 requested) (cap - b.everything w projectId) ∧
      ((remainingAllowance (some cap) (some (b.figure w projectId)) requested).exhausted = true ↔
        cap ≤ b.everything w projectId)

/-- Every plan's mint is indexed or no more is minted outside than plans have left unminted; and
once all is settled no less. -/
structure CountHolds : Prop where
  fits : overflows b.events b.plans projectId = true → b.covered w projectId = 0
  overlap : overflows b.events b.plans projectId = false →
    b.unindexed w projectId = 0 ∨ (b.outside w projectId : ℤ) ≤ b.slack w projectId
  settled : overflows b.events b.plans projectId = false → b.Settled w projectId →
    b.slack w projectId ≤ b.outside w projectId

variable {b w projectId}

/-- The clamp adds nothing: it is right when the figure is. -/
theorem countExact_of_figure (hcovers : b.covered w projectId ≤ b.figure w projectId)
    (hsettles : b.Settled w projectId → b.figure w projectId = b.everything w projectId) :
    CountExact b w projectId where
  covers := hcovers
  settles := hsettles
  clamps cap requested hcap := by
    rw [(remainingAllowance_spec hcap).1]
    omega
  permits hsettled cap requested hcap := by
    rw [hsettles hsettled]
    exact remainingAllowance_spec hcap

/-- **The count** is exact when, and only when, one of the two sums holds the other. -/
theorem countExact_iff (hw : w ∈ b.wallets) :
    CountExact b w projectId ↔ CountHolds b w projectId := by
  have hindexed := b.covered_eq_indexed_add w projectId
  have hown := b.covered_eq_own_add w projectId
  have hplans := b.plans_eq_own_add w projectId
  cases hover : overflows b.events b.plans projectId with
  | true =>
    have hfigure := Books.figure_eq_zero (w := w) hover
    constructor
    · intro h
      have hcovers := h.covers
      exact ⟨fun _ => by omega, fun hfit => absurd (hover.symm.trans hfit) (by decide),
        fun hfit => absurd (hover.symm.trans hfit) (by decide)⟩
    · intro h
      have hcovered := h.fits hover
      refine countExact_of_figure (by omega) fun hsettled => ?_
      have heverything := (Books.covered_of_settled hsettled).1
      omega
  | false =>
    have hfigure := Books.figure_eq hw hover
    constructor
    · intro h
      have hcovers := h.covers
      refine ⟨fun hfit => absurd (hover.symm.trans hfit) (by decide), fun _ => ?_,
        fun _ hsettled => ?_⟩
      · omega
      · have heverything := Books.covered_of_settled hsettled
        have hexact := h.settles hsettled
        omega
    · intro h
      have hoverlap := h.overlap hover
      refine countExact_of_figure (by omega) fun hsettled => ?_
      have heverything := Books.covered_of_settled hsettled
      have hslack := h.settled hover hsettled
      omega

/-! ### Two histories -/

/-- The event that tells of a mint. -/
def Mint.event (m : Mint) : MintedEvent := ⟨some m.projectId, m.recipient, m.quantity⟩

/-- Books whose events are one for each mint indexed. -/
def booksOf (mints : List Mint) (plans : MintPlans)
    (wallets : Table WalletRow String WalletRow.id) : Books where
  mints
  events := (mints.filter Mint.indexed).map Mint.event
  plans
  wallets
  told projectId recipient := by
    rw [List.filter_map, List.filter_filter, total, List.map_map, total]
    congr 2
    refine List.filter_congr fun m _ => Bool.eq_iff_iff.mpr ?_
    simp only [Function.comp_apply, Mint.event, Bool.and_eq_true, decide_eq_true_eq,
      Option.some_inj, and_assoc]

/-- An executed plan of the wallet, for one token. -/
def executedPlan : MintPlan where
  id := "plan"
  projectId := "drop"
  walletId := "wallet"
  stageId := none
  signerId := none
  fireAt := none
  quantity := 1
  perPlanCeilingWei := 0
  status := .executed
  armedAt := some 0
  armedUntil := some 60000
  armedByUserId := none
  cachedTx := none
  cachedTxAt := none
  presignedRawTx := none
  presignedNonce := none
  presignedTxHash := none
  presignedAt := none
  createdAt := 0
  updatedAt := 0

def wallet : WalletRow := ⟨"wallet", "0xa", true⟩

/-- One token minted outside the console, and one by its plan. -/
def mixed (planIndexed : Bool) : Books :=
  booksOf [⟨"drop", "0xa", 1, none, true⟩, ⟨"drop", "0xa", 1, some "plan", planIndexed⟩]
    ⟨[executedPlan], by simp⟩ ⟨[wallet], by simp⟩

/-- Once both are indexed the count is exact. -/
theorem countExact_iff_indexed : CountExact (mixed true) wallet "drop" :=
  (countExact_iff (List.mem_cons_self : wallet ∈ (mixed true).wallets)).mpr
    ⟨by decide, by decide, fun _ _ => by decide⟩

/-- Until the plan's mint is indexed, two tokens of the wallet count as one. -/
theorem mixed_undercounts : ¬ ∀ (b : Books) (w : WalletRow) (projectId : String),
    w ∈ b.wallets → CountExact b w projectId := by
  intro h
  have hexact := h (mixed false) wallet "drop" List.mem_cons_self
  exact absurd hexact.covers (by decide)

end MintAllowance
