/-
The two allowance checks of a public mint, with the numbers the code computes in
(`apps/worker/src/mint-tx.ts`, `packages/providers/src/chain/seadrop-public.ts`,
`apps/worker/src/seadrop-public-mint.ts`).

A count of tokens is a `number`, a double; a reading of the contract is a `bigint` that
`Number` rounds to 53 significant bits.

* `precheckAllowance` — PRECHECK as the code computes it; `precheckAllowance_eq`: for safe
  integers it is the function of the fire path's model;
* `mintableQuantity`, `buildSelfServedPublicMint` — the builder of a public mint;
* `precheckAllowance_maximal` — PRECHECK answers the largest quantity every limit admits;
* `publicMint_agrees_iff` — when the builder and PRECHECK give one verdict.
-/
import HoodMint.ChainRadar
import HoodMint.Lib.Significant
import HoodMint.Lifecycle
import HoodMint.PresignPass

namespace MintPrecheck

open MintWorker
open ChainRadar (seadropAddress zeroAddress)

/-! ### Numbers -/

/-- `Number(bigint)`, the nearest double.  A reading of the contract has at most 256 bits,
far below the first infinite one. -/
def toNumber (x : ℤ) : ℤ := Significant.roundInt 53 x

theorem toNumber_nonpos_iff {x : ℤ} : toNumber x ≤ 0 ↔ x ≤ 0 :=
  Significant.roundInt_nonpos_iff (by omega)

/-- A safe integer is its own double. -/
theorem toNumber_of_le {x : ℤ} (hlow : -maxSafeInteger ≤ x) (hhigh : x ≤ maxSafeInteger) :
    toNumber x = x := by
  refine Significant.roundInt_of_natAbs_lt ?_
  simp only [maxSafeInteger] at hlow hhigh
  omega

/-- A comparison with a safe integer does not see the rounding. -/
theorem le_toNumber_iff {c x : ℤ} (hc : c ≤ maxSafeInteger) (hx : 0 ≤ x) :
    c ≤ toNumber x ↔ c ≤ x := by
  refine Significant.le_roundInt_iff (by omega) hx ?_
  simp only [maxSafeInteger] at hc
  omega

theorem min_toNumber {c x : ℤ} (hc : c ≤ maxSafeInteger) (hx : 0 ≤ x) :
    min c (toNumber x) = min c x := by
  refine Significant.min_roundInt (by omega) hx ?_
  simp only [maxSafeInteger] at hc
  omega

/-! ### PRECHECK -/

/-- What is left of the supply, as PRECHECK reads it.  A `maxSupply` of 0 publishes no cap. -/
def precheckSupplyLeft (stats : MintStats) : ℤ :=
  if 0 < stats.maxSupply then toNumber (stats.maxSupply - stats.currentTotalSupply)
  else maxSafeInteger

/-- `cap - Number(minterNumMinted)`, a subtraction of doubles. -/
def perWalletLeft (cap : ℕ) (stats : MintStats) : ℤ :=
  toNumber (cap - toNumber stats.minterNumMinted)

/-- `precheckAllowance`. -/
def precheckAllowance (requested : ℕ) (cap : Option ℕ) (stats : MintStats) : PrecheckVerdict :=
  if precheckSupplyLeft stats ≤ 0 then .mintedOut
  else match cap with
    | some cap =>
      if perWalletLeft cap stats ≤ 0 then .allowanceExhausted cap
      else
        .ok (max 1 (min (min (requested : ℤ) (perWalletLeft cap stats))
          (precheckSupplyLeft stats))).toNat
    | none => .ok (max 1 (min (requested : ℤ) (precheckSupplyLeft stats))).toNat

/-- No token is left to mint. -/
def NoTokenLeft (stats : MintStats) : Prop :=
  0 < stats.maxSupply ∧ stats.maxSupply ≤ stats.currentTotalSupply

/-- The quantities that no limit forbids: the request, the cap where it is known, the
supply where it is limited. -/
def Mintable (requested : ℕ) (cap : Option ℕ) (stats : MintStats) (quantity : ℕ) : Prop :=
  quantity ≤ requested ∧
    (∀ c, cap = some c → stats.minterNumMinted + quantity ≤ c) ∧
    (0 < stats.maxSupply → stats.currentTotalSupply + quantity ≤ stats.maxSupply)

variable {requested : ℕ} {cap : Option ℕ} {stats : MintStats}

theorem precheckSupplyLeft_nonpos_iff : precheckSupplyLeft stats ≤ 0 ↔ NoTokenLeft stats := by
  rw [precheckSupplyLeft, NoTokenLeft]
  split
  · rw [toNumber_nonpos_iff]
    omega
  · simp only [maxSafeInteger]
    omega

/-- The cap of a wallet is spent when the double of its count has reached it. -/
theorem perWalletLeft_nonpos_iff {c : ℕ} :
    perWalletLeft c stats ≤ 0 ↔ (c : ℤ) ≤ toNumber stats.minterNumMinted := by
  rw [perWalletLeft, toNumber_nonpos_iff]
  omega

theorem perWalletLeft_nonpos_iff_of_safe {c : ℕ} (hc : (c : ℤ) ≤ maxSafeInteger) :
    perWalletLeft c stats ≤ 0 ↔ c ≤ stats.minterNumMinted := by
  rw [perWalletLeft_nonpos_iff, le_toNumber_iff hc (Int.natCast_nonneg _)]
  omega

/-- What is left of a safe cap is computed exactly. -/
theorem perWalletLeft_of_safe {c : ℕ} (hc : (c : ℤ) ≤ maxSafeInteger)
    (hleft : stats.minterNumMinted < c) :
    perWalletLeft c stats = c - stats.minterNumMinted := by
  have hminted : toNumber stats.minterNumMinted = stats.minterNumMinted :=
    toNumber_of_le (by simp only [maxSafeInteger]; omega) (by omega)
  rw [perWalletLeft, hminted]
  exact toNumber_of_le (by simp only [maxSafeInteger]; omega) (by omega)

/-- A safe request meets the supply exactly. -/
theorem min_precheckSupplyLeft {q : ℤ} (hq : q ≤ maxSafeInteger) (hsupply : ¬NoTokenLeft stats) :
    min q (precheckSupplyLeft stats) =
      if 0 < stats.maxSupply then min q (stats.maxSupply - stats.currentTotalSupply) else q := by
  rw [precheckSupplyLeft]
  split
  · rw [NoTokenLeft] at hsupply
    exact min_toNumber hq (by omega)
  · exact min_eq_left hq

theorem precheckAllowance_of_noTokenLeft (h : NoTokenLeft stats) :
    precheckAllowance requested cap stats = .mintedOut := by
  unfold precheckAllowance
  rw [if_pos (precheckSupplyLeft_nonpos_iff.2 h)]

theorem precheckAllowance_of_spent {c : ℕ} (h : ¬NoTokenLeft stats)
    (hspent : (c : ℤ) ≤ toNumber stats.minterNumMinted) :
    precheckAllowance requested (some c) stats = .allowanceExhausted c := by
  rw [precheckAllowance, if_neg (precheckSupplyLeft_nonpos_iff.not.2 h)]
  exact if_pos (perWalletLeft_nonpos_iff.2 hspent)

theorem precheckAllowance_of_left {c : ℕ} (h : ¬NoTokenLeft stats)
    (hleft : ¬(c : ℤ) ≤ toNumber stats.minterNumMinted) :
    precheckAllowance requested (some c) stats = .ok (max 1 (min
      (min (requested : ℤ) (perWalletLeft c stats)) (precheckSupplyLeft stats))).toNat := by
  rw [precheckAllowance, if_neg (precheckSupplyLeft_nonpos_iff.not.2 h)]
  exact if_neg (perWalletLeft_nonpos_iff.not.2 hleft)

theorem precheckAllowance_of_unknown (h : ¬NoTokenLeft stats) :
    precheckAllowance requested none stats =
      .ok (max 1 (min (requested : ℤ) (precheckSupplyLeft stats))).toNat := by
  rw [precheckAllowance, if_neg (precheckSupplyLeft_nonpos_iff.not.2 h)]

/-- For safe integers it is the function of the fire path's model. -/
theorem precheckAllowance_eq (hsafe : (requested : ℤ) ≤ maxSafeInteger)
    (hcap : ∀ c, cap = some c → (c : ℤ) ≤ maxSafeInteger) :
    precheckAllowance requested cap stats = MintWorker.precheckAllowance requested cap stats := by
  by_cases hsupply : NoTokenLeft stats
  · rw [precheckAllowance_of_noTokenLeft hsupply]
    unfold MintWorker.precheckAllowance
    rw [NoTokenLeft] at hsupply
    rw [if_pos hsupply.1, if_pos (by omega)]
  · have hleft : ¬(if 0 < stats.maxSupply then
        (stats.maxSupply : ℤ) - stats.currentTotalSupply else maxSafeInteger) ≤ 0 := by
      rw [NoTokenLeft] at hsupply
      simp only [maxSafeInteger]
      split <;> omega
    unfold MintWorker.precheckAllowance
    simp only [if_neg hleft]
    cases cap with
    | none =>
      rw [precheckAllowance_of_unknown hsupply, min_precheckSupplyLeft hsafe hsupply]
      congr 1
      split <;> omega
    | some c =>
      have hc := hcap c rfl
      dsimp only
      by_cases hspent : c ≤ stats.minterNumMinted
      · rw [if_pos hspent]
        refine precheckAllowance_of_spent hsupply ?_
        rw [le_toNumber_iff hc (Int.natCast_nonneg _)]
        omega
      · have hover : ¬(c : ℤ) ≤ toNumber stats.minterNumMinted := by
          rw [le_toNumber_iff hc (Int.natCast_nonneg _)]
          omega
        have hmin := min_precheckSupplyLeft
          (le_trans (min_le_left (requested : ℤ) (c - stats.minterNumMinted)) hsafe) hsupply
        rw [if_neg hspent, precheckAllowance_of_left hsupply hover,
          perWalletLeft_of_safe hc (by omega), hmin]
        congr 1
        split <;> omega

/-! ### PRECHECK is exact and maximal -/

/-- The verdict on a request is the one the three limits force. -/
structure Exact (requested : ℕ) (cap : Option ℕ) (stats : MintStats) : Prop where
  minted_out : precheckAllowance requested cap stats = .mintedOut ↔ NoTokenLeft stats
  exhausted : ∀ c, precheckAllowance requested cap stats = .allowanceExhausted c ↔
    ¬NoTokenLeft stats ∧ cap = some c ∧ c ≤ stats.minterNumMinted
  largest : ∀ q, precheckAllowance requested cap stats = .ok q ↔
    ¬NoTokenLeft stats ∧ (∀ c, cap = some c → stats.minterNumMinted < c) ∧
      IsGreatest {q | Mintable requested cap stats q} q
  pos : ∀ q, precheckAllowance requested cap stats = .ok q → 1 ≤ q

/-- What PRECHECK computes under a cap with something left is the least of the limits. -/
theorem ok_of_left {c : ℕ} (hreq : 1 ≤ requested) (hsafe : (requested : ℤ) ≤ maxSafeInteger)
    (hsupply : ¬NoTokenLeft stats) (hc : (c : ℤ) ≤ maxSafeInteger)
    (hleft : stats.minterNumMinted < c) :
    ∃ q, precheckAllowance requested (some c) stats = .ok q ∧ 1 ≤ q ∧
      IsGreatest {q | Mintable requested (some c) stats q} q := by
  have hover : ¬(c : ℤ) ≤ toNumber stats.minterNumMinted := by
    rw [le_toNumber_iff hc (Int.natCast_nonneg _)]
    omega
  have hmin := min_precheckSupplyLeft
    (le_trans (min_le_left (requested : ℤ) (c - stats.minterNumMinted)) hsafe) hsupply
  refine ⟨_, precheckAllowance_of_left hsupply hover, ?_⟩
  rw [perWalletLeft_of_safe hc hleft, hmin]
  rw [NoTokenLeft] at hsupply
  refine ⟨by omega, ⟨?_, ?_, ?_⟩, ?_⟩
  · split <;> omega
  · intro c' hc'
    cases hc'
    split <;> omega
  · intro hmax
    rw [if_pos hmax]
    omega
  · intro q hq
    obtain ⟨hq1, hq2, hq3⟩ := hq
    have hq2 := hq2 c rfl
    split <;> omega

/-- The same without a cap. -/
theorem ok_of_unknown (hreq : 1 ≤ requested) (hsafe : (requested : ℤ) ≤ maxSafeInteger)
    (hsupply : ¬NoTokenLeft stats) :
    ∃ q, precheckAllowance requested none stats = .ok q ∧ 1 ≤ q ∧
      IsGreatest {q | Mintable requested none stats q} q := by
  refine ⟨_, precheckAllowance_of_unknown hsupply, ?_⟩
  rw [min_precheckSupplyLeft hsafe hsupply]
  rw [NoTokenLeft] at hsupply
  refine ⟨by omega, ⟨?_, ?_, ?_⟩, ?_⟩
  · split <;> omega
  · intro c hc
    cases hc
  · intro hmax
    rw [if_pos hmax]
    omega
  · intro q hq
    obtain ⟨hq1, -, hq3⟩ := hq
    split <;> omega

/-- The three answers exclude each other, so one of them decides every line of `Exact`. -/
theorem exact_of_mintedOut (h : NoTokenLeft stats) : Exact requested cap stats := by
  have hverdict : precheckAllowance requested cap stats = .mintedOut :=
    precheckAllowance_of_noTokenLeft h
  constructor <;> simp [hverdict, h]

theorem exact_of_exhausted {c : ℕ} (hsupply : ¬NoTokenLeft stats)
    (hspent : c ≤ stats.minterNumMinted)
    (hverdict : precheckAllowance requested (some c) stats = .allowanceExhausted c) :
    Exact requested (some c) stats := by
  refine ⟨?_, ?_, ?_, ?_⟩
  · simp [hverdict, hsupply]
  · intro c'
    rw [hverdict]
    refine ⟨fun h => ?_, fun h => ?_⟩
    · cases h
      exact ⟨hsupply, rfl, hspent⟩
    · obtain ⟨-, hc, -⟩ := h
      cases hc
      rfl
  · intro q
    rw [hverdict]
    refine ⟨fun h => ?_, fun h => ?_⟩
    · cases h
    · have hlt := h.2.1 c rfl
      omega
  · intro q h
    rw [hverdict] at h
    cases h

theorem exact_of_ok {q : ℕ} (hsupply : ¬NoTokenLeft stats)
    (hleft : ∀ c, cap = some c → stats.minterNumMinted < c)
    (hverdict : precheckAllowance requested cap stats = .ok q) (hpos : 1 ≤ q)
    (hq : IsGreatest {q | Mintable requested cap stats q} q) : Exact requested cap stats := by
  refine ⟨?_, ?_, ?_, ?_⟩
  · simp [hverdict, hsupply]
  · intro c
    rw [hverdict]
    refine ⟨fun h => ?_, fun h => ?_⟩
    · cases h
    · have hlt := hleft c h.2.1
      omega
  · intro q'
    rw [hverdict]
    refine ⟨fun h => ?_, fun h => ?_⟩
    · cases h
      exact ⟨hsupply, hleft, hq⟩
    · rw [hq.unique h.2.2]
  · intro q' h
    rw [hverdict] at h
    cases h
    exact hpos

/-- **PRECHECK is exact and maximal** on safe integers: it says that the drop is minted
out exactly when no token is left, that the allowance is spent exactly when the known cap
is, and else answers the largest quantity within all three limits, which is at least 1. -/
theorem precheckAllowance_maximal (hreq : 1 ≤ requested)
    (hsafe : (requested : ℤ) ≤ maxSafeInteger)
    (hcap : ∀ c, cap = some c → (c : ℤ) ≤ maxSafeInteger) : Exact requested cap stats := by
  by_cases hsupply : NoTokenLeft stats
  · exact exact_of_mintedOut hsupply
  cases cap with
  | none =>
    obtain ⟨q, hverdict, hpos, hq⟩ := ok_of_unknown hreq hsafe hsupply
    exact exact_of_ok hsupply (fun c h => by cases h) hverdict hpos hq
  | some c =>
    have hc := hcap c rfl
    by_cases hspent : c ≤ stats.minterNumMinted
    · refine exact_of_exhausted hsupply hspent (precheckAllowance_of_spent hsupply ?_)
      rw [le_toNumber_iff hc (Int.natCast_nonneg _)]
      omega
    · obtain ⟨q, hverdict, hpos, hq⟩ := ok_of_left hreq hsafe hsupply hc (by omega)
      refine exact_of_ok hsupply (fun c' h => ?_) hverdict hpos hq
      cases h
      omega

/-- Three of a supply of ten, one of a cap of two left. -/
theorem precheckAllowance_maximal_sample : Exact 3 (some 2) ⟨1, 7, 10⟩ :=
  precheckAllowance_maximal (by decide) (by decide) fun c h => by cases h; decide

/-- Past the safe integers the answer is not the largest: an unlimited supply is read as
`MAX_SAFE_INTEGER` tokens, and a cap whose last token is lost to rounding reads as spent. -/
theorem precheckAllowance_not_maximal :
    ¬Exact 9007199254740992 none ⟨0, 0, 0⟩ ∧
      ¬Exact 1 (some 9007199254740996) ⟨9007199254740995, 0, 0⟩ := by
  refine ⟨fun h => ?_, fun h => ?_⟩
  · have hverdict : precheckAllowance 9007199254740992 none ⟨0, 0, 0⟩ = .ok 9007199254740991 := rfl
    have hgreatest := ((h.largest _).1 hverdict).2.2
    have hall : Mintable 9007199254740992 none ⟨0, 0, 0⟩ 9007199254740992 := by
      refine ⟨by omega, fun c hc => ?_, fun h => ?_⟩
      · cases hc
      · cases h
    have hle : 9007199254740992 ≤ 9007199254740991 := hgreatest.2 hall
    omega
  · have hverdict : precheckAllowance 1 (some 9007199254740996) ⟨9007199254740995, 0, 0⟩ =
        .allowanceExhausted 9007199254740996 := rfl
    have hspent := ((h.exhausted _).1 hverdict).2.2
    simp at hspent

/-! ### The builder of a public mint -/

/-- `PublicDrop`, of which the builder reads these; the cap is a `uint16` of the contract. -/
structure PublicDrop where
  mintPriceWei : ℕ
  startTimeSec : ℕ
  endTimeSec : ℕ
  maxTotalMintableByWallet : ℕ
  maxTotalMintableByWallet_lt : maxTotalMintableByWallet < 2 ^ 16

/-- `mintableQuantity`. -/
def mintableQuantity (requested : ℕ) (drop : PublicDrop) (stats : MintStats) : ℤ :=
  max 0 (min (min (requested : ℤ) (perWalletLeft drop.maxTotalMintableByWallet stats))
    (toNumber (stats.maxSupply - stats.currentTotalSupply)))

/-- `buildMintPublicTx`.  `encode` is the ABI encoding of a `mintPublic` call. -/
def buildMintPublicTx (encode : String → String → String → ℕ → String)
    (nftContract feeRecipient : String) (quantity mintPriceWei chainId : ℕ)
    (minterIfNotPayer : Option String) : Tx where
  toAddress := seadropAddress
  data := encode nftContract feeRecipient (minterIfNotPayer.getD zeroAddress) quantity
  valueWei := mintPriceWei * quantity
  chainId := chainId

/-- The arguments of `buildSelfServedPublicMint`. -/
structure PublicMintInput where
  stageId : Option String
  contractAddress : Option String
  quantity : ℕ
  chainId : ℕ
  minterIfNotPayer : Option String

/-- The columns it selects of the stage. -/
structure StageRow where
  kind : Projects.StageKind
  currency : Option String

/-- What its three reads of the contract answer. -/
structure PublicReads where
  drop : PublicDrop
  feeRecipient : Option String
  stats : MintStats

/-- What is built from the three reads, when the stage is one to serve. -/
def buildFromReads (encode : String → String → String → ℕ → String) (input : PublicMintInput)
    (nft : String) (reads : PublicReads) : SelfServed :=
  match reads.feeRecipient with
  | none => .notSelfServable
  | some feeRecipient =>
    if reads.stats.maxSupply ≤ reads.stats.currentTotalSupply then .soldOut
    else
      let quantity := mintableQuantity input.quantity reads.drop reads.stats
      if quantity < 1 then .allowanceExhausted
      else
        .built
          (buildMintPublicTx encode nft feeRecipient quantity.toNat reads.drop.mintPriceWei
            input.chainId input.minterIfNotPayer)
          (reads.drop.startTimeSec * 1000) (reads.drop.endTimeSec * 1000)
          input.quantity quantity.toNat

/-- `buildSelfServedPublicMint`, on the stage's row and what the contract was read to say. -/
def buildSelfServedPublicMint (encode : String → String → String → ℕ → String)
    (input : PublicMintInput) (stage : Option StageRow) (reads : Except String PublicReads) :
    SelfServed :=
  match input.stageId, input.contractAddress, stage with
  | some _, some nft, some stage =>
    if stage.kind ≠ .publicSale then .notSelfServable
    else if isNativeCurrency stage.currency = false then .notSelfServable
    else match reads with
      | .error message => .readFailed message
      | .ok reads => buildFromReads encode input nft reads
  | _, _, _ => .notSelfServable

/-- The builder's answer in PRECHECK's terms; a stage it does not serve, or could not read,
gets no verdict. -/
def publicVerdict (cap : ℕ) : SelfServed → Option PrecheckVerdict
  | .soldOut => some .mintedOut
  | .allowanceExhausted => some (.allowanceExhausted cap)
  | .built _ _ _ _ quantity => some (.ok quantity)
  | .notSelfServable => none
  | .readFailed _ => none

/-- A public stage of a known contract, priced in the native currency. -/
def SelfServable (input : PublicMintInput) (stage : StageRow) : Prop :=
  input.stageId.isSome ∧ input.contractAddress.isSome ∧ stage.kind = .publicSale ∧
    isNativeCurrency stage.currency

variable {encode : String → String → String → ℕ → String} {input : PublicMintInput}
  {stage : StageRow} {drop : PublicDrop} {feeRecipient : String}

/-- Two verdicts on a request, the builder's and PRECHECK's, are one. -/
def Agree (encode : String → String → String → ℕ → String) (input : PublicMintInput)
    (stage : StageRow) (drop : PublicDrop) (feeRecipient : String) (stats : MintStats) : Prop :=
  publicVerdict drop.maxTotalMintableByWallet
      (buildSelfServedPublicMint encode input (some stage) (.ok ⟨drop, some feeRecipient, stats⟩)) =
    some (precheckAllowance input.quantity (some drop.maxTotalMintableByWallet) stats)

/-- The builder's verdict on a stage it serves. -/
theorem publicVerdict_build (h : SelfServable input stage) :
    publicVerdict drop.maxTotalMintableByWallet
        (buildSelfServedPublicMint encode input (some stage)
          (.ok ⟨drop, some feeRecipient, stats⟩)) =
      some (if stats.maxSupply ≤ stats.currentTotalSupply then .mintedOut
        else if mintableQuantity input.quantity drop stats < 1 then
          .allowanceExhausted drop.maxTotalMintableByWallet
        else .ok (mintableQuantity input.quantity drop stats).toNat) := by
  obtain ⟨hstage, hcontract, hkind, hcurrency⟩ := h
  obtain ⟨_, hstage⟩ := Option.isSome_iff_exists.1 hstage
  obtain ⟨_, hcontract⟩ := Option.isSome_iff_exists.1 hcontract
  simp only [buildSelfServedPublicMint, hstage, hcontract, hkind, hcurrency, buildFromReads,
    ne_eq, not_true_eq_false, Bool.true_eq_false, if_false]
  split
  · rfl
  · split <;> rfl

/-- The cap of the contract is small enough to be compared exactly. -/
theorem cap_le_maxSafeInteger : (drop.maxTotalMintableByWallet : ℤ) ≤ maxSafeInteger := by
  have hlt := drop.maxTotalMintableByWallet_lt
  simp only [maxSafeInteger]
  omega

/-- A drop whose contract publishes no cap is sold out to the builder and open to PRECHECK. -/
theorem not_agree_of_unlimited (h : SelfServable input stage) (hmax : stats.maxSupply = 0) :
    ¬Agree encode input stage drop feeRecipient stats := by
  intro hagree
  have hsupply : ¬NoTokenLeft stats := by
    rw [NoTokenLeft]
    omega
  rw [Agree, publicVerdict_build h, if_pos (by omega), Option.some.injEq] at hagree
  by_cases hspent : (drop.maxTotalMintableByWallet : ℤ) ≤ toNumber stats.minterNumMinted
  · rw [precheckAllowance_of_spent hsupply hspent] at hagree
    cases hagree
  · rw [precheckAllowance_of_left hsupply hspent] at hagree
    cases hagree

/-- Under a published cap both read the same supply, and differ on an empty request only. -/
theorem agree_iff_of_limited (h : SelfServable input stage) (hmax : 0 < stats.maxSupply) :
    Agree encode input stage drop feeRecipient stats ↔
      stats.maxSupply ≤ stats.currentTotalSupply ∨ 1 ≤ input.quantity ∨
        drop.maxTotalMintableByWallet ≤ stats.minterNumMinted := by
  rw [Agree, publicVerdict_build h, Option.some.injEq]
  by_cases hsold : stats.maxSupply ≤ stats.currentTotalSupply
  · rw [if_pos hsold, precheckAllowance_of_noTokenLeft ⟨hmax, hsold⟩]
    exact iff_of_true rfl (Or.inl hsold)
  have hsupply : ¬NoTokenLeft stats := fun h => hsold h.2
  have hleft : ¬toNumber (stats.maxSupply - stats.currentTotalSupply) ≤ 0 := by
    rw [toNumber_nonpos_iff]
    omega
  have hcap := le_toNumber_iff (@cap_le_maxSafeInteger drop)
    (Int.natCast_nonneg stats.minterNumMinted)
  have hwallet := @perWalletLeft_nonpos_iff stats drop.maxTotalMintableByWallet
  rw [if_neg hsold]
  by_cases hspent : drop.maxTotalMintableByWallet ≤ stats.minterNumMinted
  · rw [precheckAllowance_of_spent hsupply (by omega), mintableQuantity, if_pos (by omega)]
    exact iff_of_true rfl (Or.inr (Or.inr hspent))
  · have hprecheck : precheckSupplyLeft stats =
        toNumber (stats.maxSupply - stats.currentTotalSupply) := if_pos hmax
    rw [precheckAllowance_of_left hsupply (by omega), hprecheck, mintableQuantity]
    by_cases hreq : 1 ≤ input.quantity
    · rw [if_neg (by omega), PrecheckVerdict.ok.injEq]
      exact iff_of_true (by omega) (Or.inr (Or.inl hreq))
    · rw [if_pos (by omega)]
      refine iff_of_false (fun h => ?_) (by omega)
      cases h

/-- **The public builder and PRECHECK agree exactly** on a contract that publishes a supply
limit, unless nothing is asked for while there is something to mint. -/
theorem publicMint_agrees_iff (h : SelfServable input stage) :
    Agree encode input stage drop feeRecipient stats ↔
      0 < stats.maxSupply ∧ (stats.maxSupply ≤ stats.currentTotalSupply ∨ 1 ≤ input.quantity ∨
        drop.maxTotalMintableByWallet ≤ stats.minterNumMinted) := by
  obtain hmax | hmax := Nat.eq_zero_or_pos stats.maxSupply
  · refine iff_of_false (not_agree_of_unlimited h hmax) fun h => ?_
    omega
  · rw [agree_iff_of_limited h hmax]
    exact ⟨fun h => ⟨hmax, h⟩, fun h => h.2⟩

/-- An encoder, an input, a stage and a drop of five tokens a wallet. -/
def sampleEncode (_ _ _ : String) (quantity : ℕ) : String := toString quantity

def sampleInput : PublicMintInput := ⟨some "s", some "0xc", 2, 4663, none⟩

def sampleStage : StageRow := ⟨.publicSale, none⟩

def sampleDrop : PublicDrop := ⟨10, 0, 100, 5, by decide⟩

theorem sampleInput_selfServable : SelfServable sampleInput sampleStage :=
  ⟨rfl, rfl, rfl, rfl⟩

/-- A limited drop with tokens left. -/
theorem publicMint_agrees_iff_sample :
    Agree sampleEncode sampleInput sampleStage sampleDrop "0xf" ⟨1, 7, 10⟩ :=
  (publicMint_agrees_iff sampleInput_selfServable).2 (by decide)

/-- A contract with `maxSupply` 0: the builder says sold out, PRECHECK says to mint two. -/
theorem publicMint_disagrees :
    ¬Agree sampleEncode sampleInput sampleStage sampleDrop "0xf" ⟨0, 3, 0⟩ :=
  not_agree_of_unlimited sampleInput_selfServable rfl

end MintPrecheck
