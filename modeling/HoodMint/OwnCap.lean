/-
The cap a fire's request is sized to
(`apps/worker/src/workers/execution.ts`: `runMintExecutionPass`, PRECHECK;
`packages/db/src/repositories/mint-allowance.ts`: `stageCapsForProject`).

What a wallet may mint of a stage is stored in its own row of `eligibility_checks`.  PRECHECK reads
the caps of the project instead, where a stage has the largest one of any wallet.

* `stageCapsForProject` — the caps that PRECHECK reads; `precheckCap_of_own`: for the plan's stage,
  the largest that is stored;
* `ownCap` — the cap of the firing wallet for that stage;
* `SizedToOwnCap` — in every run, OpenSea is asked for no more than the wallet's own cap leaves, and
  not at all when that is spent;
* `sizedToOwnCap_iff` — exactly when.
-/
import HoodMint.EligibilityTables
import HoodMint.ProviderTalk

namespace MintWorker

open Effect Eligibility EligibilityEngine Relational

/-! ### Stored caps -/

/-- The best cap of each stage so far. -/
abbrev BestCaps := Table (String × ℕ) String Prod.fst

/-- The loop of `stageCapsForProject`. -/
def keepBest (best : BestCaps) (row : EligibilityCheck) : BestCaps :=
  match row.maxMintable with
  | some cap =>
    if 0 < cap ∧ (best.get? row.stageId).elim 0 Prod.snd < cap then best.upsert (row.stageId, cap)
    else best
  | none => best

/-- `stageCapsForProject`. -/
def stageCapsForProject (checks : CheckTable) (projectId : String) : List (String × Option ℕ) :=
  let best := (checks.rows.filter fun c => c.projectId = projectId).foldl keepBest Table.empty
  best.rows.map fun e => (e.1, some e.2)

/-- The caps stored for the plan's stage, of whatever wallet. -/
def storedCaps (checks : CheckTable) (plan : Plan) : List ℕ :=
  (checks.rows.filter fun c =>
    c.projectId = plan.projectId ∧ some c.stageId = plan.stageId).filterMap (·.maxMintable)

/-- The cap stored for the firing wallet and the plan's stage. -/
def ownCap (checks : CheckTable) (plan : Plan) : Option ℕ :=
  plan.stageId.bind fun stageId =>
    ((checks.get? (plan.walletId, plan.projectId, stageId)).bind (·.maxMintable)).filter (0 < ·)

section

variable {checks : CheckTable} {plan : Plan} {own : ℕ}

/-- A row without a cap does not weigh anything. -/
theorem keepBest_eq (best : BestCaps) (row : EligibilityCheck) :
    keepBest best row = best.keepMax Prod.snd (row.stageId, row.maxMintable.getD 0) := by
  rw [keepBest, Table.keepMax]
  cases row.maxMintable with
  | none => rfl
  | some cap =>
    show (if 0 < cap ∧ (best.get? row.stageId).elim 0 Prod.snd < cap then _ else best) =
      if (best.get? row.stageId).elim 0 Prod.snd < cap then _ else best
    by_cases hlt : (best.get? row.stageId).elim 0 Prod.snd < cap
    · rw [if_pos ⟨by omega, hlt⟩, if_pos hlt]
      rfl
    · rw [if_neg fun h => hlt h.2, if_neg hlt]

/-- The row of an own cap. -/
theorem exists_row_of_own (h : ownCap checks plan = some own) :
    ∃ c ∈ checks, c.walletId = plan.walletId ∧ c.projectId = plan.projectId ∧
      some c.stageId = plan.stageId ∧ c.maxMintable = some own ∧ 0 < own := by
  rw [ownCap, Option.bind_eq_some_iff] at h
  obtain ⟨stageId, hstage, h⟩ := h
  rw [Option.filter_eq_some_iff, Option.bind_eq_some_iff] at h
  obtain ⟨⟨c, hc, hcap⟩, hpos⟩ := h
  obtain ⟨hmem, hkey⟩ := Table.get?_eq_some.mp hc
  simp only [EligibilityCheck.key, Prod.mk.injEq] at hkey
  obtain ⟨hwallet, hproject, hid⟩ := hkey
  exact ⟨c, hmem, hwallet, hproject, by rw [hstage, hid], hcap, of_decide_eq_true hpos⟩

/-- What `stageCapsForProject` keeps of each stage bounds the project's caps, and is one of them. -/
theorem exists_best (checks : CheckTable) (projectId : String) :
    ∃ best : BestCaps,
      stageCapsForProject checks projectId = best.rows.map (fun e => (e.1, some e.2)) ∧
      (∀ c ∈ checks, c.projectId = projectId →
        c.maxMintable.getD 0 ≤ (best.get? c.stageId).elim 0 Prod.snd) ∧
      ∀ stageId, (best.get? stageId).elim 0 Prod.snd = 0 ∨ ∃ c ∈ checks, c.projectId = projectId ∧
        c.stageId = stageId ∧ c.maxMintable = some ((best.get? stageId).elim 0 Prod.snd) := by
  have hfold : (checks.rows.filter fun c => c.projectId = projectId).foldl keepBest Table.empty =
      ((checks.rows.filter fun c => c.projectId = projectId).map fun c =>
        (c.stageId, c.maxMintable.getD 0)).foldl (Table.keepMax Prod.snd)
          (Table.empty : BestCaps) := by
    rw [List.foldl_map]
    exact congrArg (fun f => List.foldl f _ _) (funext₂ keepBest_eq)
  refine ⟨_, rfl, ?_, ?_⟩
  · intro c hc hp
    rw [hfold]
    have hmem : (c.stageId, c.maxMintable.getD 0) ∈
        (checks.rows.filter fun c => c.projectId = projectId).map fun c =>
          (c.stageId, c.maxMintable.getD 0) :=
      List.mem_map.mpr ⟨c, List.mem_filter.mpr ⟨hc, decide_eq_true hp⟩, rfl⟩
    exact @Table.weight_le_foldl_keepMax _ _ Prod.fst (Table.empty : BestCaps) _ _ Prod.snd _ hmem
  · intro stageId
    rw [hfold]
    rcases Table.exists_foldl_keepMax (k := stageId) _ with hzero | ⟨r, hr, hkey, hweight⟩
    · exact Or.inl hzero
    · rw [← hweight]
      obtain ⟨c, hc, rfl⟩ := List.mem_map.mp hr
      obtain ⟨hc, hp⟩ := List.mem_filter.mp hc
      cases hcap : c.maxMintable with
      | none => exact Or.inl rfl
      | some cap => exact Or.inr ⟨c, hc, of_decide_eq_true hp, hkey, hcap⟩

/-- **PRECHECK's cap** is the largest one stored for the stage, if the wallet has one. -/
theorem precheckCap_of_own (h : ownCap checks plan = some own) :
    ∃ cap, ((stageCapsForProject checks plan.projectId).find? fun c =>
        some c.1 = plan.stageId).bind Prod.snd = some cap ∧
      cap ∈ storedCaps checks plan ∧ ∀ c ∈ storedCaps checks plan, c ≤ cap := by
  obtain ⟨c, hc, _, hproject, hid, hcap, hpos⟩ := exists_row_of_own h
  obtain ⟨best, hbest, hle, hexists⟩ := exists_best checks plan.projectId
  -- the own row weighs something, so that the stage has an entry
  have hown := hle c hc hproject
  rw [hcap, Option.getD_some] at hown
  cases hget : best.get? c.stageId with
  | none =>
    rw [hget, Option.elim_none] at hown
    omega
  | some e =>
    rw [hget, Option.elim_some] at hown
    refine ⟨e.2, ?_, ?_, fun cap hstored => ?_⟩
    · have hfind : (best.rows.find? fun e => some e.1 = plan.stageId) = some e := by
        rw [← hid, ← hget, Table.get?]
        congr 1
        funext r
        simp
      rw [hbest, List.find?_map]
      show (Option.map _ (best.rows.find? fun e => some e.1 = plan.stageId)).bind Prod.snd = _
      rw [hfind]
      rfl
    · rcases hexists c.stageId with hzero | ⟨c', hc', hp, hkey, hcap'⟩
      · rw [hget, Option.elim_some] at hzero
        omega
      · rw [hget, Option.elim_some] at hcap'
        exact List.mem_filterMap.mpr ⟨c', List.mem_filter.mpr ⟨hc', decide_eq_true
          ⟨hp, by rw [hkey, hid]⟩⟩, hcap'⟩
    · obtain ⟨c', hc', hcap'⟩ := List.mem_filterMap.mp hstored
      obtain ⟨hc', hp⟩ := List.mem_filter.mp hc'
      obtain ⟨hp, hid'⟩ := of_decide_eq_true hp
      have hw := hle c' hc' hp
      rw [← hid, Option.some_inj] at hid'
      rwa [hcap', hid', hget] at hw

end

/-! ### The request -/

/-- The contract's counters: as the pass has read them, else as they are. -/
def counters (pre : Prefetch) (chain : MintStats) : MintStats := pre.stats.join.getD chain

/-- The wallet's own cap, if one is stored, is not spent, and leaves the quantity. -/
def WithinOwnCap (checks : CheckTable) (plan : Plan) (minted quantity : ℕ) : Prop :=
  ∀ own ∈ ownCap checks plan, minted < own ∧ minted + quantity ≤ own

/-- OpenSea is asked for what the wallet's own cap leaves.  The stage is an allowlist stage, which
the worker does not serve itself. -/
def sizing (checks : CheckTable) (plan : Plan) (minted : ℕ) : Monitor signature Thrown Unit where
  guard _ c :=
    match c with
    | .buildOpenSeaMintTx target => WithinOwnCap checks plan minted target.quantity
    | .burstBuildOpenSeaMintTx target .. => WithinOwnCap checks plan minted target.quantity
    | _ => True
  allowed _ c x :=
    match c, x with
    | .stageCapsForProject projectId, .ok caps => caps = stageCapsForProject checks projectId
    | .buildSelfServedPublicMint .., .ok served => served = .notSelfServable
    | _, _ => True
  next _ _ _ := ()

/-- **The request is sized to the wallet's own cap** in every run from the signer on. -/
def SizedToOwnCap (checks : CheckTable) (plan : Plan) (pre : Prefetch) (chain : MintStats) : Prop :=
  ∀ config fireUrls rpcUrl nearFire project wallet tr en,
    (fireClaimed config plan fireUrls rpcUrl nearFire pre project wallet).Runs tr en →
    (sizing checks plan (counters pre chain).minterNumMinted).Admits () tr →
    (sizing checks plan (counters pre chain).minterNumMinted).Keeps () tr en

/-- The supply that is left, where one is published. -/
def supplyLeft (stats : MintStats) : ℤ :=
  if 0 < stats.maxSupply then (stats.maxSupply : ℤ) - stats.currentTotalSupply else maxSafeInteger

/-- The counters are not read, and the plan asks for nothing or for what the own cap leaves; or they
are, and the supply is exhausted, or so are all the stored caps, or the own cap is not, and no other
one is larger, or the plan does not ask for more, or the supply does not leave more. -/
def FitsOwnCap (checks : CheckTable) (plan : Plan) (pre : Prefetch) (chain : MintStats) : Prop :=
  ∀ own ∈ ownCap checks plan,
    match pre.stats.join with
    | none => plan.quantity = 0 ∨ chain.minterNumMinted + plan.quantity ≤ own
    | some stats =>
      supplyLeft stats ≤ 0 ∨ (∀ cap ∈ storedCaps checks plan, cap ≤ stats.minterNumMinted) ∨
        stats.minterNumMinted < own ∧
          ((∀ cap ∈ storedCaps checks plan, cap ≤ own) ∨
            stats.minterNumMinted + plan.quantity ≤ own ∨
            stats.minterNumMinted + supplyLeft stats ≤ own)

section

variable {requested cap own quantity : ℕ} {stats : MintStats}

theorem precheckAllowance_some : precheckAllowance requested (some cap) stats =
    if supplyLeft stats ≤ 0 then .mintedOut
    else if cap ≤ stats.minterNumMinted then .allowanceExhausted cap
    else .ok (max 1 (min (min requested (cap - stats.minterNumMinted)) (supplyLeft stats).toNat)) :=
  rfl

/-- What PRECHECK lets through with one cap is within another one. -/
theorem precheckAllowance_within_iff :
    (∀ quantity, precheckAllowance requested (some cap) stats = .ok quantity →
        stats.minterNumMinted < own ∧ stats.minterNumMinted + quantity ≤ own) ↔
      supplyLeft stats ≤ 0 ∨ cap ≤ stats.minterNumMinted ∨
        stats.minterNumMinted < own ∧
          (cap ≤ own ∨ stats.minterNumMinted + requested ≤ own ∨
            stats.minterNumMinted + supplyLeft stats ≤ own) := by
  rw [precheckAllowance_some]
  generalize supplyLeft stats = left
  by_cases hsupply : left ≤ 0
  · rw [if_pos hsupply]
    exact iff_of_true (fun _ h => by simp at h) (Or.inl hsupply)
  · rw [if_neg hsupply]
    by_cases hspent : cap ≤ stats.minterNumMinted
    · rw [if_pos hspent]
      exact iff_of_true (fun _ h => by simp at h) (Or.inr (Or.inl hspent))
    · rw [if_neg hspent]
      simp only [PrecheckVerdict.ok.injEq, forall_eq']
      omega

/-- And it lets one token through at least. -/
theorem precheckAllowance_pos (h : precheckAllowance requested (some cap) stats = .ok quantity) :
    0 < quantity := by
  rw [precheckAllowance_some] at h
  split at h
  · simp at h
  · split at h
    · simp at h
    · rw [PrecheckVerdict.ok.injEq] at h
      omega

end

/-- With the cap that PRECHECK reads, of the wallet's own. -/
theorem precheck_within_iff {checks : CheckTable} {plan : Plan} {own : ℕ} {stats : MintStats}
    (hown : ownCap checks plan = some own) :
    (∀ quantity, precheckAllowance plan.quantity
          (((stageCapsForProject checks plan.projectId).find? fun c =>
            some c.1 = plan.stageId).bind Prod.snd) stats = .ok quantity →
        stats.minterNumMinted < own ∧ stats.minterNumMinted + quantity ≤ own) ↔
      supplyLeft stats ≤ 0 ∨ (∀ cap ∈ storedCaps checks plan, cap ≤ stats.minterNumMinted) ∨
        stats.minterNumMinted < own ∧
          ((∀ cap ∈ storedCaps checks plan, cap ≤ own) ∨
            stats.minterNumMinted + plan.quantity ≤ own ∨
            stats.minterNumMinted + supplyLeft stats ≤ own) := by
  obtain ⟨cap, hcap, hmem, hmax⟩ := precheckCap_of_own hown
  have hall : ∀ bound, (∀ c ∈ storedCaps checks plan, c ≤ bound) ↔ cap ≤ bound := fun bound =>
    ⟨fun h => h cap hmem, fun h c hc => (hmax c hc).trans h⟩
  rw [hcap, precheckAllowance_within_iff, hall, hall]

section

variable {checks : CheckTable} {plan : Plan} {minted : ℕ} {config : Config} {wallet : Wallet}
  {α : Type} {p : Worker α}

/-! ### Requests within the cap -/

/-- What does not ask OpenSea is free. -/
theorem wordless_sizing (hp : Wordless p) :
    p.wp (sizing checks plan minted) (fun _ _ => True) () := by
  refine Prog.Only.wp (I := fun _ => True) hp (fun _ c hc _ => ?_)
    (fun _ _ _ _ _ _ => trivial) trivial
  cases c <;> first | exact trivial | exact absurd hc id

theorem wordless_resolveSigner : Wordless (resolveSigner plan wallet) := by
  rw [resolveSigner]
  split
  · exact .pure _
  · exact .bind (wordless_ask trivial) fun _ => .pure _

theorem within_of_le {quantity quantity' : ℕ} (h : WithinOwnCap checks plan minted quantity)
    (hle : quantity' ≤ quantity) : WithinOwnCap checks plan minted quantity' := by
  intro own hown
  obtain ⟨hspent, hleft⟩ := h own hown
  exact ⟨hspent, by omega⟩

theorem buildMintTx_sizing {nearFire : Bool} {deadline : ℤ} {target : MintTarget}
    (h : WithinOwnCap checks plan minted target.quantity) :
    (buildMintTx config nearFire deadline target).wp (sizing checks plan minted)
      (fun _ _ => True) () := by
  rw [buildMintTx]
  split
  · refine Prog.wp_bind_of (wordless_sizing (wordless_ask trivial)) (fun nowMs _ _ => ?_)
      fun _ _ _ => trivial
    exact Prog.wp_issue.mpr ⟨h, fun _ _ => trivial⟩
  · exact Prog.wp_issue.mpr ⟨h, fun _ _ => trivial⟩

/-- Asking for ever less stays within. -/
theorem buildDescending_sizing {build : ℕ → Worker Tx} {quantity : ℕ}
    (hbuild : ∀ q, 0 < q → q ≤ quantity →
      (build q).wp (sizing checks plan minted) (fun _ _ => True) ()) :
    (buildDescending build quantity).wp (sizing checks plan minted) (fun _ _ => True) () := by
  induction quantity with
  | zero => exact trivial
  | succ quantity ih =>
    refine Prog.wp_bind.mpr (Prog.wp_attempt.mpr (Prog.wp_mono
      (hbuild (quantity + 1) (by omega) (by omega)) ?_))
    rintro (error | tx) _ _
    · dsimp only
      split
      · exact trivial
      · exact ih fun q hpos hle => hbuild q hpos (by omega)
    · exact trivial

theorem calldata_sizing {nearFire : Bool} {slug : String} {chainId quantity : ℕ}
    (h : 0 < quantity → WithinOwnCap checks plan minted quantity) :
    (calldata config plan nearFire slug chainId wallet none quantity).wp
      (sizing checks plan minted) (fun _ _ => True) () := by
  refine Prog.wp_bind_of (wordless_sizing (wordless_ask (c := .now) trivial)) (fun nowMs _ _ => ?_)
    fun _ _ _ => trivial
  dsimp only
  split
  · exact trivial
  · refine Prog.wp_bind_of (wordless_sizing (wordless_ask (c := .now) trivial))
      (fun startMs _ _ => ?_) fun _ _ _ => trivial
    exact buildDescending_sizing fun q hpos hle =>
      buildMintTx_sizing (within_of_le (h (by omega)) hle)

/-- PRECHECK lets nothing through that is not within. -/
theorem precheckGate_sizing {pre : Prefetch} {chain : MintStats} {rest : ℕ → Worker String}
    (hfits : FitsOwnCap checks plan pre chain)
    (hminted : minted = (counters pre chain).minterNumMinted)
    (hrest : ∀ quantity, (0 < quantity → WithinOwnCap checks plan minted quantity) →
      (rest quantity).wp (sizing checks plan minted) (fun _ _ => True) ()) :
    (precheckGate plan none pre.stats rest).wp (sizing checks plan minted)
      (fun _ _ => True) () := by
  subst hminted
  have hunread : pre.stats.join = none →
      (rest plan.quantity).wp (sizing checks plan (counters pre chain).minterNumMinted)
        (fun _ _ => True) () := by
    intro hjoin
    refine hrest _ fun hpos own hown => ?_
    have hfit := hfits own hown
    rw [hjoin] at hfit
    have hcounters : counters pre chain = chain := by rw [counters, hjoin, Option.getD_none]
    rw [hcounters]
    have hle : chain.minterNumMinted + plan.quantity ≤ own := hfit.resolve_left (by omega)
    exact ⟨by omega, hle⟩
  rcases hstats : pre.stats with _ | _ | stats
  · exact hunread (by rw [hstats]; rfl)
  · exact hunread (by rw [hstats]; rfl)
  · have hjoin : pre.stats.join = some stats := by rw [hstats]; rfl
    have hcounters : counters pre chain = stats := by rw [counters, hjoin, Option.getD_some]
    rw [hcounters] at hrest ⊢
    -- the verdict, with whatever caps were read
    have hverdict : ∀ caps : List (String × Option ℕ),
        (plan.stageId.isSome → caps = stageCapsForProject checks plan.projectId) →
        ∀ quantity, precheckAllowance plan.quantity
            ((caps.find? fun c => some c.1 = plan.stageId).bind Prod.snd) stats = .ok quantity →
          WithinOwnCap checks plan stats.minterNumMinted quantity := by
      intro caps hcaps quantity hok own hown
      have hstage : plan.stageId.isSome := by
        obtain ⟨c, _, _, _, hid, _⟩ := exists_row_of_own hown
        rw [← hid]
        rfl
      rw [hcaps hstage] at hok
      have hfit := hfits own hown
      rw [hjoin] at hfit
      exact (precheck_within_iff hown).mpr hfit quantity hok
    rw [precheckGate]
    split
    · next hnone =>
      refine Prog.wp_bind_of (R := fun r _ => r = .ok []) rfl (fun caps _ _ => ?_)
        fun _ _ _ => trivial
      dsimp only
      split
      · exact wordless_sizing wordless_failPass
      · exact wordless_sizing wordless_failPass
      · next quantity hok =>
        refine hrest quantity fun _ => hverdict caps (fun hsome => ?_) quantity hok
        rw [hnone] at hsome
        exact absurd hsome Bool.false_ne_true
    · refine Prog.wp_issue_bind trivial (fun caps hcaps => ?_) fun _ _ => trivial
      dsimp only
      split
      · exact wordless_sizing wordless_failPass
      · exact wordless_sizing wordless_failPass
      · next quantity hok =>
        exact hrest quantity fun _ => hverdict caps (fun _ => hcaps) quantity hok

/-- **Enough.**  Every run is sized to the own cap. -/
theorem sizedToOwnCap_of_fits {pre : Prefetch} {chain : MintStats}
    (hfits : FitsOwnCap checks plan pre chain) : SizedToOwnCap checks plan pre chain := by
  intro config fireUrls rpcUrl nearFire project wallet tr en hr ha
  suffices hw : (fireClaimed config plan fireUrls rpcUrl nearFire pre project wallet).wp
      (sizing checks plan (counters pre chain).minterNumMinted) (fun _ _ => True) () from
    (Prog.sound hw hr ha).1
  have hrecord : ∀ {outcome}, Wordless (recordPass plan outcome) :=
    .bind (wordless_ask trivial) fun _ => .pure _
  rcases project with _ | project
  · exact wordless_sizing hrecord
  · rcases wallet with _ | wallet
    · exact wordless_sizing hrecord
    · rw [fireClaimed]
      split
      · exact wordless_sizing hrecord
      · refine Prog.wp_bind_of (wordless_sizing wordless_resolveSigner) (fun signer _ _ => ?_)
          fun _ _ _ => trivial
        refine Prog.wp_bind.mpr (Prog.wp_issue.mpr ⟨trivial, fun x hx => ?_⟩)
        cases x with
        | error e => trivial
        | ok served =>
          obtain rfl : served = .notSelfServable := hx
          refine precheckGate_sizing hfits rfl fun quantity hwithin => ?_
          exact Prog.wp_bind_of (calldata_sizing hwithin)
            (fun tx _ _ => wordless_sizing wordless_firePipeline) fun _ _ _ => trivial

/-! ### Requests beyond the cap -/

/-- A request beyond the cap is made, at the fire instant. -/
theorem calldata_breaks {slug : String} {chainId quantity : ℕ} (hpos : 0 < quantity)
    (h : ¬ WithinOwnCap checks plan minted quantity) :
    (calldata config plan true slug chainId wallet none quantity).Breaks
      (sizing checks plan minted) () := by
  have hcached : freshCachedTx plan true 0 = none := by
    rw [freshCachedTx]
    split
    · rfl
    · rfl
  refine .bind (0 : ℤ) (Prog.may_issue (.ok (0 : ℤ)) trivial ⟨rfl, ?_⟩)
  dsimp only
  rw [hcached]
  refine .bind (0 : ℤ) (Prog.may_issue (.ok (0 : ℤ)) trivial ⟨rfl, ?_⟩)
  cases quantity with
  | zero => omega
  | succ quantity =>
    refine .bind_left (.attempt ?_)
    exact .bind (0 : ℤ) (Prog.may_issue (.ok (0 : ℤ)) trivial ⟨rfl, .issue h⟩)

/-- Any signer row may be read. -/
theorem resolveSigner_may :
    (resolveSigner plan wallet).may (sizing checks plan minted)
      (fun r _ => r = .ok (signerChoice plan wallet none)) () := by
  rw [resolveSigner]
  cases plan.signerId with
  | none => rfl
  | some id => exact Prog.may_bind none (Prog.may_issue (.ok none) trivial ⟨rfl, rfl⟩)

/-- What PRECHECK lets through is asked for. -/
theorem not_sizedToOwnCap_of {pre : Prefetch} {chain : MintStats} {quantity : ℕ}
    (hpos : 0 < quantity)
    (h : ¬ WithinOwnCap checks plan (counters pre chain).minterNumMinted quantity)
    (hgate : ∀ rest : ℕ → Worker String,
      (rest quantity).Breaks (sizing checks plan (counters pre chain).minterNumMinted) () →
      (precheckGate plan none pre.stats rest).Breaks
        (sizing checks plan (counters pre chain).minterNumMinted) ()) :
    ¬ SizedToOwnCap checks plan pre chain := by
  intro hsized
  have hbreaks : (fireClaimed Sample.config plan [] "rpc" true pre
      (some ⟨none, some "slug", 4663⟩) (some Sample.wallet)).Breaks
        (sizing checks plan (counters pre chain).minterNumMinted) () := by
    refine .bind (signerChoice plan Sample.wallet none) (Prog.may_mono resolveSigner_may ?_)
    rintro _ _ rfl
    refine ⟨rfl, .bind .notSelfServable (Prog.may_issue (.ok .notSelfServable) rfl ⟨rfl, ?_⟩)⟩
    exact hgate _ (.bind_left (calldata_breaks hpos h))
  obtain ⟨tr, en, hr, ha, hk⟩ := hbreaks.exists_run
  exact hk (hsized _ _ _ _ _ _ tr en hr ha)

/-- **Needed.**  Where the condition fails, some run asks for more. -/
theorem not_sizedToOwnCap_of_not_fits {pre : Prefetch} {chain : MintStats}
    (hfits : ¬ FitsOwnCap checks plan pre chain) : ¬ SizedToOwnCap checks plan pre chain := by
  rw [FitsOwnCap] at hfits
  push Not at hfits
  obtain ⟨own, hown, hfit⟩ := hfits
  cases hjoin : pre.stats.join with
  | none =>
    rw [hjoin] at hfit
    -- nothing was prefetched: the whole quantity is asked for
    have hcounters : counters pre chain = chain := by rw [counters, hjoin, Option.getD_none]
    have hbeyond : plan.quantity ≠ 0 ∧ own < chain.minterNumMinted + plan.quantity := by
      push Not at hfit
      exact hfit
    refine @not_sizedToOwnCap_of checks plan pre chain plan.quantity (by omega) (fun h => ?_) ?_
    · have hle := (h own hown).2
      rw [hcounters] at hle
      omega
    · intro rest hrest
      rcases hstats : pre.stats with _ | _ | stats
      · exact hrest
      · exact hrest
      · rw [hstats] at hjoin
        exact absurd hjoin (by simp)
  | some stats =>
    rw [hjoin] at hfit
    have hcounters : counters pre chain = stats := by rw [counters, hjoin, Option.getD_some]
    -- the precheck lets a quantity through that the own cap does not cover
    have hbeyond := mt (precheck_within_iff hown).mp hfit
    push Not at hbeyond
    obtain ⟨quantity, hok, hbeyond⟩ := hbeyond
    have hpos : 0 < quantity := by
      obtain ⟨cap, hcap, _⟩ := precheckCap_of_own hown
      rw [hcap] at hok
      exact precheckAllowance_pos hok
    refine not_sizedToOwnCap_of hpos (fun h => ?_) fun rest hrest => ?_
    · obtain ⟨hspent, hle⟩ := h own hown
      rw [hcounters] at hspent hle
      have := hbeyond hspent
      omega
    · have hstats : pre.stats = some (some stats) := by
        rcases hstats : pre.stats with _ | _ | stats'
        · rw [hstats] at hjoin
          exact absurd hjoin (by simp)
        · rw [hstats] at hjoin
          exact absurd hjoin (by simp)
        · rw [hstats] at hjoin
          rw [Option.some.inj hjoin]
      obtain ⟨stageId, hstage⟩ : ∃ stageId, plan.stageId = some stageId := by
        obtain ⟨c, _, _, _, hid, _⟩ := exists_row_of_own hown
        exact ⟨c.stageId, hid.symm⟩
      rw [hstage] at hok
      rw [hstats, precheckGate, hstage]
      refine .bind (stageCapsForProject checks plan.projectId)
        (Prog.may_issue (.ok (stageCapsForProject checks plan.projectId)) rfl ⟨rfl, ?_⟩)
      dsimp only
      rw [hok]
      exact hrest

/-- **The cap a request is sized to.**  In every run on an allowlist stage OpenSea is asked for no
more than the firing wallet's own stored cap leaves, and not at all when that is spent, exactly when
`FitsOwnCap` holds: with mixed caps PRECHECK goes by the largest one. -/
theorem sizedToOwnCap_iff (checks : CheckTable) (plan : Plan) (pre : Prefetch) (chain : MintStats) :
    SizedToOwnCap checks plan pre chain ↔ FitsOwnCap checks plan pre chain := by
  constructor
  · intro h
    by_contra hfits
    exact not_sizedToOwnCap_of_not_fits hfits h
  · exact sizedToOwnCap_of_fits

end

/-- The firing wallet may mint one token of the stage, another wallet three. -/
def Sample.mixedCaps : CheckTable where
  rows :=
    [⟨"w", "q", "fcfs", .eligibleRestricted, some 1, none, 0, none, none⟩,
      ⟨"v", "q", "fcfs", .eligibleRestricted, some 3, none, 0, none, none⟩]
  nodup := by decide

/-- **A spent cap is not seen.**  The wallet has minted the one token it may mint; the plan of that
stage asks OpenSea for two more. -/
theorem spent_cap_asks :
    ownCap Sample.mixedCaps { Sample.plan with stageId := some "fcfs", quantity := 2 } = some 1 ∧
      ¬ SizedToOwnCap Sample.mixedCaps { Sample.plan with stageId := some "fcfs", quantity := 2 }
        ⟨none, some (some ⟨1, 10, 100⟩)⟩ ⟨1, 10, 100⟩ := by
  have hown : ownCap Sample.mixedCaps { Sample.plan with stageId := some "fcfs", quantity := 2 } =
      some 1 := by decide
  refine ⟨hown, not_sizedToOwnCap_of_not_fits fun hfits => ?_⟩
  have hfit : supplyLeft ⟨1, 10, 100⟩ ≤ 0 ∨
      (∀ cap ∈ storedCaps Sample.mixedCaps
        { Sample.plan with stageId := some "fcfs", quantity := 2 }, cap ≤ 1) ∨
      1 < 1 ∧ _ := hfits 1 hown
  rcases hfit with hleft | hcaps | ⟨hspent, _⟩
  · exact absurd hleft (by decide)
  · exact absurd (hcaps 3 (by decide)) (by decide)
  · exact absurd hspent (by decide)

end MintWorker
