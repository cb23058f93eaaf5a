/-
When a plan is made, and for how long it is armed (`packages/core/src/auto-mint.ts`;
`specialMintArmWindow` of `apps/web/src/app/actions.ts`).

* `parseAutoMintPolicy` — a stored policy, every number clamped to its bounds;
* `decideAutoMint` — whether the planner plans a stage, and for how many minutes it arms;
* `specialMintArmWindow` — the minutes that the special-mints console arms a plan for;
* `specialMintArmWindow_covers` — they reach the instant at which the plan fires;
  `armMinutes_covers_iff` — those of the planner do when the stage opens within a day.

Instants are in milliseconds, wei amounts numbers.  Of what the console tells the operator the
reason is kept, which it also audits.
-/
import HoodMint.Lib.Text
import HoodMint.Lifecycle
import Mathlib.Data.Rat.Floor

namespace AutoMint

open Projects

/-! ### The policy -/

/-- `AutoMintPolicy`. -/
structure AutoMintPolicy where
  enabled : Bool
  walletIds : List String
  maxPriceWei : ℕ
  publicOnly : Bool
  maxRiskScore : ℤ
  requireRiskSignal : Bool
  lookaheadHours : ℤ
  maxPerWalletPerDay : ℤ
  quantity : ℤ
  requireCuratedListing : Bool
  minHypeScore : ℤ
  minUniqueMintersLive : ℤ
  ownerUserId : Option String
deriving DecidableEq

/-- `DEFAULT_AUTO_MINT_POLICY`. -/
def defaultAutoMintPolicy : AutoMintPolicy where
  enabled := false
  walletIds := []
  maxPriceWei := 0
  publicOnly := true
  maxRiskScore := 40
  requireRiskSignal := false
  lookaheadHours := 24
  maxPerWalletPerDay := 20
  quantity := 1
  requireCuratedListing := true
  minHypeScore := 0
  minUniqueMintersLive := 0
  ownerUserId := none

/-- A value of a stored policy, as JSON gives it. -/
inductive Field
  | absent | bool (b : Bool) | number (q : ℚ) | text (s : String) | array (texts : List String)
  | other
deriving DecidableEq

/-- The stored policy; what is no string in `walletIds` is dropped there anyway. -/
structure PolicyInput where
  enabled : Field
  walletIds : Field
  maxPriceWei : Field
  publicOnly : Field
  maxRiskScore : Field
  requireRiskSignal : Field
  lookaheadHours : Field
  maxPerWalletPerDay : Field
  quantity : Field
  requireCuratedListing : Field
  minHypeScore : Field
  minUniqueMintersLive : Field
  ownerUserId : Field

/-- Decimal digits, as a number. -/
def digits (cs : List Char) : ℕ := cs.foldl (fun n c => 10 * n + (c.toNat - '0'.toNat)) 0

/-- `Number.parseInt(text, 10)`. -/
def parseInt (text : String) : Option ℤ :=
  let body := text.toList.dropWhile Text.isSpace
  let unsigned := if body.head? = some '-' ∨ body.head? = some '+' then body.tail else body
  let ds := unsigned.takeWhile Char.isDigit
  if ds = [] then none
  else some ((if body.head? = some '-' then -1 else 1) * (digits ds : ℤ))

/-- `int`. -/
def int (v : Field) (d lo hi : ℤ) : ℤ :=
  let n : Option ℤ :=
    match v with
    | .number q => some (q.num.tdiv q.den)
    | .text s => parseInt s
    | _ => none
  n.elim d fun n => min hi (max lo n)

/-- `bool`. -/
def bool (v : Field) (d : Bool) : Bool :=
  match v with
  | .bool b => b
  | _ => d

def isHexDigit (c : Char) : Bool :=
  c.isDigit ∨ ('a' ≤ c ∧ c ≤ 'f') ∨ ('A' ≤ c ∧ c ≤ 'F')

/-- `UUID`. -/
@[irreducible] def isUuid (s : String) : Bool :=
  s.toList.length = 36 ∧ s.toList.zipIdx.all fun e =>
    if e.2 ∈ [8, 13, 18, 23] then e.1 = '-' else isHexDigit e.1

/-- `parseAutoMintPolicy`. -/
def parseAutoMintPolicy (o : PolicyInput) : AutoMintPolicy :=
  let d := defaultAutoMintPolicy
  { enabled := bool o.enabled d.enabled
    walletIds := match o.walletIds with
      | .array texts => texts.filter isUuid
      | _ => []
    maxPriceWei := match o.maxPriceWei with
      | .text s => if s.toList ≠ [] ∧ s.toList.all Char.isDigit then digits s.toList else 0
      | _ => 0
    publicOnly := bool o.publicOnly d.publicOnly
    maxRiskScore := int o.maxRiskScore d.maxRiskScore 0 100
    requireRiskSignal := bool o.requireRiskSignal d.requireRiskSignal
    lookaheadHours := int o.lookaheadHours d.lookaheadHours 1 168
    maxPerWalletPerDay := int o.maxPerWalletPerDay d.maxPerWalletPerDay 1 500
    quantity := int o.quantity d.quantity 1 10
    requireCuratedListing := bool o.requireCuratedListing d.requireCuratedListing
    minHypeScore := int o.minHypeScore d.minHypeScore 0 100
    minUniqueMintersLive := int o.minUniqueMintersLive d.minUniqueMintersLive 0 10000
    ownerUserId := match o.ownerUserId with
      | .text s => if s ≠ "" then some s else none
      | _ => none }

/-! ### The planner's decision -/

/-- `AutoMintCandidate`. -/
structure AutoMintCandidate where
  projectId : String
  projectName : String
  stageId : String
  stageKind : StageKind
  priceWei : Option ℕ
  startsAtMs : ℤ
  endsAtMs : Option ℤ
  paused : Bool
  riskScore : Option ℤ
  hypeScore : Option ℤ
  curated : Bool
  uniqueMinters1h : ℤ
deriving DecidableEq

inductive AutoMintDecision
  | plan (ceilingWei : ℕ) (armMinutes : ℤ)
  | skip (reason : String)
deriving DecidableEq

/-- `LIVE_DEMAND_GRACE_MS`. -/
def liveDemandGraceMs : ℤ := 15 * 60000

/-- `formatOpenFor`. -/
def formatOpenFor (ms : ℤ) : String :=
  let minutes := ms / 60000
  let hours := minutes / 60
  if minutes < 120 then toString minutes ++ "m"
  else if hours < 48 then toString hours ++ "h" else toString (hours / 24) ++ "d"

/-- `OPENSEA_MINT_FEE_ALLOWANCE_WEI`. -/
def openseaMintFeeAllowanceWei : ℕ := 100000000000000

/-- `mintSpendCeilingWei`. -/
def mintSpendCeilingWei (priceWei : ℕ) (quantity : ℤ) : ℕ :=
  (priceWei + openseaMintFeeAllowanceWei) * (max 1 quantity).toNat

/-- `Math.ceil(ms / 60_000)`. -/
def ceilMinutes (ms : ℤ) : ℤ := -(-ms / 60000)

/-- Until the stage ends, or for a day. -/
def armMinutes (endsAtMs : Option ℤ) (nowMs : ℤ) : ℤ :=
  max 1 (min (24 * 60) (ceilMinutes (endsAtMs.getD (nowMs + 24 * 3600000) - nowMs)))

def kindText : StageKind → String
  | .publicSale => "public"
  | .allowlist => "allowlist"
  | .presale => "presale"
  | .gtd => "gtd"
  | .community => "community"
  | .unknown => "unknown"

/-- The demand gate of a stage that has been open for a while, and why it is closed. -/
def deadDrop (policy : AutoMintPolicy) (c : AutoMintCandidate) (nowMs : ℤ) : Option String :=
  let openForMs := nowMs - c.startsAtMs
  if c.startsAtMs ≤ nowMs ∧ openForMs > liveDemandGraceMs then
    if c.uniqueMinters1h = 0 then
      some ("open " ++ formatOpenFor openForMs ++ " with 0 minters in the last hour (dead drop)")
    else if policy.minUniqueMintersLive > 0 ∧ c.uniqueMinters1h < policy.minUniqueMintersLive then
      some ("open " ++ formatOpenFor openForMs ++ ", only " ++ toString c.uniqueMinters1h ++
        " unique minters/1h < min " ++ toString policy.minUniqueMintersLive)
    else none
  else none

/-- The gate of the risk score, and why it is closed. -/
def tooRisky (policy : AutoMintPolicy) (riskScore : Option ℤ) : Option String :=
  match riskScore with
  | none => if policy.requireRiskSignal then some "no risk signal yet (strict mode)" else none
  | some score =>
    if score > policy.maxRiskScore then
      some ("risk " ++ toString score ++ " > max " ++ toString policy.maxRiskScore)
    else none

/-- `decideAutoMint`. -/
def decideAutoMint (policy : AutoMintPolicy) (c : AutoMintCandidate) (nowMs : ℤ) :
    AutoMintDecision :=
  let price := c.priceWei.getD 0
  if ¬ policy.enabled then .skip "policy disabled"
  else if c.paused then .skip "stage paused"
  else if c.endsAtMs.elim false (· ≤ nowMs) then .skip "stage ended"
  else if c.startsAtMs > nowMs + policy.lookaheadHours * 3600000 then .skip "beyond lookahead"
  else if policy.publicOnly ∧ c.stageKind ≠ .publicSale then
    .skip ("stage is " ++ kindText c.stageKind ++ ", not public")
  else if price > policy.maxPriceWei then
    .skip ("price " ++ toString price ++ " > max " ++ toString policy.maxPriceWei)
  else match tooRisky policy c.riskScore with
    | some reason => .skip reason
    | none =>
      if policy.requireCuratedListing ∧ ¬ c.curated then
        .skip "not in an OpenSea curated drops feed"
      else if policy.minHypeScore > 0 ∧ c.hypeScore.elim false (· < policy.minHypeScore) then
        .skip ("hype " ++ toString (c.hypeScore.getD 0) ++ " < min " ++
          toString policy.minHypeScore)
      else match deadDrop policy c nowMs with
        | some reason => .skip reason
        | none => .plan (mintSpendCeilingWei price policy.quantity) (armMinutes c.endsAtMs nowMs)

/-- What is planned is not over, within the lookahead, and armed for `armMinutes`. -/
theorem decideAutoMint_plan {policy : AutoMintPolicy} {c : AutoMintCandidate} {nowMs : ℤ}
    {ceilingWei : ℕ} {minutes : ℤ} (h : decideAutoMint policy c nowMs = .plan ceilingWei minutes) :
    (∀ e ∈ c.endsAtMs, nowMs < e) ∧ c.startsAtMs ≤ nowMs + policy.lookaheadHours * 3600000 ∧
      minutes = armMinutes c.endsAtMs nowMs := by
  have hskip : ∀ reason, AutoMintDecision.skip reason ≠ .plan ceilingWei minutes := by
    intro reason hreason
    cases hreason
  rw [decideAutoMint] at h
  repeat' split at h
  all_goals try exact absurd h (hskip _)
  rename_i _ _ hends hlookahead _ _ _ _ _ _ _ _
  refine ⟨?_, Int.not_lt.mp hlookahead, (AutoMintDecision.plan.inj h).2.symm⟩
  intro e he
  cases he' : c.endsAtMs with
  | none =>
    rw [he'] at he
    exact absurd he (Option.not_mem_none e)
  | some e' =>
    rw [he'] at he hends
    cases he
    simpa using hends

theorem armMinutes_bounds (endsAtMs : Option ℤ) (nowMs : ℤ) :
    1 ≤ armMinutes endsAtMs nowMs ∧ armMinutes endsAtMs nowMs ≤ 24 * 60 := by
  rw [armMinutes]
  omega

theorem le_ceilMinutes (ms : ℤ) : ms ≤ ceilMinutes ms * 60000 := by
  rw [ceilMinutes]
  omega

/-- **The planner's window** reaches the opening of a stage that opens within a day. -/
theorem armMinutes_covers_iff {endsAtMs : Option ℤ} {startsAtMs nowMs : ℤ}
    (hwindow : ∀ e ∈ endsAtMs, startsAtMs < e) :
    startsAtMs ≤ nowMs + armMinutes endsAtMs nowMs * 60000 ↔
      startsAtMs ≤ nowMs + 24 * 60 * 60000 := by
  have hbounds := armMinutes_bounds endsAtMs nowMs
  constructor
  · intro h
    omega
  · intro h
    rw [armMinutes]
    cases endsAtMs with
    | none =>
      have hceil := le_ceilMinutes (nowMs + 24 * 3600000 - nowMs)
      show _ ≤ nowMs + max 1 (min _ (ceilMinutes (nowMs + 24 * 3600000 - nowMs))) * 60000
      omega
    | some e =>
      have he := hwindow e rfl
      have hceil := le_ceilMinutes (e - nowMs)
      show _ ≤ nowMs + max 1 (min _ (ceilMinutes (e - nowMs))) * 60000
      omega

/-! ### The console's window -/

/-- `SPECIAL_MINT_MAX_ARM_MINUTES`. -/
def specialMintMaxArmMinutes : ℤ := 24 * 60

/-- `MANUAL_FIRE_ARM_TAIL_MS`. -/
def manualFireArmTailMs : ℤ := 4 * 60 * 60 * 1000

inductive ArmRefusal | noFireInstant | fireTimePassed | fireBeyondArmWindow
deriving DecidableEq

/-- The window of a stage. -/
structure StageWindow where
  startsAt : ℤ
  endsAt : Option ℤ
deriving DecidableEq

def StageWindow.isOpen (stage : StageWindow) (now : ℤ) : Bool :=
  stage.startsAt ≤ now ∧ stage.endsAt.elim true (now < ·)

/-- When the plan fires: its own instant, else the start of its stage. -/
def fireTarget (fireAt : Option ℤ) (stage : Option StageWindow) : Option ℤ :=
  fireAt.or (stage.map (·.startsAt))

/-- `untilMs`, first: the manual tail, or the end of the stage. -/
def armUntil (fireAt : Option ℤ) (stage : Option StageWindow) : Option ℤ :=
  match fireAt, stage with
  | some fireAt, _ => some (fireAt + manualFireArmTailMs)
  | none, none => none
  | none, some stage => some (stage.endsAt.getD (stage.startsAt + manualFireArmTailMs))

/-- `untilMs`, for who joins a live phase late. -/
def lateUntil (now : ℤ) (stage : Option StageWindow) (untilMs : ℤ) : ℤ :=
  match stage with
  | none => untilMs
  | some stage =>
    if untilMs - now < 60000 ∧ stage.isOpen now then
      stage.endsAt.getD (now + manualFireArmTailMs)
    else untilMs

/-- `specialMintArmWindow`. -/
def specialMintArmWindow (now : ℤ) (fireAt : Option ℤ) (stage : Option StageWindow) :
    Except ArmRefusal ℤ :=
  let stageOpen := stage.elim false (·.isOpen now)
  match fireTarget fireAt stage with
  | none => .error .noFireInstant
  | some fireTargetMs =>
    if fireTargetMs - now > specialMintMaxArmMinutes * 60000 then .error .fireBeyondArmWindow
    else if fireTargetMs ≤ now ∧ ¬ stageOpen then .error .fireTimePassed
    else match armUntil fireAt stage with
      | none => .error .noFireInstant
      | some untilMs =>
        let minutes := ceilMinutes (lateUntil now stage untilMs - now)
        if minutes < 1 then .error .fireTimePassed
        else .ok (min minutes specialMintMaxArmMinutes)

theorem manualFireArmTailMs_pos : 60000 ≤ manualFireArmTailMs := by decide

/-- The end of an open stage, or a tail from now, is not in the past. -/
theorem le_lateEnd {now : ℤ} {stage : StageWindow} (hopen : stage.isOpen now = true) :
    now ≤ stage.endsAt.getD (now + manualFireArmTailMs) := by
  have htail := manualFireArmTailMs_pos
  obtain ⟨_, hends⟩ := of_decide_eq_true hopen
  cases he : stage.endsAt with
  | none =>
    show now ≤ now + manualFireArmTailMs
    omega
  | some e =>
    rw [he] at hends
    exact le_of_lt (of_decide_eq_true hends)

/-- **The console's window** is meant to end after the plan fires. -/
theorem fireTarget_le_lateUntil {now target untilMs : ℤ} {fireAt : Option ℤ}
    {stage : Option StageWindow} (hwindow : ∀ s ∈ stage, ∀ e ∈ s.endsAt, s.startsAt < e)
    (htarget : fireTarget fireAt stage = some target)
    (huntil : armUntil fireAt stage = some untilMs) : target ≤ lateUntil now stage untilMs := by
  have htail := manualFireArmTailMs_pos
  cases fireAt with
  | some fireAt =>
    obtain rfl := Option.some_inj.mp htarget
    obtain rfl := Option.some_inj.mp huntil
    cases stage with
    | none =>
      show fireAt ≤ fireAt + manualFireArmTailMs
      omega
    | some stage =>
      simp only [lateUntil]
      split
      · next hlate =>
        -- the manual tail has run out, so the instant is long past
        have hnow := le_lateEnd hlate.2
        omega
      · omega
  | none =>
    cases stage with
    | none => exact absurd htarget.symm (Option.some_ne_none target)
    | some stage =>
      obtain rfl := Option.some_inj.mp htarget
      obtain rfl := Option.some_inj.mp huntil
      simp only [lateUntil]
      cases hends : stage.endsAt with
      | some e =>
        have he := hwindow stage rfl e hends
        simp only [Option.getD_some]
        split <;> exact le_of_lt he
      | none =>
        simp only [Option.getD_none]
        split
        · next hlate =>
          have hstarted := (of_decide_eq_true hlate.2).1
          omega
        · omega

/-- **The console's window** reaches the instant the plan fires at, and is between a minute and a
day. -/
theorem specialMintArmWindow_covers {now minutes : ℤ} {fireAt : Option ℤ}
    {stage : Option StageWindow} (hwindow : ∀ s ∈ stage, ∀ e ∈ s.endsAt, s.startsAt < e)
    (h : specialMintArmWindow now fireAt stage = .ok minutes) :
    ∃ target, fireTarget fireAt stage = some target ∧ target ≤ now + minutes * 60000 ∧
      target ≤ now + 24 * 60 * 60000 ∧ 1 ≤ minutes ∧ minutes ≤ 24 * 60 := by
  have herror : ∀ e : ArmRefusal, (Except.error e : Except ArmRefusal ℤ) ≠ .ok minutes := by
    intro e he
    cases he
  rw [specialMintArmWindow] at h
  split at h
  · exact absurd h (herror _)
  next target htarget =>
    split at h
    · exact absurd h (herror _)
    next hbeyond =>
      split at h
      · exact absurd h (herror _)
      split at h
      · exact absurd h (herror _)
      next untilMs huntil =>
        have hle : target ≤ lateUntil now stage untilMs :=
          fireTarget_le_lateUntil hwindow htarget huntil
        have hceil := le_ceilMinutes (lateUntil now stage untilMs - now)
        simp only at h
        split at h
        · exact absurd h (herror _)
        next hminutes =>
          have hmin := Except.ok.inj h
          rw [specialMintMaxArmMinutes] at hbeyond hmin
          exact ⟨target, htarget, by omega, by omega, by omega, by omega⟩

end AutoMint
