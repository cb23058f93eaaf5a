/-
What makes and arms mint plans asks of the session, the database and the chain
(`apps/web/src/app/actions.ts`, `apps/worker/src/workers/auto-mint.ts`,
`packages/db/src/repositories/auto-mint.ts`, `mint-allowance.ts`, `execution.ts`), and what the
operator types (`apps/web/src/lib/mint-target.ts`, `admin-validation.ts`).

* `Cmd`, `Cmd.Resp` — the commands with their answers;
* `gmt7LocalToUtc` — a typed fire time.

Of an audit entry the metadata is left out, of a refusal its wording; no action reads what a
failed command throws.  Wei amounts are numbers once their digits have been checked.
-/
import HoodMint.AutoMint
import HoodMint.Lib.Effect
import HoodMint.MintAllowance

namespace PlanCreators

open AutoMint Effect Eligibility MintAllowance Projects

open MintWorker (MintPlan CreateMintPlanInput)

/-! ### Data -/

/-- A signer, as far as a plan's creation reads it. -/
structure Signer where
  id : String
  active : Bool
deriving DecidableEq

/-- A wallet as `listWallets` lists it. -/
structure ListedWallet where
  id : String
  hasSigningKey : Bool
deriving DecidableEq

/-- `ArmFundingResult`. -/
inductive ArmFunding
  | checked | notChecked (reason : String) | short
deriving DecidableEq

inductive AuditAction
  | planCreate | specialMintCreate | specialMintArm | specialMintClampQuantity | automintPlanArmed
deriving DecidableEq

/-- `recordAudit`. -/
structure AuditEntry where
  actorUserId : String
  action : AuditAction
  targetId : String
  success : Bool
deriving DecidableEq

/-- The arguments of `checkArmFunding`. -/
structure FundingInput where
  walletId : String
  quantity : ℕ
  perPlanCeilingWei : ℕ
  priceWei : Option String
  currency : Option String
deriving DecidableEq

/-! ### Commands -/

inductive Cmd
  -- the session and the clock
  | requireApi (permission : String)
  | requireFreshStepUp (permission : String)
  | now
  -- rows read
  | getDropStage (id : String)
  | getSigner (id : String)
  | getMintPlan (id : String)
  | listEnabledWallets
  | stageWalletCaps (stageId : String)
  | walletMintTotalsForProject (projectId : String)
  | eligibilityForStage (projectId stageId : String)
  | walletsWithLivePlanForStage (projectId : String) (stageId : Option String)
  | loadPolicy
  | managedWalletsAmong (walletIds : List String)
  | autoMintCandidateStages (lookaheadHours : ℤ)
  | executedLast24h (walletId : String)
  | blockingPlanExists (walletId stageId : String)
  | attemptsForStage (walletId stageId : String)
  -- balances read from the chain
  | checkArmFunding (input : FundingInput)
  -- rows written
  | createMintPlan (input : CreateMintPlanInput)
  | setDraftMintPlanQuantity (planId : String) (quantity : ℕ)
  | armMintPlan (planId armedByUserId : String) (windowMinutes : ℤ)
  | recordAudit (entry : AuditEntry)

/-- The answer to each command.  A creation answers with the plan's id; an arming, whether the plan
was a draft; a change of quantity, with the quantity stored. -/
abbrev Cmd.Resp : Cmd → Type
  | .requireApi _ => String
  | .requireFreshStepUp _ => String
  | .now => ℤ
  | .getDropStage _ => Option StageRow
  | .getSigner _ => Option Signer
  | .getMintPlan _ => Option MintPlan
  | .listEnabledWallets => List ListedWallet
  | .stageWalletCaps _ => List (String × ℕ)
  | .walletMintTotalsForProject _ => List WalletDropMintTotals
  | .eligibilityForStage .. => List (String × EligibilityState)
  | .walletsWithLivePlanForStage .. => List String
  | .loadPolicy => Option PolicyInput
  | .managedWalletsAmong _ => List String
  | .autoMintCandidateStages _ => List AutoMintCandidate
  | .executedLast24h _ => ℕ
  | .blockingPlanExists .. => Bool
  | .attemptsForStage .. => ℕ
  | .checkArmFunding _ => ArmFunding
  | .createMintPlan _ => String
  | .setDraftMintPlanQuantity .. => Option ℕ
  | .armMintPlan .. => Bool
  | .recordAudit _ => Unit

abbrev signature : Signature := ⟨Cmd, Cmd.Resp⟩

/-- What a failed command throws. -/
abbrev Thrown := Unit

abbrev Creator (α : Type) := Prog signature Thrown α

/-- Issue a command. -/
abbrev ask (c : Cmd) : Creator c.Resp := Prog.issue (S := signature) c

/-! ### What the operator types -/

/-- `value?.trim() ?? ""`. -/
@[irreducible] def typedText (value : Option String) : String := Text.trim (value.getD "")

/-- `isUuid`: white space around it is ignored. -/
def isTypedUuid (value : String) : Bool := isUuid (Text.trim value)

/-- A spend ceiling: digits, and not `"0"`. -/
def ceiling? (text : String) : Option ℕ :=
  if text.toList ≠ [] ∧ text.toList.all Char.isDigit ∧ text ≠ "0" then some (digits text.toList)
  else none

/-- A number as BigInt reads it, of an amount that may be missing. -/
def weiOrZero (text : Option String) : ℕ :=
  text.elim 0 fun text =>
    if text.toList ≠ [] ∧ text.toList.all Char.isDigit then digits text.toList else 0

/-- Two digits. -/
def twoDigits (a b : Char) : Option ℕ :=
  if a.isDigit ∧ b.isDigit then some (digits [a, b]) else none

/-- Days from 1 January 1970 to the first of a month, which may be any of the years since 100. -/
def daysToMonth (year month : ℕ) : ℤ :=
  -- years are taken to start in March, so that a leap day is a year's last day
  let y : ℤ := if month ≤ 2 then year - 1 else year
  let m : ℤ := (month + 9) % 12
  365 * y + y / 4 - y / 100 + y / 400 + (153 * m + 2) / 5 - 719468

/-- A GMT+7 wall clock, as the UTC instant it denotes; nothing for a date that does not exist. -/
def gmt7Instant (year month day hour minute second : ℕ) : Option ℤ :=
  if month < 1 ∨ month > 12 ∨ day < 1 ∨ day > 31 ∨ hour > 23 ∨ minute > 59 ∨ second > 59 then none
  else
    let first := daysToMonth year month
    let next := if month = 12 then daysToMonth (year + 1) 1 else daysToMonth year (month + 1)
    -- `Date.UTC` reads a year below 100 as one of the last century
    if year < 100 ∨ first + day > next then none
    else some ((((first + day - 1) * 24 + hour) * 60 + minute) * 60000 + second * 1000 -
      7 * 60 * 60 * 1000)

/-- `gmt7LocalToUtc`. -/
def gmt7LocalToUtc (value : String) : Option ℤ :=
  match (Text.trim value).toList with
  | y₁ :: y₂ :: y₃ :: y₄ :: '-' :: m₁ :: m₂ :: '-' :: d₁ :: d₂ :: 'T' :: h₁ :: h₂ :: ':' ::
      n₁ :: n₂ :: seconds => do
    let century ← twoDigits y₁ y₂
    let year ← twoDigits y₃ y₄
    let month ← twoDigits m₁ m₂
    let day ← twoDigits d₁ d₂
    let hour ← twoDigits h₁ h₂
    let minute ← twoDigits n₁ n₂
    match seconds with
    | [] => gmt7Instant (100 * century + year) month day hour minute 0
    | [':', s₁, s₂] => do
      let second ← twoDigits s₁ s₂
      gmt7Instant (100 * century + year) month day hour minute second
    | _ => none
  | _ => none

example : gmt7LocalToUtc "2026-09-01T20:30" = some 1788269400000 := by decide

example : gmt7LocalToUtc "2026-02-30T08:00" = none := by decide

end PlanCreators
