/-
The MintExecutor contract.

A shallow embedding of `contracts/mint-executor/src/MintExecutor.sol`: one
definition for each function of the source, on a `World` that holds the
contract's storage, its ether balance and the event log it has written.

* `executeMint` runs the source function up to its external call, with both
  modifiers; `executor.resume` is what is left to do once that call succeeds;
* `consumeRollingWindow`, `extractRecipient` — its two private helpers, in
  256-bit arithmetic that is checked where Solidity 0.8 checks it;
* `executor` — the whole contract as a `Rollback.Handler`, so that a run of
  `Rollback.Machine.step` is a sequence of transactions by anybody, with
  arbitrary reentrant calls while control is out of the contract.

The event log is the chain's own record: an event of a frame that reverts is
rolled back with everything else, so at every moment it lists exactly what has
succeeded (or is under way in a frame that is still open).
-/
import Mathlib.Data.BitVec
import Mathlib.Logic.Function.Basic
import HoodMint.Lib.Rollback

namespace MintExecutor

/-! ### Words, bytes and checked arithmetic -/

abbrev Address := BitVec 160
abbrev UInt256 := BitVec 256
abbrev Bytes4 := BitVec 32
abbrev Bytes := List (BitVec 8)

/-- The number a byte string spells, most significant byte first. -/
def bigEndian (bytes : Bytes) : ℕ :=
  bytes.foldl (fun n b => 256 * n + b.toNat) 0

/-- `bytes4(data[:4])`. -/
def selectorOf (data : Bytes) : Bytes4 := BitVec.ofNat 32 (bigEndian (data.take 4))

/-- The 32-byte word of `data` at `offset`. -/
def calldataload (data : Bytes) (offset : ℕ) : UInt256 :=
  BitVec.ofNat 256 (bigEndian ((data.drop offset).take 32))

/-- `address(uint160(uint256(word)))`. -/
def addressOf (word : UInt256) : Address := word.setWidth 160

/-- A block timestamp: positive, because every block is younger than genesis,
and a 64-bit number in every client. -/
def Timestamp := {t : ℕ // 0 < t ∧ t < 2 ^ 64}

namespace Timestamp

instance : LE Timestamp := ⟨fun a b => a.1 ≤ b.1⟩
instance : DecidableLE Timestamp := fun a b => inferInstanceAs (Decidable (a.1 ≤ b.1))

/-- `block.timestamp`, as a word of the contract. -/
def word (t : Timestamp) : UInt256 := BitVec.ofNat 256 t.1

@[simp] theorem word_toNat (t : Timestamp) : t.word.toNat = t.1 := by
  have h := t.2.2
  rw [word, BitVec.toNat_ofNat, Nat.mod_eq_of_lt (by omega)]

theorem le_def {a b : Timestamp} : a ≤ b ↔ a.1 ≤ b.1 := Iff.rfl

end Timestamp

/-- The custom errors of the source, Solidity's arithmetic panic, and the
revert of a function without `payable` that is sent ether. -/
inductive Error
  | notOwner
  | notOperator
  | zeroAddress
  | targetNotAllowlisted
  | recipientMismatch (expected actual : Address)
  | calldataTooShortForRecipient
  | valueCapExceeded (requested remaining : UInt256)
  | insufficientBalance (requested : UInt256) (available : ℕ)
  | reentrant
  | panicArithmetic
  | nonPayable
  deriving DecidableEq

/-- `if (c) revert e;` -/
def revertIf (c : Prop) [Decidable c] (e : Error) : Except Error Unit :=
  if c then .error e else .ok ()

theorem bind_eq_ok {α β : Type*} {x : Except Error α} {f : α → Except Error β} {b : β} :
    x.bind f = .ok b ↔ ∃ a, x = .ok a ∧ f a = .ok b := by
  cases x <;> simp [Except.bind]

theorem revertIf_eq_ok {c : Prop} [Decidable c] {e : Error} {u : Unit} :
    revertIf c e = .ok u ↔ ¬c := by
  unfold revertIf
  split <;> simp_all

/-- Solidity 0.8 addition: a wrap-around is a panic, not a result. -/
def checkedAdd (a b : UInt256) : Except Error UInt256 :=
  if a.toNat + b.toNat < 2 ^ 256 then .ok (a + b) else .error .panicArithmetic

theorem checkedAdd_eq_ok {a b c : UInt256} :
    checkedAdd a b = .ok c ↔ c.toNat = a.toNat + b.toNat := by
  unfold checkedAdd
  split
  · rename_i h
    have hadd : (a + b).toNat = a.toNat + b.toNat := by
      rw [BitVec.toNat_add, Nat.mod_eq_of_lt h]
    rw [Except.ok.injEq, ← BitVec.toNat_inj, hadd, eq_comm]
  · have hc := c.isLt
    simp only [reduceCtorEq, false_iff]
    omega

/-- Solidity 0.8 subtraction: an underflow is a panic, not a result. -/
def checkedSub (a b : UInt256) : Except Error UInt256 :=
  if b.toNat ≤ a.toNat then .ok (a - b) else .error .panicArithmetic

/-! ### Storage, log and messages -/

/-- `struct Allowlist`. -/
structure Allowlist where
  allowed : Bool := false
  recipientOffset : UInt256 := 0
  valueCapWei : UInt256 := 0
  deriving DecidableEq

inductive Event
  | operatorSet (previousOperator newOperator : Address)
  | allowlistSet (target : Address) (selector : Bytes4) (entry : Allowlist)
  | mintExecuted (target : Address) (selector : Bytes4) (value : UInt256) (recipient : Address)
  | deposited (sender : Address) (amount : ℕ)
  | withdrawn (dest : Address) (amount : UInt256)
  deriving DecidableEq

/-- An emitted event with the message and the block it was emitted in. -/
structure Record where
  sender : Address
  timestamp : ℕ
  event : Event
  deriving DecidableEq

def NOT_ENTERED : UInt256 := 1
def ENTERED : UInt256 := 2

/-- The contract's storage, its balance and its log, newest record first. -/
structure World where
  operator : Address
  allowlist : Address → Bytes4 → Allowlist
  windowStart : Address → UInt256
  windowSpentWei : Address → UInt256
  reentrancyStatus : UInt256
  balance : ℕ
  log : List Record

/-- Who calls, with how much ether.  Nobody can send from the zero address. -/
structure Msg where
  sender : Address
  value : ℕ
  sender_ne_zero : sender ≠ 0

def World.emit (w : World) (now : Timestamp) (msg : Msg) (e : Event) : World :=
  { w with log := ⟨msg.sender, now.1, e⟩ :: w.log }

/-! ### The functions of the contract -/

/-- `constructor(_owner)`; ether sent ahead to the address is already there. -/
def construct (_owner : Address) (prefunded : ℕ) : Except Error World := do
  revertIf (_owner = 0) .zeroAddress
  pure
    { operator := 0
      allowlist := fun _ _ => {}
      windowStart := fun _ => 0
      windowSpentWei := fun _ => 0
      reentrancyStatus := NOT_ENTERED
      balance := prefunded
      log := [] }

section Functions

variable (owner : Address) (now : Timestamp) (msg : Msg)

/-- `modifier onlyOwner`. -/
def onlyOwner : Except Error Unit := revertIf (msg.sender ≠ owner) .notOwner

def receive (w : World) : World :=
  { w with balance := w.balance + msg.value }.emit now msg (.deposited msg.sender msg.value)

def setOperator (newOperator : Address) (w : World) : Except Error World := do
  onlyOwner owner msg
  revertIf (newOperator = 0) .zeroAddress
  pure { w.emit now msg (.operatorSet w.operator newOperator) with operator := newOperator }

def revokeOperator (w : World) : Except Error World := do
  onlyOwner owner msg
  pure { w.emit now msg (.operatorSet w.operator 0) with operator := 0 }

def setAllowlist (target : Address) (selector : Bytes4) (allowed : Bool)
    (recipientOffset valueCapWei : UInt256) (w : World) : Except Error World := do
  onlyOwner owner msg
  revertIf (target = 0) .zeroAddress
  let entry : Allowlist := { allowed, recipientOffset, valueCapWei }
  let w := { w with
    allowlist := Function.update w.allowlist target
      (Function.update (w.allowlist target) selector entry) }
  pure (w.emit now msg (.allowlistSet target selector entry))

/-- `withdraw`, up to and with the transfer that opens its external call. -/
def withdraw (dest : Address) (amount : UInt256) (w : World) : Except Error World := do
  onlyOwner owner msg
  revertIf (dest = 0) .zeroAddress
  revertIf (w.balance < amount.toNat) (.insufficientBalance amount w.balance)
  let w := w.emit now msg (.withdrawn dest amount)
  pure { w with balance := w.balance - amount.toNat }

/-- `_extractRecipient`: `offset + 32` is checked, and the word is only read
inside `data`. -/
def extractRecipient (data : Bytes) (offset : UInt256) : Except Error Address := do
  let past ← checkedAdd offset 32
  revertIf (data.length < past.toNat) .calldataTooShortForRecipient
  pure (addressOf (calldataload data offset.toNat))

/-- `24 hours`, in seconds. -/
def day : UInt256 := 86400

/-- `start == 0 || block.timestamp >= start + 24 hours`: the addition is not
evaluated when `start` is zero. -/
def windowElapsed (start : UInt256) : Except Error Bool :=
  if start = 0 then pure true else do
    let windowEnd ← checkedAdd start day
    pure (decide (windowEnd ≤ now.word))

/-- `capWei > spent ? capWei - spent : 0`. -/
def remainingOf (capWei spent : UInt256) : Except Error UInt256 :=
  if capWei > spent then checkedSub capWei spent else pure 0

/-- `_consumeRollingWindow`. -/
def consumeRollingWindow (target : Address) (capWei value : UInt256) (w : World) :
    Except Error World := do
  let expired ← windowElapsed now (w.windowStart target)
  let w := if expired then
    { w with
      windowStart := Function.update w.windowStart target now.word
      windowSpentWei := Function.update w.windowSpentWei target 0 } else w
  let spent := w.windowSpentWei target
  let remaining ← remainingOf capWei spent
  revertIf (remaining < value) (.valueCapExceeded value remaining)
  let total ← checkedAdd spent value
  pure { w with windowSpentWei := Function.update w.windowSpentWei target total }

/-- `executeMint`, up to and with `target.call{value: value}(data)`: the
modifiers `onlyOperator` and `nonReentrant`, the checks, the effects and the
transfer. -/
def executeMint (target : Address) (data : Bytes) (value : UInt256) (w : World) :
    Except Error World := do
  revertIf (msg.sender ≠ w.operator) .notOperator
  revertIf (w.reentrancyStatus = ENTERED) .reentrant
  let w := { w with reentrancyStatus := ENTERED }
  revertIf (data.length < 4) .targetNotAllowlisted
  let selector := selectorOf data
  let entry := w.allowlist target selector
  revertIf (entry.allowed = false) .targetNotAllowlisted
  let recipient ← extractRecipient data entry.recipientOffset
  revertIf (recipient ≠ owner) (.recipientMismatch owner recipient)
  let w ← consumeRollingWindow now target entry.valueCapWei value w
  revertIf (w.balance < value.toNat) (.insufficientBalance value w.balance)
  let w := w.emit now msg (.mintExecuted target selector value recipient)
  pure { w with balance := w.balance - value.toNat }

end Functions

/-! ### The contract as a handler of calls -/

/-- What can happen to the contract: a call of one of its functions, or ether
forced into its balance without a call. -/
inductive Call
  | receive
  | setOperator (newOperator : Address)
  | revokeOperator
  | setAllowlist (target : Address) (selector : Bytes4) (allowed : Bool)
      (recipientOffset valueCapWei : UInt256)
  | withdraw (dest : Address) (amount : UInt256)
  | executeMint (target : Address) (data : Bytes) (value : UInt256)
  | forceEther (amount : ℕ)

/-- The external call a frame of the contract is waiting for. -/
inductive Pending
  | withdraw (dest : Address) (amount : UInt256)
  | mint (target : Address) (data : Bytes) (value : UInt256)
  deriving DecidableEq

abbrev Machine := Rollback.Machine Timestamp World Pending
abbrev Label := Rollback.Label Timestamp (Msg × Call)

/-- A function without `payable` refuses ether before its body runs. -/
def nonPayable (msg : Msg) (body : Except Error World) : Except Error World := do
  revertIf (msg.value ≠ 0) .nonPayable
  body

def settle : Except Error World → Rollback.Outcome World Pending Error
  | .ok w => .settled w
  | .error e => .refused e

def handOut (p : Pending) : Except Error World → Rollback.Outcome World Pending Error
  | .ok w => .outgoing w p
  | .error e => .refused e

/-- The contract deployed by `owner`. -/
def executor (owner : Address) : Rollback.Handler Timestamp (Msg × Call) Pending Error World where
  handle now call w :=
    let msg := call.1
    match call.2 with
    | .receive => .settled (receive now msg w)
    | .setOperator newOperator => settle (nonPayable msg (setOperator owner now msg newOperator w))
    | .revokeOperator => settle (nonPayable msg (revokeOperator owner now msg w))
    | .setAllowlist target selector allowed recipientOffset valueCapWei =>
      settle (nonPayable msg
        (setAllowlist owner now msg target selector allowed recipientOffset valueCapWei w))
    | .withdraw dest amount =>
      handOut (.withdraw dest amount) (nonPayable msg (withdraw owner now msg dest amount w))
    | .executeMint target data value =>
      handOut (.mint target data value)
        (nonPayable msg (executeMint owner now msg target data value w))
    | .forceEther amount => .settled { w with balance := w.balance + amount }
  resume p w :=
    match p with
    | .withdraw _ _ => w
    -- the rest of `nonReentrant`
    | .mint _ _ _ => { w with reentrancyStatus := NOT_ENTERED }

abbrev step (owner : Address) : Machine → Label → Option Machine :=
  Rollback.Machine.step (executor owner)

/-- The machine right after deployment, in the block `t`. -/
def deployed (t : Timestamp) (w : World) : Machine := { now := t, world := w, frames := [] }

/-- Deployed by `owner` and then run by anybody, all steps meeting `φ`. -/
def Run (owner : Address) (φ : Machine → Label → Prop) (m : Machine) : Prop :=
  ∃ t prefunded w, construct owner prefunded = .ok w ∧
    Transition.Reach (step owner) φ (deployed t w) m

/-- Every state that any transactions and any reentrant calls lead to. -/
abbrev Reachable (owner : Address) : Machine → Prop := Run owner fun _ _ => True

/-! ### A deployment to run -/

namespace Sample

def owner : Address := 0xA1
def operator : Address := 0xB2
def target : Address := 0xC3

def fromOwner : Msg := ⟨owner, 0, by decide⟩
def fromOperator : Msg := ⟨operator, 0, by decide⟩

/-- `mint(owner)`, with the recipient right after the selector. -/
def calldata : Bytes := [0x6a, 0x62, 0x78, 0x42] ++ List.replicate 31 0 ++ [0xA1]

/-- Deployed with 100 wei at time 1000. -/
def start : Machine :=
  deployed ⟨1000, by decide⟩
    { operator := 0, allowlist := fun _ _ => {}, windowStart := fun _ => 0,
      windowSpentWei := fun _ => 0, reentrancyStatus := NOT_ENTERED, balance := 100, log := [] }

/-- The owner appoints the operator and allows the mint with a cap of 10 wei. -/
def setup : List Label :=
  [.call (fromOwner, .setOperator operator),
   .call (fromOwner, .setAllowlist target (selectorOf calldata) true 4 10)]

/-- A mint of `value` in the block `t`, whose target call succeeds. -/
def mint (t : Timestamp) (value : UInt256) : List Label :=
  [.advance t, .call (fromOperator, .executeMint target calldata value), .answer true]

theorem run_start {φ : Machine → Label → Prop} {m : Machine}
    (h : Transition.Reach (step owner) φ start m) : Run owner φ m := by
  refine ⟨_, 100, _, ?_, h⟩
  rw [construct, revertIf, if_neg (by decide)]
  rfl

end Sample

end MintExecutor
