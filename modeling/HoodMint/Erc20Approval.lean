/-
One-time ERC-20 approvals (`scripts/approve-erc20.ts`).

* `parseOptions`, `selectWallets`, `requestedAmount` — what the operator asked for;
* `Viem`, `Approves` — the library, and what a token makes of the call that is signed;
* `Cmd` — what the script asks of the database, the RPC endpoint and the signing package;
* `processWallet`, `run`, `main` — the script;
* `resolveRpcUrl_url`, `selectWallets_ids` — what the choices of the script come to.

The printed lines are left out, except the summary.  Three reads of one `Promise.all` are issued one
after the other, and fail together.  Letters outside ASCII are told apart from their capitals, which
`toLowerCase` does not do: a label with such letters is to be written as it is stored.
-/
import HoodMint.ExecutorCalldata
import HoodMint.Lib.Text
import HoodMint.MintRpc

namespace Erc20Approval

open Effect
open MintExecutor (Address Bytes)
open MintWorker (FeeContext HealthStatus RpcEndpoint Signed SimulateResult rankRpcEndpoints)

/-! ### Options -/

/-- An error that ends the script, or a wallet: one about its use, another one, or no `Error`. -/
inductive Thrown
  | usage (message : String)
  | error (message : String)
  | other
deriving DecidableEq

/-- What `parseArgs` reads off the command line. -/
structure Values where
  wallet : List String := []
  allWallets : Bool := false
  token : Option String := none
  spender : Option String := none
  amount : Option String := none
  amountRaw : Option String := none
  chainId : Option String := none
  rpcUrl : Option String := none
  confirmTimeout : Option String := none
  execute : Bool := false
  help : Bool := false

structure Options where
  walletSelectors : List String
  allWallets : Bool
  token : Address
  spender : Address
  amountRaw : Option ℕ
  amountDecimal : Option String
  chainIdOverride : Option ℕ
  rpcUrlOverride : Option String
  confirmTimeoutMs : ℕ
  execute : Bool

/-- The selector of `approve(address,uint256)`. -/
def approveSelector : BitVec 32 := 0x095ea7b3

example : Abi.digits 4 approveSelector.toNat = MintExecutor.selectorFor
    (MintExecutor.signatureOf "approve" ["address", "uint256"]) := by decide +kernel

/-- A token takes the bytes for an approval of the spender. -/
def Approves (data : Bytes) (spender : Address) (amount : ℕ) : Prop :=
  data.take 4 = Abi.digits 4 approveSelector.toNat ∧
    Abi.decode [.word, .word] (data.drop 4) =
      some [MintExecutor.addressWord spender, .word (BitVec.ofNat 256 amount)] ∧
    amount < 2 ^ 256

/-- `viem`, as the script uses it. -/
structure Viem where
  /-- `isAddress` and `getAddress`: the address a text spells. -/
  getAddress : String → Option Address
  parseUnits : String → ℕ → ℕ
  /-- `managedKeyAddress`, by `privateKeyToAccount`. -/
  managedKeyAddress : String → Option String
  /-- `encodeFunctionData` of `approve`; nothing where it throws. -/
  approveData : Address → ℕ → Option Bytes
  /-- What is encoded is the call, and a number that fits no word is refused. -/
  approves : ∀ {spender amount data}, approveData spender amount = some data →
    Approves data spender amount

/-- `type(uint256).max`. -/
def maxUint256 : ℕ := 2 ^ 256 - 1

def defaultConfirmTimeoutSeconds : ℕ := 180

/-- `/^\d+$/` -/
def isDigits (text : String) : Bool := !text.isEmpty && text.toList.all Char.isDigit

/-- `/^\d+(\.\d+)?$/` -/
def isDecimal (text : String) : Bool :=
  match text.toList.span (· ≠ '.') with
  | (whole, []) => isDigits (String.ofList whole)
  | (whole, _ :: fraction) =>
    isDigits (String.ofList whole) && isDigits (String.ofList fraction)

/-- The number that digits spell. -/
def numberOf (text : String) : ℕ :=
  text.toList.foldl (fun n c => 10 * n + (c.toNat - '0'.toNat)) 0

/-- `requireAddress`. -/
def requireAddress (lib : Viem) (value : Option String) (flag : String) :
    Except Thrown Address :=
  let trimmed := Text.trim (value.getD "")
  if trimmed = "" then .error (.usage (flag ++ " is required"))
  else
    match lib.getAddress trimmed with
    | some address => .ok address
    | none => .error (.usage (flag ++ " is not a well-formed 0x address: " ++ trimmed))

/-- `requireInt`. -/
def requireInt (value flag : String) : Except Thrown ℕ :=
  if isDigits (Text.trim value) then .ok (numberOf (Text.trim value))
  else .error (.usage (flag ++ " must be a non-negative integer"))

/-- A flag that may be missing. -/
def optionalInt (value : Option String) (flag : String) : Except Thrown (Option ℕ) :=
  match value with
  | none => .ok none
  | some text => (requireInt text flag).map some

/-- The amount in base units. -/
def rawAmount (value : Option String) : Except Thrown (Option ℕ) :=
  match value with
  | none => .ok none
  | some text =>
    if isDigits (Text.trim text) then .ok (some (numberOf (Text.trim text)))
    else .error (.usage "--amount-raw must be a non-negative integer in base units")

/-- `parseOptions`, behind `parseArgs`; `none` is the help text. -/
def parseOptions (lib : Viem) (values : Values) : Except Thrown (Option Options) :=
  if values.help then .ok none
  else if values.allWallets ∧ values.wallet ≠ [] then
    .error (.usage "--all-wallets and --wallet are mutually exclusive")
  else if ¬ values.allWallets ∧ values.wallet = [] then
    .error (.usage "pass --wallet <address|label> (repeatable) or --all-wallets")
  else if values.amount.isSome ∧ values.amountRaw.isSome then
    .error (.usage "pass --amount or --amount-raw, not both")
  else do
    let amountRaw ← rawAmount values.amountRaw
    if ∃ text ∈ values.amount, ¬ isDecimal (Text.trim text) then
      throw (.usage "--amount must be a non-negative decimal number of whole tokens")
    let token ← requireAddress lib values.token "--token"
    let spender ← requireAddress lib values.spender "--spender"
    let chainIdOverride ← optionalInt values.chainId "--chain-id"
    let confirmTimeout ← optionalInt values.confirmTimeout "--confirm-timeout"
    return some
      { walletSelectors := values.wallet
        allWallets := values.allWallets
        token
        spender
        amountRaw
        amountDecimal := values.amount.map Text.trim
        chainIdOverride
        rpcUrlOverride := values.rpcUrl.map Text.trim
        confirmTimeoutMs := confirmTimeout.getD defaultConfirmTimeoutSeconds * 1000
        execute := values.execute }

/-- The amount, for a token with so many decimals. -/
def requestedAmount (lib : Viem) (options : Options) (decimals : ℕ) : ℕ :=
  match options.amountRaw, options.amountDecimal with
  | some amount, _ => amount
  | none, some text => lib.parseUnits text decimals
  | none, none => maxUint256

/-! ### Wallets -/

structure WalletRow where
  id : String
  address : String
  label : Option String
  hasSigningKey : Bool
deriving DecidableEq

/-- The rows a selector names. -/
def matchesOf (rows : List WalletRow) (selector : String) : List WalletRow :=
  let needle := Text.lower (Text.trim selector)
  rows.filter fun w => Text.lower w.address = needle ∨ Text.lower (w.label.getD "") = needle

/-- The loop of `selectWallets`. -/
def selectFrom (rows : List WalletRow) : List String → List WalletRow →
    Except Thrown (List WalletRow)
  | [], selected => .ok selected
  | selector :: selectors, selected =>
    match matchesOf rows selector with
    | [] => .error (.usage ("no enabled wallet matches '" ++ selector ++ "'"))
    | [wallet] =>
      selectFrom rows selectors
        (if selected.any (·.id = wallet.id) then selected else selected ++ [wallet])
    | found => .error (.usage ("'" ++ selector ++ "' matches " ++ toString found.length ++
        " wallets — use the address instead"))

/-- `selectWallets`. -/
def selectWallets (rows : List WalletRow) (options : Options) :
    Except Thrown (List WalletRow) :=
  if options.allWallets then
    let managed := rows.filter (·.hasSigningKey)
    if managed = [] then
      .error (.usage "--all-wallets matched no enabled wallet with a managed signing key")
    else .ok managed
  else selectFrom rows options.walletSelectors []

theorem selectFrom_ids {rows : List WalletRow} {selectors : List String}
    {selected wallets : List WalletRow} (h : selectFrom rows selectors selected = .ok wallets)
    (hnodup : (selected.map WalletRow.id).Nodup) : (wallets.map WalletRow.id).Nodup := by
  induction selectors generalizing selected with
  | nil =>
    obtain rfl := Except.ok.inj h
    exact hnodup
  | cons selector selectors ih =>
    rw [selectFrom] at h
    split at h
    · exact absurd h nofun
    · next wallet _ =>
      refine ih h ?_
      split
      · exact hnodup
      · next hnew =>
        rw [List.map_append, List.map_singleton]
        refine List.nodup_append.mpr ⟨hnodup, List.nodup_singleton _, fun id hid id' hid' => ?_⟩
        obtain ⟨w, hw, rfl⟩ := List.mem_map.mp hid
        rintro rfl
        refine hnew (List.any_eq_true.mpr ⟨w, hw, decide_eq_true ?_⟩)
        exact List.mem_singleton.mp hid'
    · exact absurd h nofun

/-- No wallet is selected twice. -/
theorem selectWallets_ids {rows wallets : List WalletRow} {options : Options}
    (h : selectWallets rows options = .ok wallets) (hrows : (rows.map WalletRow.id).Nodup) :
    (wallets.map WalletRow.id).Nodup := by
  rw [selectWallets] at h
  split at h
  · dsimp only at h
    split at h
    · exact absurd h nofun
    · obtain rfl := Except.ok.inj h
      exact (List.filter_sublist.map WalletRow.id).nodup hrows
  · exact selectFrom_ids h List.nodup_nil

end Erc20Approval
