/-
Runs of the approval script (`scripts/approve-erc20.ts`), with any answers of the RPC endpoint, the
database and the keys.

* `Cmd` — what the script asks of them;
* `processWallet`, `run`, `main` — the script;
* `Warranted` — what stands behind a key that is opened, a signature, a broadcast and the summary;
* `approvals_warranted` — **in every run nothing is opened, signed, sent or reported without it**;
* `exit_zero` — what an exit code of zero says of each wallet;
* `zero_never_sent` — an approval of zero, by which the script says to revoke, is never sent.
-/
import HoodMint.Erc20Approval
import HoodMint.Lib.Recording

namespace Erc20Approval

open Effect
open MonadExcept (ofExcept)
open MintExecutor (Address Bytes)
open MintWorker (FeeContext HealthStatus RpcEndpoint Signed SimulateResult rankRpcEndpoints)

/-! ### Commands -/

/-- The environment, as far as the script reads it. -/
structure Config where
  robinhoodChainId : ℕ
  rpcUrl : Option String

/-- `Erc20Funding`, without what is only printed. -/
structure Funding where
  balance : ℕ
  allowance : Option ℕ
deriving DecidableEq

/-- `ManagedMintSignRequest`. -/
structure SignRequest where
  chainId : ℕ
  toAddress : Address
  data : Bytes
  valueWei : ℕ
  nonce : ℕ
  maxFeePerGasWei : ℕ
  maxPriorityFeePerGasWei : ℕ
  gas : ℕ
deriving DecidableEq

/-- The status of a mined transaction, as the endpoint writes it. -/
structure RawReceipt where
  status : Option String
deriving DecidableEq

inductive WalletState
  | alreadyApproved | wouldApprove | approved | reverted | unconfirmed | skipped | failed
deriving DecidableEq

structure WalletOutcome where
  wallet : WalletRow
  state : WalletState
  detail : String
  finalAllowance : Option ℕ
deriving DecidableEq

inductive Cmd
  | listRpcEndpoints (chainId : ℕ)
  | getChainId (rpcUrl : String)
  | listWallets
  | decimals (rpcUrl : String) (token : Address)
  | fetchErc20Funding (rpcUrl : String) (token : Address) (owner : String) (spender : Address)
  | fetchNativeBalance (rpcUrl owner : String)
  | fetchFeeContext (rpcUrl owner : String)
  | simulateTransaction (rpcUrl sender : String) (target : Address) (data : Bytes)
  | getWalletSigningKeySealed (walletId : String)
  | openWalletKey (sealed : String)
  | signManagedMintTransaction (request : SignRequest) (privateKeyHex : String)
  | broadcastRawTransaction (rpcUrl rawTx : String)
  | getTransactionReceipt (rpcUrl txHash : String)
  | now
  | sleep (ms : ℕ)
  | summary (outcomes : List WalletOutcome)

abbrev Cmd.Resp : Cmd → Type
  | .listRpcEndpoints _ => List RpcEndpoint
  | .getChainId _ => ℕ
  | .listWallets => List WalletRow
  | .decimals .. => ℕ
  | .fetchErc20Funding .. => Funding
  | .fetchNativeBalance .. => ℕ
  | .fetchFeeContext .. => FeeContext
  | .simulateTransaction .. => SimulateResult
  | .getWalletSigningKeySealed _ => Option String
  | .openWalletKey _ => String
  | .signManagedMintTransaction .. => Signed
  | .broadcastRawTransaction .. => String
  | .getTransactionReceipt .. => Option RawReceipt
  | .now => ℤ
  | .sleep _ => Unit
  | .summary _ => Unit

abbrev signature : Signature := ⟨Cmd, Cmd.Resp⟩

abbrev Script (α : Type) := Prog signature Thrown α

abbrev ask (c : Cmd) : Script c.Resp := Prog.issue (S := signature) c

/-! ### One wallet -/

def receiptPollMs : ℕ := 2000

/-- The loop of `waitForReceipt`.  It sleeps between two polls, so the deadline has passed when
`polls` have been made. -/
def pollReceipt (rpcUrl txHash : String) (deadline : ℤ) : ℕ → Script (Option RawReceipt)
  | 0 => return none
  | polls + 1 => do
    let nowMs ← ask .now
    if nowMs < deadline then
      match ← (ask (.getTransactionReceipt rpcUrl txHash)).attempt with
      | .ok (some receipt) => return some receipt
      | _ =>
        ask (.sleep receiptPollMs)
        pollReceipt rpcUrl txHash deadline polls
    else return none

/-- `waitForReceipt`. -/
def waitForReceipt (rpcUrl txHash : String) (timeoutMs : ℕ) : Script (Option RawReceipt) := do
  let nowMs ← ask .now
  pollReceipt rpcUrl txHash (nowMs + timeoutMs) (timeoutMs / receiptPollMs + 1)

/-- What the wallets of a run have in common. -/
structure Context where
  rpcUrl : String
  chainId : ℕ
  amount : ℕ

/-- The reads before a signature: the native balance, the fees and the simulation. -/
def probe (options : Options) (rpcUrl owner : String) (data : Bytes) :
    Script (FeeContext × SimulateResult) := do
  let balance ← (ask (.fetchNativeBalance rpcUrl owner)).attempt
  let fees ← (ask (.fetchFeeContext rpcUrl owner)).attempt
  let simulation ← (ask (.simulateTransaction rpcUrl owner options.token data)).attempt
  let _ ← ofExcept balance
  let fees ← ofExcept fees
  let simulation ← ofExcept simulation
  return (fees, simulation)

/-- The approval, as it is signed. -/
def signRequest (options : Options) (context : Context) (data : Bytes) (fees : FeeContext)
    (gasEstimate : ℕ) : SignRequest :=
  { chainId := context.chainId
    toAddress := options.token
    data
    valueWei := 0
    nonce := fees.nonce
    maxFeePerGasWei := fees.maxFeePerGasWei
    maxPriorityFeePerGasWei := fees.maxPriorityFeePerGasWei
    gas := gasEstimate * 120 / 100 }

/-- The block that touches the key. -/
def signApproval (lib : Viem) (wallet : WalletRow) (sealed : String) (request : SignRequest) :
    Script Signed := do
  let privateKeyHex ← ask (.openWalletKey sealed)
  match lib.managedKeyAddress privateKeyHex with
  | none => throw (.error "invalid private key")
  | some address =>
    if Text.lower address = Text.lower wallet.address then
      ask (.signManagedMintTransaction request privateKeyHex)
    else throw (.error "address mismatch")

/-- From the broadcast to what is read back. -/
def settle (options : Options) (context : Context) (wallet : WalletRow) (signed : Signed) :
    Script WalletOutcome := do
  let txHash ← ask (.broadcastRawTransaction context.rpcUrl signed.rawTx)
  match ← waitForReceipt context.rpcUrl txHash options.confirmTimeoutMs with
  | none => return ⟨wallet, .unconfirmed, "no receipt within budget (" ++ txHash ++ ")", none⟩
  | some receipt =>
    let after ← ask (.fetchErc20Funding context.rpcUrl options.token wallet.address options.spender)
    let state := if receipt.status = some "0x1" then WalletState.approved else .reverted
    return ⟨wallet, state, txHash, some (after.allowance.getD 0)⟩

/-- The part that only runs with `--execute`. -/
def approve (lib : Viem) (options : Options) (context : Context) (wallet : WalletRow)
    (allowance : ℕ) (request : SignRequest) : Script WalletOutcome :=
  if wallet.hasSigningKey then do
    match ← ask (.getWalletSigningKeySealed wallet.id) with
    | none => return ⟨wallet, .skipped, "no sealed key", some allowance⟩
    | some sealed =>
      match ← (signApproval lib wallet sealed request).attempt with
      | .error _ =>
        return ⟨wallet, .failed,
          "sealed key could not be opened, did not match the wallet address, or failed to sign",
          some allowance⟩
      | .ok signed => settle options context wallet signed
  else return ⟨wallet, .skipped, "no managed signing key", some allowance⟩

/-- `processWallet`. -/
def processWallet (lib : Viem) (options : Options) (context : Context) (wallet : WalletRow) :
    Script WalletOutcome := do
  let funding ←
    ask (.fetchErc20Funding context.rpcUrl options.token wallet.address options.spender)
  let allowance := funding.allowance.getD 0
  if context.amount ≤ allowance then
    return ⟨wallet, .alreadyApproved, "allowance already at or above requested", some allowance⟩
  else
    match lib.approveData options.spender context.amount with
    | none => throw (.error "number is not in safe 256-bit unsigned integer range")
    | some data =>
      match ← probe options context.rpcUrl wallet.address data with
      | (_, .error revertReason) =>
        return ⟨wallet, .failed, "simulation reverted: " ++ revertReason, some allowance⟩
      | (fees, .ok gasEstimate) =>
        if options.execute then
          approve lib options context wallet allowance
            (signRequest options context data fees gasEstimate)
        else return ⟨wallet, .wouldApprove, "dry run", some allowance⟩

/-! ### The script -/

/-- `error.message.slice(0, 300)` -/
def Thrown.detail : Thrown → String
  | .usage message | .error message => Utf16.slice message 300
  | .other => "unknown error"

/-- The loop over the wallets. -/
def processWallets (lib : Viem) (options : Options) (context : Context) :
    List WalletRow → Script (List WalletOutcome)
  | [] => return []
  | wallet :: wallets => do
    let outcome ← tryCatch (processWallet lib options context wallet) fun error =>
      return ⟨wallet, .failed, error.detail, none⟩
    let outcomes ← processWallets lib options context wallets
    return outcome :: outcomes

/-- `resolveRpcUrl`. -/
def resolveRpcUrl (config : Config) (chainId : ℕ) : Script String := do
  let rows ← (ask (.listRpcEndpoints chainId)).attempt
  let endpoints := match rows with
    | .ok endpoints => endpoints
    | .error _ => []
  let best := (rankRpcEndpoints endpoints chainId).find? fun e => e.healthStatus ≠ .down
  let url := ((best.map RpcEndpoint.httpUrl).or config.rpcUrl).getD ""
  if Text.trim url = "" then
    throw (.usage ("no RPC endpoint for chain " ++ toString chainId ++
      ": add one in Admin → RPC endpoints, set RPC_URL, or pass --rpc-url"))
  else return url

/-- The outcomes that make the exit code 1. -/
def WalletState.isBad : WalletState → Bool
  | .failed | .reverted | .unconfirmed => true
  | _ => false

/-- `options.chainIdOverride ?? config.ROBINHOOD_CHAIN_ID` -/
def Options.chainId (options : Options) (config : Config) : ℕ :=
  options.chainIdOverride.getD config.robinhoodChainId

/-- `options.rpcUrlOverride ?? (await resolveRpcUrl(…))` -/
def rpcUrlOf (config : Config) (options : Options) : Script String :=
  match options.rpcUrlOverride with
  | some url => pure url
  | none => resolveRpcUrl config (options.chainId config)

/-- `run`. -/
def run (lib : Viem) (config : Config) (options : Options) : Script ℕ := do
  let rpcUrl ← rpcUrlOf config options
  let liveChainId ← ask (.getChainId rpcUrl)
  if liveChainId ≠ options.chainId config then return 2
  let rows ← ask .listWallets
  let wallets ← ofExcept (selectWallets rows options)
  let decimals ← (ask (.decimals rpcUrl options.token)).attempt
  let amount := requestedAmount lib options (decimals.toOption.getD 18)
  let outcomes ← processWallets lib options ⟨rpcUrl, options.chainId config, amount⟩ wallets
  ask (.summary outcomes)
  return if outcomes.any (·.state.isBad) then 1 else 0

/-- `main`, from the parsed command line to the exit code. -/
def main (lib : Viem) (config : Config) (values : Values) : Script ℕ :=
  match parseOptions lib values with
  | .error _ => return 2
  | .ok none => return 0
  | .ok (some options) =>
    tryCatch (run lib config options) fun
      | .usage _ => return 2
      | _ => return 1

/-! ### What stands behind a step -/

/-- The past, the latest event first. -/
abbrev Events := Past signature Thrown

/-- The ids of the wallets are a primary key. -/
def Possible (c : Cmd) (x : Except Thrown c.Resp) : Prop :=
  match c, x with
  | .listWallets, .ok rows => (rows.map WalletRow.id).Nodup
  | _, _ => True

def Answered (past : Events) (c : Cmd) (x : Except Thrown c.Resp) : Prop :=
  (⟨c, x⟩ : Event signature Thrown) ∈ past

/-- The amount that is asked for, in base units. -/
def Asked (lib : Viem) (options : Options) (past : Events) (rpcUrl : String) (amount : ℕ) :
    Prop :=
  ∃ decimals, Answered past (.decimals rpcUrl options.token) decimals ∧
    amount = requestedAmount lib options (decimals.toOption.getD 18)

/-- The wallet is one of those asked for. -/
def Selected (options : Options) (past : Events) (wallet : WalletRow) : Prop :=
  ∃ rows wallets, Answered past .listWallets (.ok rows) ∧
    selectWallets rows options = .ok wallets ∧ wallet ∈ wallets

/-- What was read before a wallet's approval is signed. -/
structure Due (lib : Viem) (config : Config) (options : Options) (past : Events)
    (wallet : WalletRow) (rpcUrl : String) (request : SignRequest) : Prop where
  executes : options.execute = true
  managed : wallet.hasSigningKey = true
  selected : Selected options past wallet
  chainId_eq : request.chainId = options.chainId config
  chain : Answered past (.getChainId rpcUrl) (.ok request.chainId)
  target_eq : request.toAddress = options.token
  value_eq : request.valueWei = 0
  short : ∃ amount funding, Asked lib options past rpcUrl amount ∧
    Approves request.data options.spender amount ∧
    Answered past (.fetchErc20Funding rpcUrl options.token wallet.address options.spender)
      (.ok funding) ∧
    funding.allowance.getD 0 < amount
  fees : Answered past (.fetchFeeContext rpcUrl wallet.address)
    (.ok ⟨request.nonce, request.maxFeePerGasWei, request.maxPriorityFeePerGasWei⟩)
  gas : ∃ gasEstimate, request.gas = gasEstimate * 120 / 100 ∧
    Answered past (.simulateTransaction rpcUrl wallet.address options.token request.data)
      (.ok (.ok gasEstimate))

/-- The key of the wallet was handed out. -/
def Opened (past : Events) (wallet : WalletRow) : Prop :=
  ∃ sealed, Answered past (.getWalletSigningKeySealed wallet.id) (.ok (some sealed))

/-- The wallet's key was opened, an approval signed with it and sent. -/
def Sent (past : Events) (wallet : WalletRow) (txHash : String) : Prop :=
  ∃ rpcUrl request privateKeyHex sealed signed,
    ([⟨.broadcastRawTransaction rpcUrl signed.rawTx, .ok txHash⟩,
      ⟨.signManagedMintTransaction request privateKeyHex, .ok signed⟩,
      ⟨.openWalletKey sealed, .ok privateKeyHex⟩,
      ⟨.getWalletSigningKeySealed wallet.id, .ok (some sealed)⟩] : Events) <:+: past

/-- The endpoint has answered with a receipt, and said what is approved. -/
def Mined (options : Options) (past : Events) (o : WalletOutcome) (status : Option String) :
    Prop :=
  Sent past o.wallet o.detail ∧ ∃ rpcUrl funding,
    Answered past (.getTransactionReceipt rpcUrl o.detail) (.ok (some ⟨status⟩)) ∧
    Answered past (.fetchErc20Funding rpcUrl options.token o.wallet.address options.spender)
      (.ok funding) ∧
    o.finalAllowance = some (funding.allowance.getD 0)

/-- What an outcome says has happened. -/
def Reported (lib : Viem) (options : Options) (past : Events) (o : WalletOutcome) : Prop :=
  match o.state with
  | .alreadyApproved => ¬ Opened past o.wallet ∧ ∃ rpcUrl amount funding,
      Asked lib options past rpcUrl amount ∧
      Answered past (.fetchErc20Funding rpcUrl options.token o.wallet.address options.spender)
        (.ok funding) ∧
      amount ≤ funding.allowance.getD 0 ∧ o.finalAllowance = some (funding.allowance.getD 0)
  | .wouldApprove => options.execute = false
  | .skipped => ¬ Opened past o.wallet
  | .approved => Mined options past o (some "0x1")
  | .reverted => ∃ status, status ≠ some "0x1" ∧ Mined options past o status
  | .unconfirmed => ∃ txHash, Sent past o.wallet txHash
  | .failed => True

/-- What stands behind a command. -/
def Warranted (lib : Viem) (config : Config) (options : Options) (past : Events) : Cmd → Prop
  | .getWalletSigningKeySealed id =>
    (∀ x, ¬ Answered past (.getWalletSigningKeySealed id) x) ∧
      ∃ wallet rpcUrl request, wallet.id = id ∧
        Due lib config options past wallet rpcUrl request
  | .openWalletKey sealed => ∃ wallet rpcUrl request rest,
      past = ⟨.getWalletSigningKeySealed wallet.id, .ok (some sealed)⟩ :: rest ∧
      Due lib config options rest wallet rpcUrl request
  | .signManagedMintTransaction request privateKeyHex => ∃ wallet rpcUrl sealed address rest,
      past = ⟨.openWalletKey sealed, .ok privateKeyHex⟩ ::
        ⟨.getWalletSigningKeySealed wallet.id, .ok (some sealed)⟩ :: rest ∧
      lib.managedKeyAddress privateKeyHex = some address ∧
      Text.lower address = Text.lower wallet.address ∧
      Due lib config options rest wallet rpcUrl request
  | .broadcastRawTransaction rpcUrl rawTx => ∃ wallet request privateKeyHex sealed signed rest,
      past = ⟨.signManagedMintTransaction request privateKeyHex, .ok signed⟩ ::
        ⟨.openWalletKey sealed, .ok privateKeyHex⟩ ::
        ⟨.getWalletSigningKeySealed wallet.id, .ok (some sealed)⟩ :: rest ∧
      signed.rawTx = rawTx ∧ Due lib config options rest wallet rpcUrl request
  | .summary outcomes => (∃ rows, Answered past .listWallets (.ok rows) ∧
      selectWallets rows options = .ok (outcomes.map WalletOutcome.wallet)) ∧
      ∀ o ∈ outcomes, Reported lib options past o
  | _ => True

/-- Only keys of these wallets are asked for. -/
def Cmd.AsksOnly (ids : List String) : Cmd → Prop
  | .getWalletSigningKeySealed id => id ∈ ids
  | _ => True

/-- Commands that nothing has to stand behind. -/
def Cmd.Reads : Cmd → Prop
  | .getWalletSigningKeySealed _ | .openWalletKey _ | .signManagedMintTransaction ..
  | .broadcastRawTransaction .. | .summary _ => False
  | _ => True

section

variable {lib : Viem} {config : Config} {options : Options} {past later : Events}
  {C : Cmd → Prop} {wallet : WalletRow} {rpcUrl : String} {request : SignRequest}

theorem Answered.since {c : Cmd} {x : Except Thrown c.Resp} (h : Answered past c x)
    (hlater : Past.Since C past later) : Answered later c x :=
  hlater.mem h

theorem Asked.since {amount : ℕ} (h : Asked lib options past rpcUrl amount)
    (hlater : Past.Since C past later) : Asked lib options later rpcUrl amount := by
  obtain ⟨decimals, hdecimals, hamount⟩ := h
  exact ⟨decimals, hdecimals.since hlater, hamount⟩

theorem Selected.since (h : Selected options past wallet) (hlater : Past.Since C past later) :
    Selected options later wallet := by
  obtain ⟨rows, wallets, hrows, hselected⟩ := h
  exact ⟨rows, wallets, hrows.since hlater, hselected⟩

theorem Sent.since {txHash : String} (h : Sent past wallet txHash)
    (hlater : Past.Since C past later) : Sent later wallet txHash := by
  obtain ⟨rpcUrl, request, privateKeyHex, sealed, signed, hinfix⟩ := h
  exact ⟨rpcUrl, request, privateKeyHex, sealed, signed, hinfix.trans hlater.suffix.isInfix⟩

theorem Mined.since {o : WalletOutcome} {status : Option String}
    (h : Mined options past o status) (hlater : Past.Since C past later) :
    Mined options later o status := by
  obtain ⟨hsent, rpcUrl, funding, hreceipt, hfunding, hfinal⟩ := h
  exact ⟨hsent.since hlater, rpcUrl, funding, hreceipt.since hlater, hfunding.since hlater, hfinal⟩

/-- A key that is not asked for is not handed out. -/
theorem not_opened_since {ids : List String} (h : ¬ Opened past wallet)
    (hlater : Past.Since (Cmd.AsksOnly ids) past later) (hid : wallet.id ∉ ids) :
    ¬ Opened later wallet := by
  rintro ⟨sealed, hsealed⟩
  rcases hlater.of_mem hsealed with hsealed | hasks
  · exact h ⟨sealed, hsealed⟩
  · exact hid hasks

/-- An outcome stands while the keys of others are asked for. -/
theorem Reported.since {o : WalletOutcome} {ids : List String} (h : Reported lib options past o)
    (hlater : Past.Since (Cmd.AsksOnly ids) past later) (hid : o.wallet.id ∉ ids) :
    Reported lib options later o := by
  rw [Reported] at h ⊢
  split at h
  · obtain ⟨hopened, rpcUrl, amount, funding, hasked, hfunding, hle, hfinal⟩ := h
    exact ⟨not_opened_since hopened hlater hid, rpcUrl, amount, funding, hasked.since hlater,
      hfunding.since hlater, hle, hfinal⟩
  · exact h
  · exact not_opened_since h hlater hid
  · exact h.since hlater
  · obtain ⟨status, hstatus, hmined⟩ := h
    exact ⟨status, hstatus, hmined.since hlater⟩
  · obtain ⟨txHash, hsent⟩ := h
    exact ⟨txHash, hsent.since hlater⟩
  · trivial

theorem Cmd.Reads.asksOnly (ids : List String) (c : Cmd) (h : c.Reads) : c.AsksOnly ids := by
  cases c <;> first | exact trivial | exact h.elim

end

/-! ### One wallet -/

section

variable {lib : Viem} {config : Config} {options : Options} {context : Context}
  {wallet : WalletRow} {request : SignRequest} {past rest : Events} {rpcUrl sealed txHash : String}

/-- The run is remembered, and each command judged by it. -/
abbrev watch (lib : Viem) (config : Config) (options : Options) :
    Monitor signature Thrown Events :=
  Monitor.recording Possible (Warranted lib config options)

/-- What polling for a receipt ends with. -/
def Polled (past : Events) (rpcUrl txHash : String) (r : Except Thrown (Option RawReceipt))
    (past' : Events) : Prop :=
  Past.Since Cmd.Reads past past' ∧ ∀ receipt, r = .ok (some receipt) →
    Answered past' (.getTransactionReceipt rpcUrl txHash) (.ok (some receipt))

theorem Polled.since {past₀ : Events} {r : Except Thrown (Option RawReceipt)} {past' : Events}
    (h : Polled past rpcUrl txHash r past') (hbefore : Past.Since Cmd.Reads past₀ past) :
    Polled past₀ rpcUrl txHash r past' :=
  ⟨hbefore.trans h.1, h.2⟩

theorem pollReceipt_wp (deadline : ℤ) (polls : ℕ) :
    (pollReceipt rpcUrl txHash deadline polls).wp (watch lib config options)
      (Polled past rpcUrl txHash) past := by
  induction polls generalizing past with
  | zero => exact ⟨Past.Since.refl _ _, fun _ h => by cases h⟩
  | succ polls ih =>
    have hnow : ∀ x, Past.Since Cmd.Reads past (⟨.now, x⟩ :: past) := fun _ =>
      (Past.Since.refl _ _).cons _ trivial
    refine Prog.wp_issue_bind trivial (fun nowMs _ => ?_) fun _ _ => (hnow _).failed
    have hanswer : ∀ x, Past.Since Cmd.Reads past
        (⟨.getTransactionReceipt rpcUrl txHash, x⟩ :: ⟨.now, .ok nowMs⟩ :: past) := fun _ =>
      (hnow _).cons _ trivial
    refine Prog.wp_ite (fun _ => ?_) fun _ => ⟨hnow _, fun _ h => by cases h⟩
    refine Prog.wp_bind.mpr (Prog.wp_attempt.mpr (Prog.wp_issue.mpr ⟨trivial, ?_⟩))
    -- without a receipt it sleeps, and polls again
    have hagain : ∀ answer, ((do
        ask (.sleep receiptPollMs)
        pollReceipt rpcUrl txHash deadline polls) : Script (Option RawReceipt)).wp
          (watch lib config options) (Polled past rpcUrl txHash)
          (⟨.getTransactionReceipt rpcUrl txHash, answer⟩ :: ⟨.now, .ok nowMs⟩ :: past) := by
      intro answer
      have hslept : ∀ x, Past.Since Cmd.Reads past (⟨.sleep receiptPollMs, x⟩ ::
          ⟨.getTransactionReceipt rpcUrl txHash, answer⟩ :: ⟨.now, .ok nowMs⟩ :: past) :=
        fun _ => (hanswer _).cons _ trivial
      refine Prog.wp_issue_bind trivial (fun _ _ => ?_) fun _ _ => (hslept _).failed
      exact Prog.wp_mono ih fun _ _ h => h.since (hslept _)
    rintro (e | _ | receipt) _
    · exact hagain _
    · exact hagain _
    · refine ⟨hanswer _, ?_⟩
      rintro _ ⟨⟩
      exact List.mem_cons_self

theorem waitForReceipt_wp (timeoutMs : ℕ) :
    (waitForReceipt rpcUrl txHash timeoutMs).wp (watch lib config options)
      (Polled past rpcUrl txHash) past := by
  have hnow : ∀ x, Past.Since Cmd.Reads past (⟨.now, x⟩ :: past) := fun _ =>
    (Past.Since.refl _ _).cons _ trivial
  refine Prog.wp_issue_bind trivial (fun _ _ => ?_) fun _ _ => (hnow _).failed
  exact Prog.wp_mono (pollReceipt_wp _ _) fun _ _ h => h.since (hnow _)

theorem probe_wp {data : Bytes} {owner : String} :
    (probe options rpcUrl owner data).wp (watch lib config options) (fun r past' =>
      Past.Since Cmd.Reads past past' ∧ ∀ fees simulation, r = .ok (fees, simulation) →
        Answered past' (.fetchFeeContext rpcUrl owner) (.ok fees) ∧
        Answered past' (.simulateTransaction rpcUrl owner options.token data) (.ok simulation))
      past := by
  refine Prog.wp_bind.mpr (Prog.wp_attempt.mpr (Prog.wp_issue.mpr ⟨trivial, fun balance _ => ?_⟩))
  refine Prog.wp_bind.mpr (Prog.wp_attempt.mpr (Prog.wp_issue.mpr ⟨trivial, fun fees _ => ?_⟩))
  refine Prog.wp_bind.mpr
    (Prog.wp_attempt.mpr (Prog.wp_issue.mpr ⟨trivial, fun simulation _ => ?_⟩))
  have hsince : Past.Since Cmd.Reads past
      (⟨.simulateTransaction rpcUrl owner options.token data, simulation⟩ ::
        ⟨.fetchFeeContext rpcUrl owner, fees⟩ :: ⟨.fetchNativeBalance rpcUrl owner, balance⟩ ::
        past) :=
    (((Past.Since.refl _ _).cons _ trivial).cons _ trivial).cons _ trivial
  cases balance with
  | error => exact ⟨hsince, fun _ _ h => by cases h⟩
  | ok balance =>
    cases fees with
    | error => exact ⟨hsince, fun _ _ h => by cases h⟩
    | ok fees =>
      cases simulation with
      | error => exact ⟨hsince, fun _ _ h => by cases h⟩
      | ok simulation =>
        refine ⟨hsince, ?_⟩
        rintro _ _ ⟨⟩
        exact ⟨List.mem_cons_of_mem _ List.mem_cons_self, List.mem_cons_self⟩

/-- A wallet has been dealt with: no other key was asked for, and the outcome says what happened. -/
def Handled (lib : Viem) (options : Options) (wallet : WalletRow) (past : Events)
    (r : Except Thrown WalletOutcome) (past' : Events) : Prop :=
  Past.Since (Cmd.AsksOnly [wallet.id]) past past' ∧ ∀ o, r = .ok o →
    o.wallet = wallet ∧ Reported lib options past' o

/-- Nobody has asked for the key of the wallet. -/
def Untouched (past : Events) (wallet : WalletRow) : Prop :=
  ∀ x, ¬ Answered past (.getWalletSigningKeySealed wallet.id) x

theorem Untouched.since {later : Events} (h : Untouched past wallet)
    (hlater : Past.Since Cmd.Reads past later) : Untouched later wallet :=
  fun x hx => (hlater.of_mem hx).elim (h x) id

theorem Untouched.not_opened (h : Untouched past wallet) : ¬ Opened past wallet :=
  fun ⟨_, hsealed⟩ => h _ hsealed

theorem settle_wp {signed : Signed} {privateKeyHex : String}
    (hpast : past = ⟨.signManagedMintTransaction request privateKeyHex, .ok signed⟩ ::
      ⟨.openWalletKey sealed, .ok privateKeyHex⟩ ::
      ⟨.getWalletSigningKeySealed wallet.id, .ok (some sealed)⟩ :: rest)
    (hdue : Due lib config options rest wallet context.rpcUrl request) :
    (settle options context wallet signed).wp (watch lib config options)
      (Handled lib options wallet past) past := by
  have hread : ∀ {later}, Past.Since Cmd.Reads past later →
      Past.Since (Cmd.AsksOnly [wallet.id]) past later :=
    fun h => h.mono (Cmd.Reads.asksOnly _)
  have hbroadcast : ∀ x, Past.Since (Cmd.AsksOnly [wallet.id]) past
      (⟨.broadcastRawTransaction context.rpcUrl signed.rawTx, x⟩ :: past) := fun _ =>
    (Past.Since.refl _ _).cons _ trivial
  refine Prog.wp_issue_bind ⟨wallet, request, privateKeyHex, sealed, signed, rest, hpast, rfl, hdue⟩
    (fun txHash _ => ?_) fun _ _ => (hbroadcast _).failed
  have hsent : Sent (⟨.broadcastRawTransaction context.rpcUrl signed.rawTx, .ok txHash⟩ :: past)
      wallet txHash := by
    refine ⟨context.rpcUrl, request, privateKeyHex, sealed, signed, ?_⟩
    rw [hpast]
    exact (List.prefix_append _ rest).isInfix
  refine Prog.wp_bind_of (waitForReceipt_wp _) ?_ fun _ _ h =>
    ((hbroadcast _).trans (h.1.mono (Cmd.Reads.asksOnly _))).failed
  rintro (_ | receipt) past₁ ⟨hsince, hreceipt⟩
  · refine ⟨(hbroadcast _).trans (hsince.mono (Cmd.Reads.asksOnly _)), ?_⟩
    rintro _ ⟨⟩
    exact ⟨rfl, txHash, hsent.since hsince⟩
  · have hreceipt := hreceipt receipt rfl
    have hafter : ∀ x, Past.Since (Cmd.AsksOnly [wallet.id]) past₁
        (⟨.fetchErc20Funding context.rpcUrl options.token wallet.address options.spender, x⟩ ::
          past₁) := fun _ => (Past.Since.refl _ _).cons _ trivial
    have hall : ∀ x, _ := fun x =>
      ((hbroadcast _).trans (hsince.mono (Cmd.Reads.asksOnly _))).trans (hafter x)
    refine Prog.wp_issue_bind trivial (fun funding _ => ?_) fun _ _ => (hall _).failed
    refine ⟨hall _, ?_⟩
    rintro _ ⟨⟩
    refine ⟨rfl, ?_⟩
    have hmined : ∀ state, Mined options
        (⟨.fetchErc20Funding context.rpcUrl options.token wallet.address options.spender,
          .ok funding⟩ :: past₁)
        ⟨wallet, state, txHash, some (funding.allowance.getD 0)⟩ receipt.status := fun _ =>
      ⟨(hsent.since hsince).since (hafter _), context.rpcUrl, funding,
        hreceipt.since (hafter _), List.mem_cons_self, rfl⟩
    by_cases hstatus : receipt.status = some "0x1"
    · have happroved := hmined .approved
      rw [hstatus] at happroved
      rw [if_pos hstatus]
      exact happroved
    · rw [if_neg hstatus]
      exact ⟨receipt.status, hstatus, hmined _⟩

theorem signApproval_wp
    (hpast : past = ⟨.getWalletSigningKeySealed wallet.id, .ok (some sealed)⟩ :: rest)
    (hdue : Due lib config options rest wallet rpcUrl request) :
    (signApproval lib wallet sealed request).wp (watch lib config options) (fun r past' =>
      Past.Since (Cmd.AsksOnly []) past past' ∧ ∀ signed, r = .ok signed → ∃ privateKeyHex,
        past' = ⟨.signManagedMintTransaction request privateKeyHex, .ok signed⟩ ::
          ⟨.openWalletKey sealed, .ok privateKeyHex⟩ :: past) past := by
  have hopen : ∀ x, Past.Since (Cmd.AsksOnly []) past (⟨.openWalletKey sealed, x⟩ :: past) :=
    fun _ => (Past.Since.refl _ _).cons _ trivial
  refine Prog.wp_issue_bind ⟨wallet, rpcUrl, request, rest, hpast, hdue⟩
    (fun privateKeyHex _ => ?_) fun _ _ => (hopen _).failed
  cases haddress : lib.managedKeyAddress privateKeyHex with
  | none => exact (hopen _).failed
  | some address =>
    refine Prog.wp_ite (fun hmatch => ?_) fun _ => (hopen _).failed
    refine Prog.wp_issue.mpr ⟨⟨wallet, rpcUrl, sealed, address, rest,
      congrArg (List.cons _) hpast, haddress, hmatch, hdue⟩, ?_⟩
    rintro (e | signed) _
    · exact Past.Since.failed ((hopen _).cons _ trivial)
    · refine ⟨(hopen _).cons _ trivial, ?_⟩
      rintro _ ⟨⟩
      exact ⟨privateKeyHex, rfl⟩

theorem approve_wp {allowance : ℕ} (hnew : Untouched past wallet)
    (hdue : wallet.hasSigningKey = true →
      Due lib config options past wallet context.rpcUrl request) :
    (approve lib options context wallet allowance request).wp (watch lib config options)
      (Handled lib options wallet past) past := by
  have hasked : ∀ x, Past.Since (Cmd.AsksOnly [wallet.id]) past
      (⟨.getWalletSigningKeySealed wallet.id, x⟩ :: past) := fun _ =>
    (Past.Since.refl _ _).cons _ List.mem_cons_self
  rw [approve]
  refine Prog.wp_ite (fun hmanaged => ?_) fun _ => ?_
  · have hdue := hdue hmanaged
    refine Prog.wp_issue_bind ⟨hnew, wallet, context.rpcUrl, request, rfl, hdue⟩ ?_ fun _ _ =>
      (hasked _).failed
    rintro (_ | sealed) _
    · refine ⟨hasked _, ?_⟩
      rintro _ ⟨⟩
      refine ⟨rfl, ?_⟩
      rintro ⟨sealed, hsealed⟩
      rcases List.mem_cons.mp hsealed with heq | hsealed
      · cases heq
      · exact hnew _ hsealed
    · refine Prog.wp_bind.mpr (Prog.wp_attempt.mpr (Prog.wp_mono (signApproval_wp rfl hdue) ?_))
      rintro (e | signed) past₁ ⟨hsince, hsigned⟩
      · refine ⟨(hasked _).trans (hsince.mono fun c hc => ?_), ?_⟩
        · cases c <;> first | exact trivial | exact absurd hc List.not_mem_nil
        · rintro _ ⟨⟩
          exact ⟨rfl, trivial⟩
      · obtain ⟨privateKeyHex, rfl⟩ := hsigned signed rfl
        have hopened : Past.Since (Cmd.AsksOnly [wallet.id]) past
            (⟨.openWalletKey sealed, .ok privateKeyHex⟩ ::
              ⟨.getWalletSigningKeySealed wallet.id, .ok (some sealed)⟩ :: past) :=
          (hasked _).cons _ trivial
        have hsigned : Past.Since (Cmd.AsksOnly [wallet.id]) past
            (⟨.signManagedMintTransaction request privateKeyHex, .ok signed⟩ ::
              ⟨.openWalletKey sealed, .ok privateKeyHex⟩ ::
              ⟨.getWalletSigningKeySealed wallet.id, .ok (some sealed)⟩ :: past) :=
          hopened.cons _ trivial
        exact Prog.wp_mono (settle_wp rfl hdue) fun _ _ h => ⟨hsigned.trans h.1, h.2⟩
  · refine ⟨Past.Since.refl _ _, ?_⟩
    rintro _ ⟨⟩
    exact ⟨rfl, hnew.not_opened⟩

/-- The endpoint has named its chain, and the amount is known. -/
structure Ready (lib : Viem) (config : Config) (options : Options) (past : Events)
    (context : Context) : Prop where
  chainId_eq : context.chainId = options.chainId config
  chain : Answered past (.getChainId context.rpcUrl) (.ok context.chainId)
  asked : Asked lib options past context.rpcUrl context.amount

theorem Ready.since {later : Events} {C : Cmd → Prop}
    (h : Ready lib config options past context) (hlater : Past.Since C past later) :
    Ready lib config options later context :=
  ⟨h.chainId_eq, h.chain.since hlater, h.asked.since hlater⟩

theorem processWallet_wp (hready : Ready lib config options past context)
    (hselected : Selected options past wallet) (hnew : Untouched past wallet) :
    (processWallet lib options context wallet).wp (watch lib config options)
      (Handled lib options wallet past) past := by
  have hread : ∀ x, Past.Since Cmd.Reads past
      (⟨.fetchErc20Funding context.rpcUrl options.token wallet.address options.spender, x⟩ ::
        past) := fun _ => (Past.Since.refl _ _).cons _ trivial
  refine Prog.wp_issue_bind trivial (fun funding _ => ?_) fun _ _ =>
    ((hread _).mono (Cmd.Reads.asksOnly _)).failed
  refine Prog.wp_ite (fun hle => ?_) fun hlt => ?_
  · refine ⟨(hread _).mono (Cmd.Reads.asksOnly _), ?_⟩
    rintro _ ⟨⟩
    exact ⟨rfl, (hnew.since (hread _)).not_opened, context.rpcUrl, context.amount, funding,
      hready.asked.since (hread _), List.mem_cons_self, hle, rfl⟩
  · cases hdata : lib.approveData options.spender context.amount with
    | none => exact ((hread _).mono (Cmd.Reads.asksOnly _)).failed
    | some data =>
      refine Prog.wp_bind_of probe_wp ?_ fun _ _ h =>
        (((hread _).trans h.1).mono (Cmd.Reads.asksOnly _)).failed
      rintro ⟨fees, revertReason | gasEstimate⟩ past₁ ⟨hprobe, hanswers⟩
      · refine ⟨((hread _).trans hprobe).mono (Cmd.Reads.asksOnly _), ?_⟩
        rintro _ ⟨⟩
        exact ⟨rfl, trivial⟩
      · have hsince := (hread (.ok funding)).trans hprobe
        obtain ⟨hfees, hgas⟩ := hanswers fees (.ok gasEstimate) rfl
        refine Prog.wp_ite (fun hexecute => ?_) fun hdry => ?_
        · refine Prog.wp_mono (approve_wp (hnew.since hsince) fun hmanaged =>
            { executes := hexecute
              managed := hmanaged
              selected := hselected.since hsince
              chainId_eq := hready.chainId_eq
              chain := hready.chain.since hsince
              target_eq := rfl
              value_eq := rfl
              short := ⟨context.amount, funding, hready.asked.since hsince,
                lib.approves hdata, hprobe.mem List.mem_cons_self,
                Nat.lt_of_not_le hlt⟩
              fees := hfees
              gas := ⟨gasEstimate, rfl, hgas⟩ }) fun r past₂ h => ?_
          exact ⟨(hsince.mono (Cmd.Reads.asksOnly _)).trans h.1, h.2⟩
        · refine ⟨hsince.mono (Cmd.Reads.asksOnly _), ?_⟩
          rintro _ ⟨⟩
          exact ⟨rfl, eq_false_of_ne_true hdry⟩

theorem Cmd.AsksOnly.mono {ids ids' : List String} (hids : ids ⊆ ids') (c : Cmd)
    (h : c.AsksOnly ids) : c.AsksOnly ids' := by
  cases c <;> first | exact trivial | exact hids h

/-- What has been done for a list of wallets. -/
def AllHandled (lib : Viem) (options : Options) (wallets : List WalletRow) (past : Events)
    (r : Except Thrown (List WalletOutcome)) (past' : Events) : Prop :=
  Past.Since (Cmd.AsksOnly (wallets.map WalletRow.id)) past past' ∧ ∀ outcomes, r = .ok outcomes →
    outcomes.map WalletOutcome.wallet = wallets ∧ ∀ o ∈ outcomes, Reported lib options past' o

/-- A wallet that fails is dealt with too. -/
theorem attemptWallet_wp (hready : Ready lib config options past context)
    (hselected : Selected options past wallet) (hnew : Untouched past wallet) :
    (tryCatch (processWallet lib options context wallet) fun error =>
      return ⟨wallet, .failed, error.detail, none⟩).wp (watch lib config options)
      (Handled lib options wallet past) past := by
  refine Prog.wp_tryCatch_of (processWallet_wp hready hselected hnew) (fun _ _ h => h)
    fun e past' h => ⟨h.1, ?_⟩
  rintro _ ⟨⟩
  exact ⟨rfl, trivial⟩

theorem processWallets_wp {wallets : List WalletRow}
    (hready : Ready lib config options past context)
    (hselected : ∀ w ∈ wallets, Selected options past w)
    (hnodup : (wallets.map WalletRow.id).Nodup) (hnew : ∀ w ∈ wallets, Untouched past w) :
    (processWallets lib options context wallets).wp (watch lib config options)
      (AllHandled lib options wallets past) past := by
  induction wallets generalizing past with
  | nil =>
    refine ⟨Past.Since.refl _ _, ?_⟩
    rintro _ ⟨⟩
    exact ⟨rfl, fun _ ho => absurd ho List.not_mem_nil⟩
  | cons wallet wallets ih =>
    obtain ⟨hid, hids⟩ := List.nodup_cons.mp hnodup
    have hfirst : [wallet.id] ⊆ (wallet :: wallets).map WalletRow.id :=
      List.cons_subset.mpr ⟨List.mem_cons_self, List.nil_subset _⟩
    have hrest : wallets.map WalletRow.id ⊆ (wallet :: wallets).map WalletRow.id :=
      List.subset_cons_self _ _
    refine Prog.wp_bind_of (attemptWallet_wp hready (hselected wallet List.mem_cons_self)
      (hnew wallet List.mem_cons_self)) ?_ fun _ _ h =>
        (h.1.mono (Cmd.AsksOnly.mono hfirst)).failed
    rintro outcome past₁ ⟨hsince, houtcome⟩
    obtain ⟨rfl, hreported⟩ := houtcome outcome rfl
    -- the keys of the others have not been asked for
    have hnew₁ : ∀ w ∈ wallets, Untouched past₁ w := by
      intro w hw x hx
      rcases hsince.of_mem hx with hx | hasks
      · exact hnew w (List.mem_cons_of_mem _ hw) x hx
      · obtain hw' : w.id = outcome.wallet.id := List.mem_singleton.mp hasks
        exact hid (hw' ▸ List.mem_map_of_mem hw)
    refine Prog.wp_bind_of (ih (hready.since hsince)
      (fun w hw => (hselected w (List.mem_cons_of_mem _ hw)).since hsince) hids hnew₁) ?_
      fun _ _ h => ((hsince.mono (Cmd.AsksOnly.mono hfirst)).trans
        (h.1.mono (Cmd.AsksOnly.mono hrest))).failed
    rintro outcomes past₂ ⟨hsince₂, houtcomes⟩
    obtain ⟨hwallets, hall⟩ := houtcomes outcomes rfl
    refine ⟨(hsince.mono (Cmd.AsksOnly.mono hfirst)).trans
      (hsince₂.mono (Cmd.AsksOnly.mono hrest)), ?_⟩
    rintro _ ⟨⟩
    refine ⟨by rw [List.map_cons, hwallets], List.forall_mem_cons.mpr ⟨?_, hall⟩⟩
    exact hreported.since hsince₂ hid

/-! ### The run -/

/-- The end of a run: an exit code of zero follows a summary in which nothing is wrong. -/
def Exits (lib : Viem) (config : Config) (options : Options) (r : Except Thrown ℕ)
    (past : Events) : Prop :=
  r = .ok 0 → ∃ outcomes rest, past = ⟨.summary outcomes, .ok ()⟩ :: rest ∧
    Warranted lib config options rest (.summary outcomes) ∧
    ∀ o ∈ outcomes, o.state.isBad = false

theorem resolveRpcUrl_wp {chainId : ℕ} :
    (resolveRpcUrl config chainId).wp (watch lib config options)
      (fun _ past' => Past.Since Cmd.Reads past past') past := by
  refine Prog.wp_bind.mpr (Prog.wp_attempt.mpr (Prog.wp_issue.mpr ⟨trivial, fun rows _ => ?_⟩))
  have hrows : Past.Since Cmd.Reads past (⟨.listRpcEndpoints chainId, rows⟩ :: past) :=
    (Past.Since.refl _ _).cons _ trivial
  exact Prog.wp_ite (fun _ => hrows) fun _ => hrows

theorem run_wp : (run lib config options).wp (watch lib config options)
    (Exits lib config options) [] := by
  have hurl : (rpcUrlOf config options).wp (watch lib config options)
      (fun _ past' => Past.Since Cmd.Reads [] past') [] := by
    rw [rpcUrlOf]
    split
    · exact Past.Since.refl _ _
    · exact resolveRpcUrl_wp
  refine Prog.wp_bind_of hurl (fun rpcUrl past₁ hsince₁ => ?_) fun _ _ _ h => by cases h
  refine Prog.wp_issue_bind trivial (fun liveChainId _ => ?_) fun _ _ h => by cases h
  refine Prog.wp_ite (fun _ h => by cases h) fun hlive => ?_
  obtain rfl : liveChainId = options.chainId config := not_not.mp hlive
  refine Prog.wp_issue_bind trivial (fun rows hrows => ?_) fun _ _ h => by cases h
  cases hwallets : selectWallets rows options with
  | error e => exact fun h => by cases h
  | ok wallets =>
    refine Prog.wp_bind.mpr ?_
    show ((ask (.decimals rpcUrl options.token)).attempt >>= _ : Script ℕ).wp _ _ _
    refine Prog.wp_bind.mpr (Prog.wp_attempt.mpr (Prog.wp_issue.mpr ⟨trivial, fun answer _ => ?_⟩))
    -- what the walk over the wallets may rely on
    have hready : Ready lib config options
        (⟨.decimals rpcUrl options.token, answer⟩ :: ⟨.listWallets, .ok rows⟩ ::
          ⟨.getChainId rpcUrl, .ok (options.chainId config)⟩ :: past₁)
        ⟨rpcUrl, options.chainId config,
          requestedAmount lib options (answer.toOption.getD 18)⟩ :=
      ⟨rfl, List.mem_cons_of_mem _ (List.mem_cons_of_mem _ List.mem_cons_self),
        answer, List.mem_cons_self, rfl⟩
    have hlisted : Answered (⟨.decimals rpcUrl options.token, answer⟩ ::
        ⟨.listWallets, .ok rows⟩ :: ⟨.getChainId rpcUrl, .ok (options.chainId config)⟩ :: past₁)
        .listWallets (.ok rows) := List.mem_cons_of_mem _ List.mem_cons_self
    have hnew : ∀ w ∈ wallets, Untouched (⟨.decimals rpcUrl options.token, answer⟩ ::
        ⟨.listWallets, .ok rows⟩ :: ⟨.getChainId rpcUrl, .ok (options.chainId config)⟩ :: past₁)
        w := by
      intro w _
      have hnil : Untouched [] w := fun _ h => absurd h List.not_mem_nil
      have hlive : Past.Since Cmd.Reads ([] : Events)
          (⟨.getChainId rpcUrl, .ok (options.chainId config)⟩ :: past₁) :=
        hsince₁.cons _ trivial
      have hread : Past.Since Cmd.Reads ([] : Events) (⟨.listWallets, .ok rows⟩ ::
          ⟨.getChainId rpcUrl, .ok (options.chainId config)⟩ :: past₁) :=
        hlive.cons _ trivial
      exact hnil.since (hread.cons _ trivial)
    refine Prog.wp_bind_of (processWallets_wp hready (fun w hw => ⟨rows, wallets, hlisted,
      hwallets, hw⟩) (selectWallets_ids hwallets hrows) hnew) ?_ fun _ _ _ h => by cases h
    rintro outcomes past₂ ⟨hsince₂, houtcomes⟩
    obtain ⟨hmap, hreported⟩ := houtcomes outcomes rfl
    have hwarranted : Warranted lib config options past₂ (.summary outcomes) :=
      ⟨⟨rows, hlisted.since hsince₂, hmap ▸ hwallets⟩, hreported⟩
    refine Prog.wp_issue_bind hwarranted (fun _ _ hzero => ?_) fun _ _ h => by cases h
    refine ⟨outcomes, past₂, rfl, hwarranted, fun o ho => ?_⟩
    -- zero is returned only where no outcome is bad
    by_contra hbad
    have hany : outcomes.any (·.state.isBad) = true :=
      List.any_eq_true.mpr ⟨o, ho, eq_true_of_ne_false hbad⟩
    rw [hany] at hzero
    cases hzero

theorem main_wp {values : Values} (hoptions : parseOptions lib values = .ok (some options)) :
    (main lib config values).wp (watch lib config options) (Exits lib config options) [] := by
  rw [main, hoptions]
  refine Prog.wp_tryCatch_of run_wp (fun _ _ h => h) fun e _ _ => ?_
  cases e <;> exact fun h => by cases h

/-- Every command of a run is warranted, and what a code of zero means. -/
theorem warranted_of_runs {values : Values} {tr : List (Event signature Thrown)}
    {en : Ending signature Thrown ℕ}
    (hoptions : parseOptions lib values = .ok (some options))
    (hr : (main lib config values).Runs tr en) (ha : ∀ e ∈ tr, Possible e.cmd e.answer) :
    (∀ before e later, tr = before ++ e :: later →
      Warranted lib config options before.reverse e.cmd) ∧
    (∀ c ∈ en.lost?, Warranted lib config options tr.reverse c) ∧
    ∀ r, en = .finished r → Exits lib config options r tr.reverse :=
  Prog.recording_of_runs (main_wp hoptions) hr ha

/-- **Nothing is opened, signed, sent or reported without a warrant**: whatever the endpoint, the
database and the keys answer and wherever the run breaks off, an approval is signed only with
`--execute`, for a wallet that was asked for, with that wallet's own key, which is opened once; on
the chain the endpoint has named, for the token, the spender and the amount asked for, when the
token has said that less is approved and the call has been simulated; what is sent is what was
signed last; and the summary says of each wallet what has happened. -/
theorem approvals_warranted {values : Values} {tr : List (Event signature Thrown)}
    {en : Ending signature Thrown ℕ}
    (hoptions : parseOptions lib values = .ok (some options))
    (hr : (main lib config values).Runs tr en) (ha : ∀ e ∈ tr, Possible e.cmd e.answer) :
    (∀ before e later, tr = before ++ e :: later →
      Warranted lib config options before.reverse e.cmd) ∧
    ∀ c ∈ en.lost?, Warranted lib config options tr.reverse c := by
  obtain ⟨hevents, hlost, -⟩ := warranted_of_runs hoptions hr ha
  exact ⟨hevents, hlost⟩

namespace Sample

/-- The contract ABI. -/
def approveData (spender : Address) (amount : ℕ) : Option Bytes :=
  if amount < 2 ^ 256 then
    some (Abi.digits 4 approveSelector.toNat ++
      Abi.encode [MintExecutor.addressWord spender, .word (BitVec.ofNat 256 amount)])
  else none

theorem approves_approveData {spender : Address} {amount : ℕ} {data : Bytes}
    (h : approveData spender amount = some data) : Approves data spender amount := by
  rw [approveData] at h
  split at h
  · next hfits =>
    obtain rfl := Option.some_inj.mp h
    refine ⟨List.take_left' (Abi.length_digits _ _), ?_, hfits⟩
    rw [List.drop_left' (Abi.length_digits _ _)]
    have hdecode := Abi.decode_encode
      [MintExecutor.addressWord spender, .word (BitVec.ofNat 256 amount)] [] (by
        rw [Abi.length_encode]
        show 32 * 2 + 0 < 256 ^ 32
        decide)
    rwa [List.append_nil] at hdecode
  · exact absurd h nofun

/-- Two addresses are known, and one key. -/
def viem : Viem where
  getAddress text := if text = "0xusdg" then some 1 else if text = "0xmint" then some 2 else none
  parseUnits _ _ := 0
  managedKeyAddress key := if key = "key" then some "0xAB" else none
  approveData := approveData
  approves := approves_approveData

def environment : Config := ⟨4663, some "https://rpc"⟩

/-- `--all-wallets --execute --amount-raw`, with an amount. -/
def arguments (amountRaw : String) : Values :=
  { allWallets := true, token := some "0xusdg", spender := some "0xmint"
    amountRaw := some amountRaw, execute := true }

def requested (amountRaw : ℕ) : Options :=
  ⟨[], true, 1, 2, some amountRaw, none, none, none, 180000, true⟩

/-- Nothing is approved, and what is sent is mined. -/
def answering : (c : Cmd) → Except Thrown c.Resp
  | .listRpcEndpoints _ => .ok []
  | .getChainId _ => .ok (4663 : ℕ)
  | .listWallets => .ok [⟨"w1", "0xab", none, true⟩]
  | .decimals .. => .ok (6 : ℕ)
  | .fetchErc20Funding .. => .ok ⟨0, some 0⟩
  | .fetchNativeBalance .. => .ok (1 : ℕ)
  | .fetchFeeContext .. => .ok ⟨7, 2, 1⟩
  | .simulateTransaction .. => .ok (.ok (50000 : ℕ))
  | .getWalletSigningKeySealed _ => .ok (some "sealed")
  | .openWalletKey _ => .ok "key"
  | .signManagedMintTransaction .. => .ok ⟨"raw", "hash"⟩
  | .broadcastRawTransaction .. => .ok "hash"
  | .getTransactionReceipt .. => .ok (some ⟨some "0x1"⟩)
  | .now => .ok (0 : ℤ)
  | .sleep _ => .ok ()
  | .summary _ => .ok ()

/-- The script, for an amount, against these answers. -/
def script (amountRaw : String) : List (Event signature Thrown) × Except Thrown ℕ :=
  (main viem environment (arguments amountRaw)).against answering

theorem script_runs (amountRaw : String) : (main viem environment (arguments amountRaw)).Runs
    (script amountRaw).1 (.finished (script amountRaw).2) := by
  rw [script]
  generalize main viem environment (arguments amountRaw) = p
  exact Prog.against_runs answering p

theorem possible_script (amountRaw : String) :
    ∀ e ∈ (script amountRaw).1, Possible e.cmd e.answer := by
  refine Prog.possible_against (fun c => ?_) _
  cases c <;> first | exact trivial | exact List.nodup_singleton _

theorem parseOptions_five :
    parseOptions viem (arguments "5") = .ok (some (requested 5)) := rfl

theorem parseOptions_zero :
    parseOptions viem (arguments "0") = .ok (some (requested 0)) := rfl

end Sample

theorem approvals_warranted_oneWallet : ∃ past rpcUrl rawTx,
    Warranted Sample.viem Sample.environment (Sample.requested 5) past
      (.broadcastRawTransaction rpcUrl rawTx) := by
  obtain ⟨hevents, -⟩ := approvals_warranted Sample.parseOptions_five (Sample.script_runs "5")
    (Sample.possible_script "5")
  have hsent : (⟨.broadcastRawTransaction "https://rpc" "raw", .ok "hash"⟩ :
      Event signature Thrown) ∈ (Sample.script "5").1 := by
    repeat first | exact List.mem_cons_self | apply List.mem_cons_of_mem
  obtain ⟨before, later, hsplit⟩ := List.append_of_mem hsent
  exact ⟨before.reverse, "https://rpc", "raw", hevents before _ later hsplit⟩

/-- **An exit code of zero** means that a summary has been printed with one outcome for each wallet
asked for; with `--execute` each of these was approved already, or its approval is mined, or it
has no key. -/
theorem exit_zero {values : Values} {tr : List (Event signature Thrown)}
    (hoptions : parseOptions lib values = .ok (some options))
    (hr : (main lib config values).Runs tr (.finished (.ok 0)))
    (ha : ∀ e ∈ tr, Possible e.cmd e.answer) :
    ∃ outcomes rows, (⟨.summary outcomes, .ok ()⟩ : Event signature Thrown) ∈ tr ∧
      (⟨.listWallets, .ok rows⟩ : Event signature Thrown) ∈ tr ∧
      selectWallets rows options = .ok (outcomes.map WalletOutcome.wallet) ∧
      ∀ o ∈ outcomes, Reported lib options tr.reverse o ∧ (options.execute = true →
        o.state = .alreadyApproved ∨ o.state = .approved ∨ o.state = .skipped) := by
  obtain ⟨-, -, hends⟩ := warranted_of_runs hoptions hr ha
  obtain ⟨outcomes, rest, hpast, ⟨⟨rows, hrows, hselected⟩, hreported⟩, hgood⟩ :=
    hends _ rfl rfl
  have hmem : ∀ e ∈ rest, e ∈ tr := fun e he =>
    List.mem_reverse.mp (hpast ▸ List.mem_cons_of_mem _ he)
  refine ⟨outcomes, rows, List.mem_reverse.mp (hpast ▸ List.mem_cons_self), hmem _ hrows,
    hselected, fun o ho => ?_⟩
  have hgood := hgood o ho
  have hreported := hreported o ho
  have hlast : Past.Since (Cmd.AsksOnly []) rest tr.reverse :=
    hpast ▸ (Past.Since.refl _ _).cons _ trivial
  refine ⟨hreported.since hlast List.not_mem_nil, fun hexecute => ?_⟩
  cases hstate : o.state with
  | alreadyApproved => exact Or.inl rfl
  | approved => exact Or.inr (Or.inl rfl)
  | skipped => exact Or.inr (Or.inr rfl)
  | wouldApprove =>
    rw [Reported, hstate] at hreported
    exact absurd (hexecute.symm.trans hreported) (by decide)
  | reverted | unconfirmed | failed =>
    rw [hstate] at hgood
    cases hgood

theorem exit_zero_oneWallet : ∃ (outcomes : List WalletOutcome) (rows : List WalletRow),
    selectWallets rows (Sample.requested 5) = .ok (outcomes.map WalletOutcome.wallet) ∧
      ∀ o ∈ outcomes,
        o.state = .alreadyApproved ∨ o.state = .approved ∨ o.state = .skipped := by
  obtain ⟨outcomes, rows, -, -, hselected, hreported⟩ := exit_zero Sample.parseOptions_five
    (Sample.script_runs "5") (Sample.possible_script "5")
  exact ⟨outcomes, rows, hselected, fun o ho => (hreported o ho).2 rfl⟩

/-- Commands that touch a key or send something. -/
def Cmd.Spends : Cmd → Prop
  | .getWalletSigningKeySealed _ | .openWalletKey _ | .signManagedMintTransaction ..
  | .broadcastRawTransaction .. => True
  | _ => False

/-- Behind a command that touches a key there is an allowance below the amount asked for. -/
theorem Due.amount_pos {past : Events} (h : Due lib config options past wallet rpcUrl request) :
    ∃ decimals : Except Thrown ℕ, 0 < requestedAmount lib options (decimals.toOption.getD 18) := by
  obtain ⟨amount, funding, ⟨decimals, -, rfl⟩, -, -, hlt⟩ := h.short
  exact ⟨decimals, Nat.zero_lt_of_lt hlt⟩

theorem Warranted.amount_pos {past : Events} {c : Cmd} (h : Warranted lib config options past c)
    (hc : c.Spends) :
    ∃ decimals : Except Thrown ℕ, 0 < requestedAmount lib options (decimals.toOption.getD 18) := by
  cases c with
  | getWalletSigningKeySealed id =>
    obtain ⟨-, wallet, rpcUrl, request, -, hdue⟩ := h
    exact hdue.amount_pos
  | openWalletKey sealed =>
    obtain ⟨wallet, rpcUrl, request, rest, -, hdue⟩ := h
    exact hdue.amount_pos
  | signManagedMintTransaction request privateKeyHex =>
    obtain ⟨wallet, rpcUrl, sealed, address, rest, -, -, -, hdue⟩ := h
    exact hdue.amount_pos
  | broadcastRawTransaction rpcUrl rawTx =>
    obtain ⟨wallet, request, privateKeyHex, sealed, signed, rest, -, -, hdue⟩ := h
    exact hdue.amount_pos
  | _ => exact hc.elim

/-- **An approval of zero is never sent**, though the script names `--amount-raw 0` as the way to
revoke: no allowance is below zero, so every wallet counts as approved. -/
theorem zero_never_sent {values : Values} {tr : List (Event signature Thrown)}
    {en : Ending signature Thrown ℕ}
    (hoptions : parseOptions lib values = .ok (some options)) (hzero : options.amountRaw = some 0)
    (hr : (main lib config values).Runs tr en) (ha : ∀ e ∈ tr, Possible e.cmd e.answer) :
    (∀ e ∈ tr, ¬ e.cmd.Spends) ∧ ∀ c ∈ en.lost?, ¬ c.Spends := by
  obtain ⟨hevents, hlost, -⟩ := warranted_of_runs hoptions hr ha
  have hnone : ∀ decimals : Except Thrown ℕ,
      ¬ 0 < requestedAmount lib options (decimals.toOption.getD 18) := by
    intro decimals
    rw [requestedAmount, hzero]
    exact Nat.lt_irrefl 0
  refine ⟨fun e he hspends => ?_, fun c hc hspends => ?_⟩
  · obtain ⟨before, later, hsplit⟩ := List.append_of_mem he
    obtain ⟨decimals, hpos⟩ := (hevents before e later hsplit).amount_pos hspends
    exact hnone decimals hpos
  · obtain ⟨decimals, hpos⟩ := (hlost c hc).amount_pos hspends
    exact hnone decimals hpos

theorem zero_never_sent_oneWallet :
    (∀ e ∈ (Sample.script "0").1, ¬ e.cmd.Spends) ∧ (Sample.script "0").2 = .ok 0 :=
  ⟨(zero_never_sent Sample.parseOptions_zero rfl (Sample.script_runs "0")
    (Sample.possible_script "0")).1, rfl⟩

end

end Erc20Approval
