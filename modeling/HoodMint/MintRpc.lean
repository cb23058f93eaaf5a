/-
The RPC reads of the fire path (`apps/worker/src/mint-rpc.ts`,
`apps/worker/src/mint-receipt.ts`, `apps/worker/src/workers/rpc-health.ts`,
`packages/core/src/execution.ts`).

* `rankRpcEndpoints`, `resolveBroadcastRpcUrls`, `mintRpcUrls` — which endpoints are
  asked, in which order;
* `withRpcFailover` — the first endpoint that answers;
* `resolveTxOutcome` — the first endpoint that knows the transaction;
  `resolveTxOutcome_wp` says what it can return;
* `waitForMintReceipt` — polling one endpoint for a receipt.
-/
import HoodMint.ExecutionEffects
import Mathlib.Data.List.Sort

namespace MintWorker

open Effect

/-! ### Endpoints -/

/-- `HEALTH_RANK`. -/
def HealthStatus.rank : HealthStatus → ℕ
  | .healthy => 0
  | .unknown => 1
  | .degraded => 2
  | .down => 3

/-- The comparison of `rankRpcEndpoints`; equal endpoints keep their order. -/
def RpcEndpoint.before (a b : RpcEndpoint) : Prop :=
  a.healthStatus.rank < b.healthStatus.rank ∨
    a.healthStatus.rank = b.healthStatus.rank ∧ a.priority ≤ b.priority

instance : DecidableRel RpcEndpoint.before := fun _ _ => inferInstanceAs (Decidable (_ ∨ _))

/-- `rankRpcEndpoints`. -/
def rankRpcEndpoints (endpoints : List RpcEndpoint) (chainId : ℕ) : List RpcEndpoint :=
  (endpoints.filter fun e => e.chainId = chainId && e.enabled).insertionSort RpcEndpoint.before

/-- Push a URL the list does not hold yet. -/
def pushUrl (urls : List String) (url : String) : List String :=
  if url ∈ urls then urls else urls ++ [url]

/-- The URLs `resolveBroadcastRpcUrls` makes of the registry: at most four. -/
def broadcastRpcUrls (endpoints : List RpcEndpoint) (chainId : ℕ) (fallback : Option String) :
    List String :=
  let ranked := (rankRpcEndpoints endpoints chainId).filter fun e => e.healthStatus ≠ .down
  let urls := (ranked.map RpcEndpoint.httpUrl).foldl pushUrl []
  (match fallback with
    | some url => if url = "" then urls else pushUrl urls url
    | none => urls).take 4

/-- `resolveBroadcastRpcUrls`. -/
def resolveBroadcastRpcUrls (chainId : ℕ) (fallback : Option String) : Worker (List String) := do
  let endpoints ← ask (.listRpcEndpoints chainId)
  return broadcastRpcUrls endpoints chainId fallback

/-- `resolveBestRpcUrl`. -/
def resolveBestRpcUrl (chainId : ℕ) (fallback : Option String) : Worker (Option String) := do
  let endpoints ← ask (.listRpcEndpoints chainId)
  let best := (rankRpcEndpoints endpoints chainId).find? fun e => e.healthStatus ≠ .down
  return (best.map RpcEndpoint.httpUrl).or fallback

/-- `url.trim() === ""`. -/
def blank (url : String) : Bool := url.toList.all Char.isWhitespace

/-- `mintRpcUrls`: the premium endpoints first, then the registry, then `RPC_URL`. -/
def mintRpcUrls (config : Config) (registryUrls : List String) : List String :=
  let premium := [config.alchemyRobinhoodRpc, config.chainstackRobinhoodRpc,
    config.drpcRobinhoodRpc].filterMap id
  let all := premium ++ registryUrls ++ config.rpcUrl.toList
  (all.filter fun url => !blank url).foldl pushUrl []

/-! ### Reads -/

/-- The loop of `withRpcFailover`; `last` is the latest error. -/
def failover {α : Type} (fn : String → Worker α) (last : Thrown) : List String → Worker α
  | [] => throw last.asError
  | url :: urls => do
    match ← (fn url).attempt with
    | .ok a => return a
    | .error e => failover fn e urls

/-- `withRpcFailover`. -/
def withRpcFailover {α : Type} (urls : List String) (fn : String → Worker α) : Worker α :=
  failover fn (.error "withRpcFailover: no RPC endpoints configured") urls

/-- The outcome a receipt stands for. -/
def ReceiptStatus.outcome : ReceiptStatus → ReceiptOutcome
  | .success => .success
  | .reverted => .reverted

/-- `resolveTxOutcomeOnce`. -/
def resolveTxOutcomeOnce (rpcUrl txHash : String) : Worker ReceiptOutcome := do
  match ← (ask (.getTransactionReceipt rpcUrl txHash)).attempt with
  | .ok (some status) => return status.outcome
  | _ => return .unknown

/-- `resolveTxOutcome`. -/
def resolveTxOutcome : List String → String → Worker ReceiptOutcome
  | [], _ => return .unknown
  | url :: urls, txHash => do
    let outcome ← resolveTxOutcomeOnce url txHash
    if outcome ≠ .unknown then return outcome
    resolveTxOutcome urls txHash

/-- What each endpoint answers for each hash. -/
abbrev Receipts := String → String → Except Thrown (Option ReceiptStatus)

/-- What one endpoint's answer amounts to. -/
def Receipts.outcomeOnce (receipts : Receipts) (url txHash : String) : ReceiptOutcome :=
  match receipts url txHash with
  | .ok (some status) => status.outcome
  | _ => .unknown

/-- The first definite answer. -/
def Receipts.outcome (receipts : Receipts) : List String → String → ReceiptOutcome
  | [], _ => .unknown
  | url :: urls, txHash =>
    if receipts.outcomeOnce url txHash ≠ .unknown then receipts.outcomeOnce url txHash
    else outcome receipts urls txHash

/-- Where no endpoint reports a revert, one report of success decides. -/
theorem Receipts.outcome_of_not_reverted {receipts : Receipts} {txHash : String}
    (h : ∀ url, receipts url txHash ≠ .ok (some .reverted)) (urls : List String) :
    receipts.outcome urls txHash =
      if ∃ url ∈ urls, receipts url txHash = .ok (some .success) then .success else .unknown := by
  have honce : ∀ url, receipts.outcomeOnce url txHash =
      if receipts url txHash = .ok (some .success) then .success else .unknown := by
    intro url
    rw [outcomeOnce]
    rcases hanswer : receipts url txHash with e | _ | _ | _
    · rfl
    · rfl
    · rfl
    · exact absurd hanswer (h url)
  induction urls with
  | nil => rfl
  | cons url urls ih =>
    rw [outcome, honce, ih]
    by_cases hs : receipts url txHash = .ok (some .success)
    · simp [hs]
    · simp [hs]

section

variable {σ : Type} {M : Monitor signature Thrown σ} {receipts : Receipts} {txHash : String} {s : σ}

/-- Where the endpoints answer as `receipts` says, the outcome is the first definite
answer. -/
theorem resolveTxOutcome_wp
    (h : ∀ url, M.guard s (.getTransactionReceipt url txHash) ∧
      ∀ x, M.allowed s (.getTransactionReceipt url txHash) x →
        x = receipts url txHash ∧ M.next s (.getTransactionReceipt url txHash) x = s)
    (urls : List String) :
    (resolveTxOutcome urls txHash).wp M
      (fun r s' => r = .ok (receipts.outcome urls txHash) ∧ s' = s) s := by
  have honce : ∀ url, (resolveTxOutcomeOnce url txHash).wp M
      (fun r s' => r = .ok (receipts.outcomeOnce url txHash) ∧ s' = s) s := by
    intro url
    refine Prog.wp_bind.mpr (Prog.wp_attempt.mpr (Prog.wp_issue.mpr ⟨(h url).1, fun x hx => ?_⟩))
    obtain ⟨rfl, hnext⟩ := (h url).2 x hx
    rw [Receipts.outcomeOnce]
    rcases hanswer : receipts url txHash with e | _ | status
    · exact ⟨rfl, hanswer ▸ hnext⟩
    · exact ⟨rfl, hanswer ▸ hnext⟩
    · exact ⟨rfl, hanswer ▸ hnext⟩
  induction urls with
  | nil => exact ⟨rfl, rfl⟩
  | cons url urls ih =>
    refine Prog.wp_bind_of (honce url) ?_ fun e s' h => nomatch h.1
    rintro _ _ ⟨⟨⟩, rfl⟩
    rw [Receipts.outcome]
    split
    · exact ⟨rfl, rfl⟩
    · exact ih

end

/-- The poll interval and the budget of `waitForMintReceipt`. -/
def receiptPollMs : ℤ := 120

def receiptTimeoutMs : ℤ := 2000

/-- The loop of `waitForMintReceipt`.  Between two polls it sleeps for `receiptPollMs`,
so the deadline has passed by the 18th; `polls` counts these down. -/
def pollMintReceipt (rpcUrl txHash : String) (deadline : ℤ) : ℕ → Worker ReceiptOutcome
  | 0 => return .unknown
  | polls + 1 => do
    match ← (ask (.getTransactionReceipt rpcUrl txHash)).attempt with
    | .ok (some status) => return status.outcome
    | _ =>
      let nowMs ← ask .now
      if nowMs ≥ deadline then return .unknown
      ask (.sleep receiptPollMs)
      pollMintReceipt rpcUrl txHash deadline polls

/-- `waitForMintReceipt`. -/
def waitForMintReceipt (rpcUrl txHash : String) : Worker ReceiptOutcome := do
  let nowMs ← ask .now
  pollMintReceipt rpcUrl txHash (nowMs + receiptTimeoutMs) 18

end MintWorker
