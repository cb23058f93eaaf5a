/-
What an early revert costs a plan (`apps/worker/src/workers/execution.ts`: `runManagedFire`;
`packages/db/src/repositories/execution.ts`: `countRevertedAttempts`).

A mint that is mined before its stage has started on chain reverts; a plan that has reverted too
often is failed.

* `countRevertedAttempts` — the attempts that count against a plan;
* `Chain` — when transactions were mined, and when the stage starts;
* `Booking` — what a fire has read and recorded; `misses` says which answers let an early revert be
  taken for another;
* `EarlySpared` — no attempt recorded for an early revert counts, over any number of fires;
* `earlySpared_iff` — exactly when: the fire is live, knows the contract's own start, and the
  worker's clock is less than a second past it when the receipt is in.
-/
import HoodMint.NoRearm

namespace MintWorker

open Effect

/-! ### The attempts that count -/

/-- `code like pattern || '%'`: an underscore stands for any character. -/
def likePrefix : List Char → List Char → Bool
  | [], _ => true
  | _ :: _, [] => false
  | p :: pattern, c :: code => (p == '_' || p == c) && likePrefix pattern code

/-- `like 'reverted_onchain%'`. -/
def likeReverted (code : String) : Bool := likePrefix "reverted_onchain".toList code.toList

/-- The condition of `countRevertedAttempts`. -/
def Attempt.counts (attempt : Attempt) : Bool :=
  attempt.status = .failed && attempt.errorCode.any likeReverted

/-- `countRevertedAttempts` of the attempts of one plan. -/
def countRevertedAttempts (attempts : List Attempt) : ℕ := attempts.countP Attempt.counts

/-! ### The chain -/

/-- The timestamp of the block each transaction was mined in, and the stage's start. -/
structure Chain where
  minedAt : String → Option ℤ
  startMs : ℤ

/-- Mined before the start. -/
def Chain.early (chain : Chain) (txHash : String) : Bool :=
  (chain.minedAt txHash).any fun timestamp => decide (timestamp < chain.startMs)

/-! ### What a fire reads and records -/

/-- A fire so far: whether the live path has signed, whether an endpoint has returned a hash, the
latest error that did not come with a receipt, the transaction whose revert was read and not
recorded yet, the attempts recorded and for which revert, and whether an early revert was missed. -/
structure Booking where
  signed : Bool := false
  acknowledged : Bool := false
  failure : Option Thrown := none
  reverted : Option String := none
  booked : List (Option String × Attempt) := []
  missed : Bool := false

namespace Booking

variable (chain : Chain) (onChainStartMs : Option ℤ)

/-- The answers that let an early revert count: its receipt, when the transaction was pre-signed or
the contract's own start is not known; the clock, when it is a second past that start; and, when no
endpoint has acknowledged the transaction, a failure that reads like a revert. -/
def misses (b : Booking) (c : Cmd) (x : Except Thrown c.Resp) : Bool :=
  match c, x with
  | .getTransactionReceipt _ txHash, .ok (some .reverted) =>
    chain.early txHash && b.acknowledged && (!b.signed || onChainStartMs.isNone)
  | .now, .ok nowMs =>
    b.reverted.any chain.early && onChainStartMs.any fun start => decide (start + 1000 ≤ nowMs)
  | .releaseNonce .., .ok _ =>
    b.reverted.any chain.early &&
      b.failure.any fun e => likeReverted (e.errorCode "unknown_managed_signing_error")
  | _, _ => false

/-- What an answer changes besides. -/
def read (b : Booking) (c : Cmd) (x : Except Thrown c.Resp) : Booking :=
  match c, x with
  | .signManagedMintTransaction .., .ok _ => { b with signed := true }
  | .raceRawTransaction .., .ok (.ok _) => { b with acknowledged := true }
  | .raceRawTransaction .., .ok (.error errors) =>
    { b with failure := some (pickBroadcastError errors) }
  | .getTransactionReceipt _ txHash, .ok (some .reverted) =>
    if b.signed || b.acknowledged then { b with reverted := some txHash } else b
  | .getTransactionReceipt .., _ => b
  | .recordExecutionAttempt _ attempt, .ok _ =>
    { b with reverted := none, booked := (b.reverted, attempt) :: b.booked }
  | .recordExecutionAttempt _ attempt, .error e =>
    { b with reverted := none, booked := (b.reverted, attempt) :: b.booked, failure := some e }
  | _, .error e => { b with failure := some e }
  | _, .ok _ => b

/-- The attempt was recorded for an early revert, and counts. -/
def Miscounted (entry : Option String × Attempt) : Prop :=
  entry.1.any chain.early = true ∧ entry.2.counts = true

/-- No such attempt has been recorded. -/
def Spared (b : Booking) : Prop := ∀ entry ∈ b.booked, ¬ Miscounted chain entry

/-- The bookkeeping agrees: an early revert was missed exactly if one was counted. -/
def Sound (b : Booking) : Prop := b.Spared chain ↔ b.missed = false

end Booking

/-- Follows a fire that knows the contract's own start, or does not. -/
def booking (chain : Chain) (onChainStartMs : Option ℤ) : Monitor signature Thrown Booking where
  guard _ _ := True
  allowed _ _ _ := True
  next b c x := { b.read c x with missed := b.missed || b.misses chain onChainStartMs c x }

/-- A fire of the managed-key path for a plan, with a run of it to its end. -/
structure ManagedFire (plan : Plan) where
  config : Config
  tx : Tx
  wallet : Wallet
  rpcUrl : String
  mode : FireMode
  trace : List (Event signature Thrown)
  result : Except Thrown Unit
  runs : (runManagedFire config plan tx wallet rpcUrl mode).Runs trace (.finished result)

namespace ManagedFire

variable {plan : Plan} (chain : Chain) (fire : ManagedFire plan)

def booking : Booking :=
  (MintWorker.booking chain fire.mode.onChainStartMs).after {} fire.trace

/-- An early revert was read where the fire does not take it for one. -/
def MissesEarly : Prop := (fire.booking chain).missed = true

instance decidableMissesEarly : Decidable (fire.MissesEarly chain) :=
  (inferInstance : Decidable ((fire.booking chain).missed = true))

end ManagedFire

/-- **Early reverts are spared** over any number of fires: none of the attempts recorded for them
counts, so that what counts against the plan was recorded for something else. -/
structure EarlySpared (chain : Chain) {plan : Plan} (fires : List (ManagedFire plan)) : Prop where
  notCounted : ∀ fire ∈ fires, ∀ entry ∈ (fire.booking chain).booked,
    entry.1.any chain.early = true → entry.2.counts = false
  cap : countRevertedAttempts (fires.flatMap fun fire => (fire.booking chain).booked.map Prod.snd) ≤
    (fires.flatMap fun fire => (fire.booking chain).booked).countP fun entry =>
      !entry.1.any chain.early

/-! ### Between receipts -/

section

variable {chain : Chain} {onChainStartMs : Option ℤ} {b : Booking} {s a m : Bool} {α : Type}
  {plan : Plan} {wallet : Wallet} {rpcUrl txHash : String}

/-- How far the fire is, while no revert waits to be recorded. -/
structure Booking.At (chain : Chain) (s a m : Bool) (b : Booking) : Prop where
  signed : b.signed = s
  acknowledged : b.acknowledged = a
  reverted : b.reverted = none
  missed : b.missed = m
  spared : b.Spared chain ↔ m = false

theorem Booking.At.sound (h : b.At chain s a m) : b.Sound chain := by
  rw [Booking.Sound, h.missed]
  exact h.spared

/-- Neither sends nor signs, nor looks at a receipt. -/
def Cmd.Still : Cmd → Prop
  | .getTransactionReceipt .. | .raceRawTransaction .. | .signManagedMintTransaction .. => False
  | _ => True

abbrev Still (p : Worker α) : Prop := p.Only (S := signature) Cmd.Still

theorem still_ask {c : Cmd} (h : c.Still) : Still (ask c) := Prog.Only.issue h

theorem Idle.still {p : Worker α} (h : Idle p) : Still p :=
  h.mono fun c hc => by cases c <;> first | exact trivial | exact absurd hc id

theorem Cmd.Clerical.still_or_receipt {c : Cmd} (h : c.Clerical) :
    c.Still ∨ ∃ url txHash, c = .getTransactionReceipt url txHash := by
  cases c with
  | getTransactionReceipt url txHash => exact Or.inr ⟨url, txHash, rfl⟩
  | raceRawTransaction => exact absurd h id
  | signManagedMintTransaction => exact absurd h id
  | _ => exact Or.inl trivial

/-- What is recorded for no revert is not miscounted. -/
theorem spared_cons (b : Booking) (entry : Option String × Attempt) :
    ({ b with booked := entry :: b.booked } : Booking).Spared chain ↔
      ¬ Booking.Miscounted chain entry ∧ b.Spared chain :=
  List.forall_mem_cons

/-- While no revert waits, such a command leaves the bookkeeping as it is. -/
theorem read_of_still {c : Cmd} (hc : c.Still) (hnone : b.reverted = none)
    (x : Except Thrown c.Resp) :
    (b.read c x).signed = b.signed ∧ (b.read c x).acknowledged = b.acknowledged ∧
      (b.read c x).reverted = none ∧ ((b.read c x).Spared chain ↔ b.Spared chain) := by
  cases c with
  | getTransactionReceipt => exact absurd hc id
  | raceRawTransaction => exact absurd hc id
  | signManagedMintTransaction => exact absurd hc id
  | recordExecutionAttempt planId attempt =>
    have hnot : ¬ Booking.Miscounted chain (b.reverted, attempt) := by
      rw [hnone]
      exact fun h => Bool.noConfusion h.1
    have hspared := (@spared_cons chain b (b.reverted, attempt)).trans
      (and_iff_right hnot)
    cases x <;> exact ⟨rfl, rfl, rfl, hspared⟩
  | _ => cases x <;> exact ⟨rfl, rfl, hnone, Iff.rfl⟩

/-- And misses nothing. -/
theorem misses_of_still {c : Cmd} (hc : c.Still) (hnone : b.reverted = none)
    (x : Except Thrown c.Resp) : b.misses chain onChainStartMs c x = false := by
  cases c with
  | getTransactionReceipt => exact absurd hc id
  | now =>
    cases x with
    | error e => rfl
    | ok nowMs => simp [Booking.misses, hnone]
  | releaseNonce =>
    cases x with
    | error e => rfl
    | ok a => simp [Booking.misses, hnone]
  | _ => cases x <;> rfl

theorem Booking.At.next {c : Cmd} (h : b.At chain s a m) (hc : c.Still)
    (x : Except Thrown c.Resp) : ((booking chain onChainStartMs).next b c x).At chain s a m := by
  obtain ⟨hsigned, hacknowledged, hreverted, hspared⟩ :=
    @read_of_still chain b c hc h.reverted x
  refine ⟨hsigned.trans h.signed, hacknowledged.trans h.acknowledged, hreverted, ?_, ?_⟩
  · show (b.missed || b.misses chain onChainStartMs c x) = m
    rw [misses_of_still hc h.reverted, Bool.or_false, h.missed]
  · exact hspared.trans h.spared

theorem Booking.At.wp {p : Worker α} (h : b.At chain s a m) (hp : Still p) :
    p.wp (booking chain onChainStartMs) (fun _ b' => b'.At chain s a m) b :=
  Prog.Only.wp (I := fun b : Booking => b.At chain s a m) hp (fun _ _ _ _ => trivial)
    (fun _ _ x hc h _ => h.next hc x) h

/-- Before anything is signed or acknowledged, receipts are not the fire's own. -/
theorem Booking.At.wp_clerical {p : Worker α} (h : b.At chain false false m) (hp : Clerical p) :
    p.wp (booking chain onChainStartMs) (fun _ b' => b'.At chain false false m) b := by
  refine Prog.Only.wp (I := fun b : Booking => b.At chain false false m) hp
    (fun _ _ _ _ => trivial) (fun b c x hc h _ => ?_) h
  rcases hc.still_or_receipt with hstill | ⟨url, txHash, rfl⟩
  · exact h.next hstill x
  · have hread : b.read (.getTransactionReceipt url txHash) x = b := by
      rcases x with e | _ | _ | _
      · rfl
      · rfl
      · rfl
      · simp [Booking.read, h.signed, h.acknowledged]
    have hmisses : b.misses chain onChainStartMs (.getTransactionReceipt url txHash) x = false := by
      rcases x with e | _ | _ | _
      · rfl
      · rfl
      · rfl
      · simp [Booking.misses, h.acknowledged]
    have hnext : (booking chain onChainStartMs).next b (.getTransactionReceipt url txHash) x = b := by
      show ({ b.read (.getTransactionReceipt url txHash) x with
        missed := b.missed || b.misses chain onChainStartMs (.getTransactionReceipt url txHash) x } :
          Booking) = b
      rw [hread, hmisses, Bool.or_false]
    rwa [hnext]

/-! ### A revert that waits to be recorded -/

/-- The transaction's revert has been read. -/
structure Booking.Awaits (chain : Chain) (txHash : String) (s a m : Bool) (b : Booking) :
    Prop where
  signed : b.signed = s
  acknowledged : b.acknowledged = a
  reverted : b.reverted = some txHash
  missed : b.missed = m
  spared : b.Spared chain

theorem Booking.Awaits.sound (h : b.Awaits chain txHash s a false) : b.Sound chain :=
  iff_of_true h.spared h.missed

/-- After a receipt for a transaction of the fire. -/
def Booking.Looked (chain : Chain) (onChainStartMs : Option ℤ) (txHash : String) (s a : Bool)
    (r : Except Thrown ReceiptOutcome) (b : Booking) : Prop :=
  match r with
  | .ok .reverted => b.Awaits chain txHash s a
      (chain.early txHash && a && (!s || onChainStartMs.isNone))
  | _ => b.At chain s a false

/-- One receipt: nothing has changed, or a revert waits. -/
theorem Booking.At.receipt (h : b.At chain s a false) (hsent : (s || a) = true)
    (x : Except Thrown (Option ReceiptStatus)) :
    ((booking chain onChainStartMs).next b (.getTransactionReceipt rpcUrl txHash) x).failure =
        b.failure ∧
      ((booking chain onChainStartMs).next b (.getTransactionReceipt rpcUrl txHash) x).Looked chain
        onChainStartMs txHash s a
        (match x with
          | .ok (some status) => .ok status.outcome
          | _ => .ok .unknown) := by
  have hsame : (b.missed || false) = false := by rw [Bool.or_false, h.missed]
  rcases x with e | _ | _ | _
  · exact ⟨rfl, h.signed, h.acknowledged, h.reverted, hsame, h.spared⟩
  · exact ⟨rfl, h.signed, h.acknowledged, h.reverted, hsame, h.spared⟩
  · exact ⟨rfl, h.signed, h.acknowledged, h.reverted, hsame, h.spared⟩
  · have hread : b.read (.getTransactionReceipt rpcUrl txHash) (.ok (some .reverted)) =
        { b with reverted := some txHash } := by
      simp only [Booking.read, h.signed, h.acknowledged, hsent, if_true]
    have hmisses : b.misses chain onChainStartMs (.getTransactionReceipt rpcUrl txHash)
        (.ok (some .reverted)) =
          (chain.early txHash && a && (!s || onChainStartMs.isNone)) := by
      simp only [Booking.misses, h.signed, h.acknowledged]
    refine ⟨?_, ?_⟩
    · show (b.read (.getTransactionReceipt rpcUrl txHash) (.ok (some .reverted))).failure = _
      rw [hread]
    · show ({ b.read (.getTransactionReceipt rpcUrl txHash) (.ok (some .reverted)) with
        missed := b.missed || b.misses chain onChainStartMs (.getTransactionReceipt rpcUrl txHash)
          (.ok (some .reverted)) } : Booking).Awaits chain txHash s a _
      rw [hread, hmisses, h.missed, Bool.false_or]
      exact ⟨h.signed, h.acknowledged, rfl, rfl, h.spared.mpr rfl⟩

theorem pollMintReceipt_booking {deadline : ℤ} (polls : ℕ) (h : b.At chain s true false) :
    (pollMintReceipt rpcUrl txHash deadline polls).wp (booking chain onChainStartMs)
      (Booking.Looked chain onChainStartMs txHash s true) b := by
  induction polls generalizing b with
  | zero => exact h
  | succ polls ih =>
    have hwait : ∀ {b : Booking}, b.At chain s true false → (do
        let nowMs ← ask .now
        if nowMs ≥ deadline then return .unknown
        ask (.sleep receiptPollMs)
        pollMintReceipt rpcUrl txHash deadline polls : Worker ReceiptOutcome).wp
          (booking chain onChainStartMs) (Booking.Looked chain onChainStartMs txHash s true) b := by
      intro b h
      refine Prog.wp_bind_of (h.wp (still_ask trivial)) (fun nowMs b₁ h₁ => ?_) fun _ _ h₁ => h₁
      split
      · exact h₁
      · exact Prog.wp_bind_of (h₁.wp (still_ask trivial)) (fun _ _ h₂ => ih h₂) fun _ _ h₂ => h₂
    refine Prog.wp_bind.mpr (Prog.wp_attempt.mpr (Prog.wp_issue.mpr ⟨trivial, fun x _ => ?_⟩))
    have hlooked := (@Booking.At.receipt chain onChainStartMs b s true rpcUrl txHash h (Bool.or_true s) x).2
    rcases x with e | _ | _ | _
    · exact hwait hlooked
    · exact hwait hlooked
    · exact hlooked
    · exact hlooked

theorem waitForMintReceipt_booking (h : b.At chain s true false) :
    (waitForMintReceipt rpcUrl txHash).wp (booking chain onChainStartMs)
      (Booking.Looked chain onChainStartMs txHash s true) b :=
  Prog.wp_bind_of (h.wp (still_ask trivial)) (fun _ _ h₁ => pollMintReceipt_booking _ h₁)
    fun _ _ h₁ => h₁

/-- The attempt that records a revert counts as its code reads. -/
theorem Booking.Awaits.record {code : String}
    (h : b.Awaits chain txHash s a (chain.early txHash && likeReverted code)) :
    (record plan { status := .failed, errorCode := some code }).wp (booking chain onChainStartMs)
      (fun _ b' => b'.At chain s a (chain.early txHash && likeReverted code)) b := by
  refine Prog.wp_issue.mpr ⟨trivial, fun x _ => ?_⟩
  have hcounts : Booking.Miscounted chain (b.reverted,
      { status := .failed, errorCode := some code }) ↔
        (chain.early txHash && likeReverted code) = true := by
    rw [Booking.Miscounted, h.reverted, Bool.and_eq_true]
    simp [Attempt.counts]
  have hspared : ({ b with booked := (b.reverted,
      { status := .failed, errorCode := some code }) :: b.booked } : Booking).Spared chain ↔
        (chain.early txHash && likeReverted code) = false := by
    rw [spared_cons, hcounts, and_iff_left h.spared, Bool.not_eq_true]
  have hmissed : (b.missed || false) = (chain.early txHash && likeReverted code) := by
    rw [Bool.or_false, h.missed]
  cases x with
  | error e => exact ⟨h.signed, h.acknowledged, rfl, hmissed, hspared⟩
  | ok _ => exact ⟨h.signed, h.acknowledged, rfl, hmissed, hspared⟩

end

/-! ### After the chain has answered -/

section

variable {chain : Chain} {onChainStartMs : Option ℤ} {b : Booking} {s a m : Bool}
  {plan : Plan} {wallet : Wallet} {mode : FireMode} {config : Config} {rpcUrl txHash : String}

theorem still_releaseMintPlanToArmed : Still (releaseMintPlanToArmed plan) :=
  .bind (still_ask trivial) fun _ => .bind (still_ask trivial) fun _ => .pure _

theorem still_markMintPlanExecuted : Still (markMintPlanExecuted plan) :=
  .bind (still_ask trivial) fun _ => .pure _

theorem still_clearPresignedTx : Still (clearPresignedTx plan) :=
  .bind (still_ask trivial) fun _ => .pure _

theorem still_failPlanAndNotify : Still (failPlanAndNotify plan) :=
  .bind (still_ask trivial) fun _ => still_ask trivial

theorem still_ignoreErrors {p : Worker Unit} (h : Still p) : Still (ignoreErrors p) :=
  .bind h.attempt fun _ => .pure _

theorem still_settleExecuted : Still (settleExecuted plan) :=
  .bind still_markMintPlanExecuted fun _ => still_ask trivial

theorem still_rescueFast : Still (rescueFast plan) :=
  .bind (still_ignoreErrors still_clearPresignedTx) fun _ =>
    still_ignoreErrors still_markMintPlanExecuted

/-- A revert is recorded before anything else happens. -/
theorem Booking.Awaits.settleReverted {code : String}
    (h : b.Awaits chain txHash s a (chain.early txHash && likeReverted code)) :
    (settleReverted plan code).wp (booking chain onChainStartMs)
      (fun _ b' => b'.At chain s a (chain.early txHash && likeReverted code)) b := by
  refine Prog.wp_bind_of h.record (fun _ b₁ h₁ => h₁.wp ?_) fun _ _ h₁ => h₁
  refine .bind (still_ask trivial) fun reverts => ?_
  split
  · exact still_failPlanAndNotify
  · exact still_releaseMintPlanToArmed

/-- The fast path takes every revert for a late one. -/
theorem settleFast_booking (h : b.At chain false true false) :
    (settleFast plan rpcUrl txHash).wp (booking chain onChainStartMs)
      (fun _ b' => ∃ m, b'.At chain false true m) b := by
  refine Prog.wp_bind_of (h.wp (still_ask trivial)) (fun _ b₁ h₁ => ?_) fun _ _ h₁ => ⟨_, h₁⟩
  refine Prog.wp_bind_of (h₁.wp still_clearPresignedTx) (fun _ b₂ h₂ => ?_) fun _ _ h₂ => ⟨_, h₂⟩
  refine Prog.wp_bind_of (waitForMintReceipt_booking h₂) (fun outcome b₃ h₃ => ?_)
    fun _ _ h₃ => ⟨_, h₃⟩
  cases outcome with
  | reverted =>
    have hcode : (chain.early txHash && true && (!false || onChainStartMs.isNone)) =
        (chain.early txHash && likeReverted "reverted_onchain") := by
      rw [show likeReverted "reverted_onchain" = true by decide]
      simp
    have h₃ : b₃.Awaits chain txHash false true _ := h₃
    rw [hcode] at h₃
    exact Prog.wp_mono h₃.settleReverted fun _ _ h₄ => ⟨_, h₄⟩
  | success => exact Prog.wp_mono (Booking.At.wp h₃ still_settleExecuted) fun _ _ h₄ => ⟨_, h₄⟩
  | unknown => exact Prog.wp_mono (Booking.At.wp h₃ still_settleExecuted) fun _ _ h₄ => ⟨_, h₄⟩

/-- How the live path's end is left: every revert recorded, or one that was not missed given up
by an error. -/
def Booking.Left (chain : Chain) (b : Booking) : Prop :=
  (∃ s a m, b.At chain s a m) ∨ ∃ txHash s a, b.Awaits chain txHash s a false

theorem Booking.Left.sound (h : b.Left chain) : b.Sound chain := by
  rcases h with ⟨s, a, m, h⟩ | ⟨txHash, s, a, h⟩
  · exact h.sound
  · exact h.sound

/-- Whether the code reads like a revert is a matter of the clock. -/
theorem likeReverted_ite (start nowMs : ℤ) :
    likeReverted (if nowMs < start + 1000 then "reverted_early" else "reverted_onchain") =
      decide (start + 1000 ≤ nowMs) := by
  by_cases h : nowMs < start + 1000
  · rw [if_pos h, decide_eq_false (not_le.mpr h)]
    decide
  · rw [if_neg h, decide_eq_true (not_lt.mp h)]
    decide

/-- The live path looks at the clock, where it knows the contract's own start. -/
theorem settleLive_booking (h : b.At chain true true false) :
    (settleLive plan rpcUrl mode txHash).wp (booking chain mode.onChainStartMs)
      (fun _ b' => b'.Left chain) b := by
  refine Prog.wp_bind_of (waitForMintReceipt_booking h) (fun outcome b₁ h₁ => ?_)
    fun _ _ h₁ => Or.inl ⟨_, _, _, h₁⟩
  cases outcome with
  | success =>
    exact Prog.wp_mono (Booking.At.wp h₁ still_settleExecuted) fun _ _ h₂ => Or.inl ⟨_, _, _, h₂⟩
  | unknown =>
    exact Prog.wp_mono (Booking.At.wp h₁ still_settleExecuted) fun _ _ h₂ => Or.inl ⟨_, _, _, h₂⟩
  | reverted =>
    have h₁ : b₁.Awaits chain txHash true true _ := h₁
    cases hstart : mode.onChainStartMs with
    | none =>
      rw [hstart] at h₁
      have hcode : (chain.early txHash && true && (!true || (none : Option ℤ).isNone)) =
          (chain.early txHash && likeReverted "reverted_onchain") := by
        rw [show likeReverted "reverted_onchain" = true by decide]
        simp
      rw [hcode] at h₁
      exact Prog.wp_mono h₁.settleReverted fun _ _ h₂ => Or.inl ⟨_, _, _, h₂⟩
    | some start =>
      rw [hstart] at h₁
      have hcode : (chain.early txHash && true && (!true || (some start).isNone)) = false := by
        simp
      rw [hcode] at h₁
      refine Prog.wp_bind.mpr (Prog.wp_bind.mpr (Prog.wp_issue.mpr ⟨trivial, fun x _ => ?_⟩))
      cases x with
      | error e =>
        refine Or.inr ⟨txHash, true, true, h₁.signed, h₁.acknowledged, h₁.reverted, ?_, h₁.spared⟩
        show (b₁.missed || false) = false
        rw [h₁.missed]
        rfl
      | ok nowMs =>
        have hclock : ((booking chain (some start)).next b₁ .now (.ok nowMs)).Awaits chain txHash
            true true (chain.early txHash && likeReverted
              (if nowMs < start + 1000 then "reverted_early" else "reverted_onchain")) := by
          refine ⟨h₁.signed, h₁.acknowledged, h₁.reverted, ?_, h₁.spared⟩
          show (b₁.missed || (b₁.reverted.any chain.early &&
            decide (start + 1000 ≤ nowMs))) = _
          rw [h₁.missed, h₁.reverted, likeReverted_ite]
          rfl
        show (settleReverted plan _).wp (booking chain (some start)) (fun _ b' => b'.Left chain) _
        exact Prog.wp_mono hclock.settleReverted fun _ _ h₂ => Or.inl ⟨_, _, _, h₂⟩

/-! ### After a failure -/

/-- The transaction's fate, looked up after no endpoint has acknowledged it. -/
theorem resolveTxOutcome_booking {error : Thrown} (urls : List String)
    (h : b.At chain true false false) (hfailure : b.failure = some error) :
    (resolveTxOutcome urls txHash).wp (booking chain onChainStartMs)
      (fun r b' => b'.failure = some error ∧
        b'.Looked chain onChainStartMs txHash true false r) b := by
  induction urls generalizing b with
  | nil => exact ⟨hfailure, h⟩
  | cons url urls ih =>
    have honce : (resolveTxOutcomeOnce url txHash).wp (booking chain onChainStartMs)
        (fun r b' => b'.failure = some error ∧ (∃ outcome, r = .ok outcome) ∧
          b'.Looked chain onChainStartMs txHash true false r) b := by
      refine Prog.wp_bind.mpr (Prog.wp_attempt.mpr (Prog.wp_issue.mpr ⟨trivial, fun x _ => ?_⟩))
      obtain ⟨hsame, hlooked⟩ := @Booking.At.receipt chain onChainStartMs b true false url txHash
        h (Bool.true_or false) x
      rcases x with e | _ | status
      · exact ⟨hsame.trans hfailure, ⟨_, rfl⟩, hlooked⟩
      · exact ⟨hsame.trans hfailure, ⟨_, rfl⟩, hlooked⟩
      · exact ⟨hsame.trans hfailure, ⟨_, rfl⟩, hlooked⟩
    refine Prog.wp_bind_of honce (fun outcome b₁ h₁ => ?_) fun e _ h₁ => ?_
    · refine Prog.wp_ite (fun _ => ⟨h₁.1, h₁.2.2⟩) fun hunknown => ?_
      obtain rfl := not_not.mp hunknown
      exact ih h₁.2.2 h₁.1
    · obtain ⟨-, ⟨_, hr⟩, -⟩ := h₁
      cases hr

/-- A fire that gives up before it has sent anything. -/
theorem still_giveUpLive {nonce : Option ℕ} {error : Thrown} :
    Still (giveUpLive plan wallet nonce error) := by
  have hrelease : Still (releaseHeldNonce wallet nonce) := by
    cases nonce with
    | none => exact .pure _
    | some n => exact still_ask trivial
  refine .bind hrelease fun _ => .bind (still_ask trivial) fun _ => ?_
  split
  · exact still_failPlanAndNotify
  · exact still_releaseMintPlanToArmed

/-- One that gives up after its transaction has reverted: its nonce is given back, and the failure
recorded. -/
theorem Booking.Awaits.giveUpLive {nonce : ℕ} {error : Thrown}
    (h : b.Awaits chain txHash true false false) (hfailure : b.failure = some error) :
    (giveUpLive plan wallet (some nonce) error).wp (booking chain onChainStartMs)
      (fun _ b' => b'.Left chain) b := by
  refine Prog.wp_bind.mpr (Prog.wp_issue.mpr ⟨trivial, fun x _ => ?_⟩)
  cases x with
  | error e =>
    refine Or.inr ⟨txHash, true, false, h.signed, h.acknowledged, h.reverted, ?_, h.spared⟩
    show (b.missed || false) = false
    rw [h.missed]
    rfl
  | ok _ =>
    have hreleased : ((booking chain onChainStartMs).next b (.releaseNonce wallet.address nonce)
        (.ok ())).Awaits chain txHash true false (chain.early txHash &&
          likeReverted (error.errorCode "unknown_managed_signing_error")) := by
      refine ⟨h.signed, h.acknowledged, h.reverted, ?_, h.spared⟩
      show (b.missed || (b.reverted.any chain.early && b.failure.any fun e =>
        likeReverted (e.errorCode "unknown_managed_signing_error"))) = _
      rw [h.missed, h.reverted, hfailure]
      rfl
    refine Prog.wp_bind_of hreleased.record (fun _ b₁ h₁ => ?_) fun _ _ h₁ => Or.inl ⟨_, _, _, h₁⟩
    refine Prog.wp_mono (h₁.wp ?_) fun _ _ h₂ => Or.inl ⟨_, _, _, h₂⟩
    split
    · exact still_failPlanAndNotify
    · exact still_releaseMintPlanToArmed

theorem rescueLive_booking {nonce : ℕ} {error : Thrown} (h : b.At chain true false false)
    (hfailure : b.failure = some error) :
    (rescueLive plan wallet mode (some txHash) (some nonce) error).wp
      (booking chain onChainStartMs) (fun _ b' => b'.Left chain) b := by
  refine Prog.wp_bind_of (resolveTxOutcome_booking mode.fireUrls h hfailure)
    (fun outcome b₁ h₁ => ?_) fun _ _ h₁ => Or.inl ⟨_, _, _, h₁.2⟩
  cases outcome with
  | success =>
    exact Prog.wp_mono (Booking.At.wp h₁.2 (still_ignoreErrors still_markMintPlanExecuted))
      fun _ _ h₂ => Or.inl ⟨_, _, _, h₂⟩
  | unknown =>
    exact Prog.wp_mono (Booking.At.wp h₁.2 still_releaseMintPlanToArmed)
      fun _ _ h₂ => Or.inl ⟨_, _, _, h₂⟩
  | reverted =>
    obtain ⟨hfailure, h₁⟩ := h₁
    have h₁ : b₁.Awaits chain txHash true false _ := h₁
    rw [show (chain.early txHash && false && (!true || onChainStartMs.isNone)) = false by simp]
      at h₁
    exact h₁.giveUpLive hfailure

/-! ### The paths -/

/-- A race is acknowledged, or its rejection is the latest failure. -/
theorem raceBroadcast_booking {urls : List String} {rawTx : String} (h : b.At chain s a m) :
    (raceBroadcast urls rawTx).wp (booking chain onChainStartMs)
      (fun r b' => match r with
        | .ok _ => b'.At chain s true m
        | .error e => b'.At chain s a m ∧ b'.failure = some e) b := by
  have hsame : (b.missed || false) = m := by rw [Bool.or_false, h.missed]
  refine Prog.wp_bind.mpr (Prog.wp_issue.mpr ⟨trivial, fun x _ => ?_⟩)
  rcases x with e | errors | txHash
  · exact ⟨⟨h.signed, h.acknowledged, h.reverted, hsame, h.spared⟩, rfl⟩
  · exact ⟨⟨h.signed, h.acknowledged, h.reverted, hsame, h.spared⟩, rfl⟩
  · exact ⟨h.signed, rfl, h.reverted, hsame, h.spared⟩

/-- A statement that fails leaves its error behind. -/
theorem failure_next {c : Cmd} (hc : c.Still) (e : Thrown) :
    ((booking chain onChainStartMs).next b c (.error e)).failure = some e := by
  cases c with
  | getTransactionReceipt => exact absurd hc id
  | raceRawTransaction => exact absurd hc id
  | signManagedMintTransaction => exact absurd hc id
  | _ => rfl

/-- So does a still program of one statement. -/
theorem Booking.At.wp_ask {c : Cmd} (h : b.At chain s a m) (hc : c.Still) :
    (ask c).wp (booking chain onChainStartMs)
      (fun r b' => b'.At chain s a m ∧ ∀ e, r = .error e → b'.failure = some e) b := by
  refine Prog.wp_issue.mpr ⟨trivial, fun x _ => ⟨h.next hc x, ?_⟩⟩
  rintro e rfl
  exact failure_next hc e

theorem sendLive_booking {signed : Signed} (h : b.At chain true false false) :
    (sendLive config plan rpcUrl mode signed).wp (booking chain onChainStartMs)
      (fun r b' => match r with
        | .ok _ => b'.At chain true true false
        | .error e => b'.At chain true false false ∧ b'.failure = some e) b := by
  refine Prog.wp_bind_of (h.wp_ask (c := .recordExecutionAttempt plan.id
    { status := .broadcast, txHash := some signed.txHash }) trivial) (fun _ b₁ h₁ => ?_)
    fun e _ h₁ => ⟨h₁.1, h₁.2 e rfl⟩
  have hurls : (liveUrls config rpcUrl mode).wp (booking chain onChainStartMs)
      (fun r b' => b'.At chain true false false ∧ ∀ e, r = .error e → b'.failure = some e) b₁ := by
    rw [liveUrls]
    refine Prog.wp_ite (fun _ => ⟨h₁.1, fun e he => by cases he⟩) fun _ => ?_
    exact Prog.wp_bind_of (h₁.1.wp_ask (c := .listRpcEndpoints config.robinhoodChainId) trivial)
      (fun _ _ h₂ => ⟨h₂.1, fun e he => by cases he⟩)
      fun e _ h₂ => ⟨h₂.1, fun _ he => by cases he; exact h₂.2 e rfl⟩
  exact Prog.wp_bind_of hurls (fun _ _ h₂ => raceBroadcast_booking h₂.1)
    fun e _ h₂ => ⟨h₂.1, h₂.2 e rfl⟩

/-- A signature, and the hold that follows it. -/
theorem signLive_booking {tx : Tx} {key : String} {nonce gasEstimate : ℕ} {fees : FeeContext}
    (h : b.At chain false false false) :
    (signLive tx key mode nonce gasEstimate fees).wp (booking chain onChainStartMs)
      (fun r b' => match r with
        | .ok _ => b'.At chain true false false
        | .error _ => ∃ s, b'.At chain s false false) b := by
  have hsame : (b.missed || false) = false := by rw [Bool.or_false, h.missed]
  have hsign : ∀ managed, (signWithManagedKeySealed managed key).wp (booking chain onChainStartMs)
      (fun r b' => match r with
        | .ok _ => b'.At chain true false false
        | .error _ => b'.At chain false false false) b := by
    intro managed
    refine Prog.wp_tryCatch.mpr (Prog.wp_issue.mpr ⟨trivial, fun x _ => ?_⟩)
    cases x with
    | error e => exact ⟨h.signed, h.acknowledged, h.reverted, hsame, h.spared⟩
    | ok signed => exact ⟨rfl, h.acknowledged, h.reverted, hsame, h.spared⟩
  refine Prog.wp_bind_of (hsign _) (fun signed b₁ h₁ => ?_) fun _ _ h₁ => ⟨_, h₁⟩
  exact Prog.wp_bind_of (Booking.At.wp h₁ (idle_holdForOpen _).still) (fun _ _ h₂ => h₂)
    fun _ _ h₂ => ⟨_, h₂⟩

/-- The pre-signed path ends the fire, or hands it on with nothing sent. -/
theorem fireFast_booking {row : Presigned} {rawTx : String} (h : b.At chain false false false) :
    (fireFast config plan wallet rpcUrl mode row rawTx).wp (booking chain onChainStartMs)
      (fun r b' => match r with
        | .ok false => b'.At chain false false false
        | _ => b'.Left chain) b := by
  have hrace : (raceBlob config rpcUrl rawTx).wp (booking chain onChainStartMs)
      (fun r b' => match r with
        | .ok _ => b'.At chain false true false
        | .error _ => b'.At chain false false false) b :=
    Prog.wp_bind_of (h.wp idle_resolveBroadcastRpcUrls.still)
      (fun _ _ h₁ => Prog.wp_mono (raceBroadcast_booking h₁) fun r _ h₂ => by
        cases r with
        | error e => exact h₂.1
        | ok txHash => exact h₂)
      fun _ _ h₁ => h₁
  refine Prog.wp_bind.mpr (Prog.wp_attempt.mpr (Prog.wp_mono hrace ?_))
  rintro (e | txHash) b₁ h₁
  · refine Prog.wp_mono (Booking.At.wp_clerical h₁ clerical_discardBlob) fun r b₂ h₂ => ?_
    rcases r with e | _ | _
    · exact Or.inl ⟨_, _, _, h₂⟩
    · exact h₂
    · exact Or.inl ⟨_, _, _, h₂⟩
  · have hsettle : (tryCatch (settleFast plan rpcUrl txHash) fun _ => rescueFast plan).wp
        (booking chain onChainStartMs) (fun _ b' => b'.Left chain) b₁ :=
      Prog.wp_tryCatch_of (settleFast_booking h₁)
        (fun _ _ h₂ => Or.inl ⟨_, _, h₂⟩)
        fun _ _ h₂ => Prog.wp_mono (h₂.choose_spec.wp still_rescueFast)
          fun _ _ h₃ => Or.inl ⟨_, _, _, h₃⟩
    exact Prog.wp_bind_of hsettle (fun _ _ h₂ => h₂) fun _ _ h₂ => h₂

/-- What the live path's end leaves behind is not touched by marking the plan. -/
theorem Booking.Left.ignoreErrors_mark (h : b.Left chain) :
    (ignoreErrors (markMintPlanExecuted plan)).wp (booking chain onChainStartMs)
      (fun _ b' => b'.Left chain) b := by
  rcases h with ⟨s, a, m, h⟩ | ⟨txHash, s, a, h⟩
  · exact Prog.wp_mono (h.wp (still_ignoreErrors still_markMintPlanExecuted))
      fun _ _ h₁ => Or.inl ⟨_, _, _, h₁⟩
  · have hsame : (b.missed || false) = false := by rw [Bool.or_false, h.missed]
    refine Prog.wp_bind.mpr (Prog.wp_attempt.mpr (Prog.wp_bind.mpr
      (Prog.wp_issue.mpr ⟨trivial, fun x _ => ?_⟩)))
    cases x with
    | error e => exact Or.inr ⟨txHash, s, a, h.signed, h.acknowledged, h.reverted, hsame, h.spared⟩
    | ok _ => exact Or.inr ⟨txHash, s, a, h.signed, h.acknowledged, h.reverted, hsame, h.spared⟩

theorem fireLive_booking {tx : Tx} {key : String} (h : b.At chain false false false) :
    (fireLive config plan tx wallet key rpcUrl mode).wp (booking chain mode.onChainStartMs)
      (fun _ b' => b'.Left chain) b := by
  have hgiveUp : ∀ {b : Booking} {s : Bool} {nonce : Option ℕ} {error : Thrown},
      b.At chain s false false →
      (rescueLive plan wallet mode none nonce error).wp (booking chain mode.onChainStartMs)
        (fun _ b' => b'.Left chain) b := fun h =>
    Prog.wp_mono (h.wp still_giveUpLive) fun _ _ h₁ => Or.inl ⟨_, _, _, h₁⟩
  refine Prog.wp_bind.mpr (Prog.wp_attempt.mpr
    (Prog.wp_mono (h.wp_clerical quiet_prepareLive.clerical) ?_))
  rintro (e | _ | ⟨gasEstimate, fees⟩) b₁ h₁
  · exact hgiveUp h₁
  · exact Or.inl ⟨_, _, _, h₁⟩
  · refine Prog.wp_bind.mpr (Prog.wp_attempt.mpr (Prog.wp_mono
      (h₁.wp (still_ask (c := .reserveNonce wallet.address fees.nonce) trivial)) ?_))
    rintro (e | nonce) b₂ h₂
    · exact hgiveUp h₂
    · refine Prog.wp_bind.mpr (Prog.wp_attempt.mpr (Prog.wp_mono (signLive_booking h₂) ?_))
      rintro (e | signed) b₃ h₃
      · exact hgiveUp h₃.choose_spec
      · refine Prog.wp_bind.mpr (Prog.wp_attempt.mpr (Prog.wp_mono (sendLive_booking h₃) ?_))
        rintro (e | txHash) b₄ h₄
        · exact rescueLive_booking h₄.1 h₄.2
        · exact Prog.wp_tryCatch_of (settleLive_booking h₄) (fun _ _ h₅ => h₅)
            fun _ _ h₅ => h₅.ignoreErrors_mark

/-- **One fire**: at its end an early revert was missed exactly if one was counted. -/
theorem runManagedFire_booking {tx : Tx} :
    (runManagedFire config plan tx wallet rpcUrl mode).wp (booking chain mode.onChainStartMs)
      (fun _ b' => b'.Left chain) {} := by
  have h : ({} : Booking).At chain false false false :=
    ⟨rfl, rfl, rfl, rfl, iff_of_true (fun _ h => absurd h List.not_mem_nil) rfl⟩
  rw [runManagedFire]
  cases wallet.encryptedSigningKey with
  | none =>
    exact Prog.wp_mono (h.wp (.bind (still_ask trivial) fun _ => still_failPlanAndNotify))
      fun _ _ h₁ => Or.inl ⟨_, _, _, h₁⟩
  | some key =>
    refine Prog.wp_bind_of (h.wp (still_ask (c := .selectPresigned plan.id) trivial))
      (fun fresh b₁ h₁ => ?_) fun _ _ h₁ => Or.inl ⟨_, _, _, h₁⟩
    cases blobToFire mode fresh with
    | none => exact fireLive_booking h₁
    | some blob =>
      refine Prog.wp_bind_of (fireFast_booking h₁) ?_ fun _ _ h₂ => h₂
      rintro (_ | _) b₂ h₂
      · exact fireLive_booking h₂
      · exact h₂

end

/-! ### Any number of fires -/

section

variable {chain : Chain} {plan : Plan}

theorem ManagedFire.spared_iff (fire : ManagedFire plan) :
    (fire.booking chain).Spared chain ↔ ¬ fire.MissesEarly chain := by
  have hadmits : ∀ (b : Booking) tr, (MintWorker.booking chain fire.mode.onChainStartMs).Admits b tr := by
    intro b tr
    induction tr generalizing b with
    | nil => trivial
    | cons e tr ih => exact ⟨trivial, ih _⟩
  have hleft := (Prog.sound runManagedFire_booking fire.runs (hadmits {} fire.trace)).2 _ rfl
  exact (Booking.Left.sound hleft).trans (Bool.not_eq_true _).symm.to_iff

/-- **When early reverts are spared.**  Over any number of managed-key fires of a plan, whatever the
clocks and the delays, no attempt recorded for an early revert counts, exactly when no fire reads an
early revert where it does not take it for one. -/
theorem earlySpared_iff (chain : Chain) (fires : List (ManagedFire plan)) :
    EarlySpared chain fires ↔ ∀ fire ∈ fires, ¬ fire.MissesEarly chain := by
  constructor
  · intro h fire hfire
    rw [← ManagedFire.spared_iff]
    rintro entry hentry ⟨hearly, hcounts⟩
    rw [h.notCounted fire hfire entry hentry hearly] at hcounts
    cases hcounts
  · intro h
    have hnot : ∀ fire ∈ fires, ∀ entry ∈ (fire.booking chain).booked,
        entry.1.any chain.early = true → entry.2.counts = false := by
      intro fire hfire entry hentry hearly
      have hspared := fire.spared_iff.mpr (h fire hfire) entry hentry
      exact Bool.eq_false_iff.mpr fun hcounts => hspared ⟨hearly, hcounts⟩
    refine ⟨hnot, ?_⟩
    rw [← List.map_flatMap, countRevertedAttempts, List.countP_map]
    refine List.countP_mono_left fun entry hentry hcounts => ?_
    obtain ⟨fire, hfire, hentry⟩ := List.mem_flatMap.mp hentry
    rw [Bool.not_eq_true']
    by_contra hearly
    rw [Bool.not_eq_false] at hearly
    have hcounts : entry.2.counts = true := hcounts
    rw [hnot fire hfire entry hentry hearly] at hcounts
    cases hcounts

end

/-! ### Samples -/

namespace Sample

/-- The stage starts at one minute; whatever is sent is mined a second before. -/
def tooEarly : Chain := ⟨fun _ => some 59000, 60000⟩

/-- The sample environment, where a blob is stored, the transaction has reverted, the worker's
clock stands at `nowMs` and `reverts` attempts count so far. -/
def reverted (nowMs : ℤ) (reverts : ℕ) : (c : Cmd) → Except Thrown c.Resp
  | .now => .ok nowMs
  | .selectPresigned _ => .ok (some blob)
  | .getTransactionReceipt .. => .ok (some .reverted)
  | .countRevertedAttempts _ => .ok reverts
  | c => answer c

/-- A managed-key fire against it. -/
def managedFire (mode : FireMode) (nowMs : ℤ) (reverts : ℕ) : ManagedFire plan where
  config := config
  tx := tx
  wallet := wallet
  rpcUrl := "rpc"
  mode := mode
  trace := ((runManagedFire config plan tx wallet "rpc" mode).against (reverted nowMs reverts)).1
  result := ((runManagedFire config plan tx wallet "rpc" mode).against (reverted nowMs reverts)).2
  runs := Prog.against_runs _ _

/-- The pre-signed fire, with the clock still before the start, and a live fire at the instant. -/
def presigned (reverts : ℕ) : ManagedFire plan :=
  managedFire { fire.mode with onChainStartMs := some 60000 } 59500 reverts

def live (nowMs : ℤ) : ManagedFire plan :=
  managedFire { fire.mode with nearFire := true, onChainStartMs := some 60000 } nowMs 0

end Sample

open Sample

/-- **Early reverts that count.**  Three pre-signed fires that all came too early fail the plan, by
the worker's own clock before the start; and so may live ones whose receipt is in a second after
it. -/
theorem early_reverts_counted :
    (countRevertedAttempts ([presigned 1, presigned 2, presigned 3].flatMap fun fire =>
        (fire.booking tooEarly).booked.map Prod.snd) = maxOnchainReverts ∧
      (∀ fire ∈ [presigned 1, presigned 2, presigned 3],
        ∀ entry ∈ (fire.booking tooEarly).booked, entry.2.counts = true →
          entry.1.any tooEarly.early = true) ∧
      ((presigned 3).trace.any fun e => e.cmd = .failMintPlanExecution plan.id) ∧
      ¬ EarlySpared tooEarly [presigned 1, presigned 2, presigned 3]) ∧
    ¬ EarlySpared tooEarly [live 61000] := by
  refine ⟨⟨by decide, by decide, by decide, fun h => ?_⟩, fun h => ?_⟩
  · have hspared := h.notCounted (presigned 1) List.mem_cons_self
    revert hspared
    decide
  · have hspared := h.notCounted (live 61000) List.mem_cons_self
    revert hspared
    decide

/-- A live fire whose receipt is in before that misses nothing. -/
example : ¬ (live 60999).MissesEarly tooEarly := by decide

end MintWorker
