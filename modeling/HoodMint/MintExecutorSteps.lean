/-
What one call of the MintExecutor can do.

Inversion lemmas for the functions of `MintExecutor.lean`, so that the
invariants of the contract never unfold them:

* `Consumed` — the rolling window accounting of one mint, without overflow;
* `Executed` — everything an `executeMint` that reaches its external call has
  checked, and the world it leaves;
* `settled_cases`, `outgoing_cases` — the calls that succeed at once and the
  calls that hand control out;
* `consumeRollingWindow_ne_panic` — the accounting itself cannot overflow.
-/
import HoodMint.MintExecutor

namespace MintExecutor

variable {owner : Address} {now : Timestamp} {msg : Msg} {w w' : World}
  {target : Address} {data : Bytes} {value capWei : UInt256}

/-! ### The rolling window -/

/-- The next mint on `target` opens a fresh window: there is none yet, or 24
hours have passed since the current one started. -/
def WindowExpired (now : Timestamp) (w : World) (target : Address) : Prop :=
  w.windowStart target = 0 ∨ (w.windowStart target).toNat + day.toNat ≤ now.1

instance : Decidable (WindowExpired now w target) := by
  unfold WindowExpired; infer_instance

/-- The start of the window a mint at `now` is accounted in. -/
def startFor (now : Timestamp) (w : World) (target : Address) : UInt256 :=
  if WindowExpired now w target then now.word else w.windowStart target

/-- What that window has spent before the mint. -/
def spentFor (now : Timestamp) (w : World) (target : Address) : UInt256 :=
  if WindowExpired now w target then 0 else w.windowSpentWei target

/-- `w'` is `w` with `value` accounted to `target` at `now`, within what
`capWei` leaves.  A mint of no value passes even when the cap has been lowered
below what is already spent. -/
structure Consumed (now : Timestamp) (target : Address) (capWei value : UInt256)
    (w w' : World) : Prop where
  within : value.toNat ≤ capWei.toNat - (spentFor now w target).toNat
  eq : w' = { w with
    windowStart := Function.update w.windowStart target (startFor now w target)
    windowSpentWei := Function.update w.windowSpentWei target (spentFor now w target + value) }

theorem add_toNat_of_le_sub {spent : UInt256} (h : value.toNat ≤ capWei.toNat - spent.toNat) :
    (spent + value).toNat = spent.toNat + value.toNat := by
  have hcap := capWei.isLt
  have hspent := spent.isLt
  rw [BitVec.toNat_add, Nat.mod_eq_of_lt (by omega)]

/-- The part of `_consumeRollingWindow` after the window has been chosen. -/
def spend (capWei value spent : UInt256) (f : UInt256 → World) : Except Error World := do
  let remaining ← remainingOf capWei spent
  revertIf (remaining < value) (.valueCapExceeded value remaining)
  let total ← checkedAdd spent value
  pure (f total)

/-- The subtraction is guarded, so it never underflows. -/
theorem remainingOf_eq (capWei spent : UInt256) :
    ∃ remaining, remainingOf capWei spent = .ok remaining ∧
      remaining.toNat = capWei.toNat - spent.toNat := by
  unfold remainingOf checkedSub
  by_cases h : capWei > spent
  · have hle : spent.toNat ≤ capWei.toNat := le_of_lt (BitVec.lt_def.mp h)
    rw [if_pos h, if_pos hle]
    exact ⟨_, rfl, BitVec.toNat_sub_of_le (BitVec.le_of_lt h)⟩
  · rw [if_neg h]
    refine ⟨0, rfl, ?_⟩
    have hle : ¬spent.toNat < capWei.toNat := fun hlt => h (BitVec.lt_def.mpr hlt)
    rw [BitVec.ofNat_eq_ofNat, BitVec.toNat_ofNat, Nat.zero_mod]
    omega

theorem spend_eq (capWei value spent : UInt256) (f : UInt256 → World) :
    ∃ remaining, spend capWei value spent f =
      if value.toNat ≤ capWei.toNat - spent.toNat then .ok (f (spent + value))
      else .error (.valueCapExceeded value remaining) := by
  obtain ⟨remaining, hrem, hnat⟩ := remainingOf_eq capWei spent
  refine ⟨remaining, ?_⟩
  unfold spend revertIf
  rw [hrem]
  simp only [bind, Except.bind, BitVec.lt_def, hnat]
  by_cases h : value.toNat ≤ capWei.toNat - spent.toNat
  · have hadd : checkedAdd spent value = .ok (spent + value) :=
      checkedAdd_eq_ok.mpr (add_toNat_of_le_sub h)
    rw [if_neg (by omega), if_pos h, hadd]
    rfl
  · rw [if_pos (by omega), if_neg h]

/-- `start + 24 hours` fits in a word. -/
def WindowFits (w : World) (target : Address) : Prop :=
  (w.windowStart target).toNat + day.toNat < 2 ^ 256

/-- The source's test for a fresh window, once its addition does not panic. -/
theorem windowElapsed_eq (h : WindowFits w target) :
    windowElapsed now (w.windowStart target) = .ok (decide (WindowExpired now w target)) := by
  unfold windowElapsed
  have hadd : (w.windowStart target + day).toNat = (w.windowStart target).toNat + day.toNat := by
    rw [BitVec.toNat_add, Nat.mod_eq_of_lt h]
  by_cases h0 : w.windowStart target = 0
  · rw [if_pos h0]
    exact congrArg Except.ok (decide_eq_true (Or.inl h0)).symm
  · rw [if_neg h0, checkedAdd_eq_ok.mpr hadd]
    refine congrArg Except.ok (decide_eq_decide.mpr ?_)
    rw [BitVec.le_def, hadd, Timestamp.word_toNat, WindowExpired, or_iff_right h0]

/-- The world once the window of a mint has been chosen. -/
private theorem opened_eq :
    (if decide (WindowExpired now w target) = true then
      { w with
        windowStart := Function.update w.windowStart target now.word
        windowSpentWei := Function.update w.windowSpentWei target 0 } else w)
      = { w with
        windowStart := Function.update w.windowStart target (startFor now w target)
        windowSpentWei := Function.update w.windowSpentWei target (spentFor now w target) } := by
  unfold startFor spentFor
  by_cases h : WindowExpired now w target
  · simp only [h, decide_true, if_true]
  · simp only [h, decide_false, Bool.false_eq_true, if_false, Function.update_eq_self]

theorem consumeRollingWindow_eq (h : WindowFits w target) :
    consumeRollingWindow now target capWei value w =
      spend capWei value (spentFor now w target) fun total =>
        { w with
          windowStart := Function.update w.windowStart target (startFor now w target)
          windowSpentWei := Function.update w.windowSpentWei target total } := by
  unfold consumeRollingWindow spend
  rw [windowElapsed_eq h]
  simp only [bind, Except.bind, opened_eq, Function.update_self, Function.update_idem]

/-- The accounting itself never over- or underflows, as long as the window end
fits in a word. -/
theorem consumeRollingWindow_ne_panic (h : WindowFits w target) :
    consumeRollingWindow now target capWei value w ≠ .error .panicArithmetic := by
  rw [consumeRollingWindow_eq h]
  obtain ⟨remaining, hspend⟩ := spend_eq capWei value
    (spentFor now w target) fun total => { w with
      windowStart := Function.update w.windowStart target (startFor now w target)
      windowSpentWei := Function.update w.windowSpentWei target total }
  rw [hspend]
  split <;> simp

theorem consumed_of_eq_ok (h : WindowFits w target)
    (hc : consumeRollingWindow now target capWei value w = .ok w') :
    Consumed now target capWei value w w' := by
  rw [consumeRollingWindow_eq h] at hc
  obtain ⟨remaining, hspend⟩ := spend_eq capWei value
    (spentFor now w target) fun total => { w with
      windowStart := Function.update w.windowStart target (startFor now w target)
      windowSpentWei := Function.update w.windowSpentWei target total }
  rw [hspend] at hc
  split at hc
  · rename_i hle
    rw [Except.ok.injEq] at hc
    exact ⟨hle, hc.symm⟩
  · simp at hc

/-! ### The functions -/

/-- The allowlist entry a call is checked against. -/
def entryFor (w : World) (target : Address) (data : Bytes) : Allowlist :=
  w.allowlist target (selectorOf data)

/-- The word of `data` at the entry's `recipientOffset`, as an address. -/
def recipientIn (data : Bytes) (entry : Allowlist) : Address :=
  addressOf (calldataload data entry.recipientOffset.toNat)

theorem extractRecipient_eq_ok {offset : UInt256} {a : Address} :
    extractRecipient data offset = .ok a ↔
      offset.toNat + 32 < 2 ^ 256 ∧ offset.toNat + 32 ≤ data.length ∧
        a = addressOf (calldataload data offset.toNat) := by
  unfold extractRecipient
  simp only [bind, bind_eq_ok, revertIf_eq_ok, checkedAdd_eq_ok, pure, Except.pure,
    Except.ok.injEq, exists_const, not_lt]
  have h32 : (32 : UInt256).toNat = 32 := rfl
  rw [h32]
  constructor
  · rintro ⟨past, hpast, hlen, rfl⟩
    have := past.isLt
    exact ⟨by omega, by omega, rfl⟩
  · rintro ⟨hfit, hlen, rfl⟩
    refine ⟨BitVec.ofNat 256 (offset.toNat + 32), ?_, ?_, rfl⟩ <;>
      rw [BitVec.toNat_ofNat, Nat.mod_eq_of_lt hfit]
    exact hlen

/-- Everything an `executeMint` that makes its external call has checked, and
the world in which it makes it. -/
structure Executed (owner : Address) (now : Timestamp) (msg : Msg) (target : Address)
    (data : Bytes) (value : UInt256) (w w' : World) : Prop where
  sender : msg.sender = w.operator
  unlocked : w.reentrancyStatus ≠ ENTERED
  selector : 4 ≤ data.length
  allowed : (entryFor w target data).allowed = true
  offsetFits : (entryFor w target data).recipientOffset.toNat + 32 < 2 ^ 256
  longEnough : (entryFor w target data).recipientOffset.toNat + 32 ≤ data.length
  recipient : recipientIn data (entryFor w target data) = owner
  within : value.toNat ≤
    (entryFor w target data).valueCapWei.toNat - (spentFor now w target).toNat
  funded : value.toNat ≤ w.balance
  eq : w' = { w with
    windowStart := Function.update w.windowStart target (startFor now w target)
    windowSpentWei := Function.update w.windowSpentWei target (spentFor now w target + value)
    reentrancyStatus := ENTERED
    balance := w.balance - value.toNat
    log := ⟨msg.sender, now.1, .mintExecuted target (selectorOf data) value owner⟩ :: w.log }

theorem executed_of_eq_ok (hfits : WindowFits w target)
    (h : executeMint owner now msg target data value w = .ok w') :
    Executed owner now msg target data value w w' := by
  simp only [executeMint, bind, bind_eq_ok, revertIf_eq_ok, extractRecipient_eq_ok, pure,
    Except.pure, Except.ok.injEq, exists_const, not_not, not_lt, Bool.not_eq_false] at h
  obtain ⟨hop, hlock, hlen, hallowed, recipient, ⟨hoff, hlong, hrec⟩, howner, w₁, hw₁, hbal, hw'⟩ := h
  have hc := consumed_of_eq_ok (w := { w with reentrancyStatus := ENTERED }) hfits hw₁
  subst howner
  have hw₁' := hc.eq
  subst hw₁'
  exact
    { sender := hop
      unlocked := hlock
      selector := hlen
      allowed := hallowed
      offsetFits := hoff
      longEnough := hlong
      recipient := hrec.symm
      within := hc.within
      funded := hbal
      eq := hw'.symm }

/-! ### The calls -/

/-- The calls that succeed at once, with the world they leave. -/
inductive Settles (owner : Address) (now : Timestamp) (msg : Msg) (w : World) :
    Call → World → Prop
  | receive : Settles owner now msg w .receive (receive now msg w)
  | setOperator {newOperator : Address} (sender : msg.sender = owner)
      (nonzero : newOperator ≠ 0) :
      Settles owner now msg w (.setOperator newOperator)
        { w.emit now msg (.operatorSet w.operator newOperator) with operator := newOperator }
  | revokeOperator (sender : msg.sender = owner) :
      Settles owner now msg w .revokeOperator
        { w.emit now msg (.operatorSet w.operator 0) with operator := 0 }
  | setAllowlist {target : Address} {selector : Bytes4} {allowed : Bool}
      {recipientOffset valueCapWei : UInt256} (sender : msg.sender = owner)
      (nonzero : target ≠ 0) :
      Settles owner now msg w (.setAllowlist target selector allowed recipientOffset valueCapWei)
        { w with
          allowlist := Function.update w.allowlist target
            (Function.update (w.allowlist target) selector
              { allowed, recipientOffset, valueCapWei })
          log := ⟨msg.sender, now.1, .allowlistSet target selector
            { allowed, recipientOffset, valueCapWei }⟩ :: w.log }
  | forceEther {amount : ℕ} :
      Settles owner now msg w (.forceEther amount) { w with balance := w.balance + amount }

/-- The calls that hand control out, with the frame they open. -/
inductive HandsOut (owner : Address) (now : Timestamp) (msg : Msg) (w : World) :
    Call → Pending → World → Prop
  | withdraw {dest : Address} {amount : UInt256} (sender : msg.sender = owner)
      (nonzero : dest ≠ 0) (funded : amount.toNat ≤ w.balance) :
      HandsOut owner now msg w (.withdraw dest amount) (.withdraw dest amount)
        { w with
          balance := w.balance - amount.toNat
          log := ⟨msg.sender, now.1, .withdrawn dest amount⟩ :: w.log }
  | executeMint {target : Address} {data : Bytes} {value : UInt256} {w' : World}
      (executed : Executed owner now msg target data value w w') :
      HandsOut owner now msg w (.executeMint target data value) (.mint target data value) w'

theorem settle_eq_settled {x : Except Error World} : settle x = .settled w' ↔ x = .ok w' := by
  cases x <;> simp [settle]

theorem handOut_eq_outgoing {p p' : Pending} {x : Except Error World} :
    handOut p x = .outgoing w' p' ↔ x = .ok w' ∧ p = p' := by
  cases x <;> simp [handOut]

theorem nonPayable_eq_ok {body : Except Error World} :
    nonPayable msg body = .ok w' ↔ msg.value = 0 ∧ body = .ok w' := by
  simp only [nonPayable, bind, bind_eq_ok, revertIf_eq_ok, exists_const, not_not]

theorem settles_of_handle {c : Msg × Call}
    (h : (executor owner).handle now c w = .settled w') : Settles owner now c.1 w c.2 w' := by
  obtain ⟨msg, call⟩ := c
  cases call with
  | receive =>
    obtain rfl : receive now msg w = w' := by simpa [executor] using h
    exact .receive
  | setOperator newOperator =>
    simp only [executor, settle_eq_settled, nonPayable_eq_ok, setOperator, onlyOwner, bind,
      bind_eq_ok, revertIf_eq_ok, exists_const, not_not, pure, Except.pure, Except.ok.injEq] at h
    obtain ⟨-, hs, hn, rfl⟩ := h
    exact .setOperator hs hn
  | revokeOperator =>
    simp only [executor, settle_eq_settled, nonPayable_eq_ok, revokeOperator, onlyOwner, bind,
      bind_eq_ok, revertIf_eq_ok, exists_const, not_not, pure, Except.pure, Except.ok.injEq] at h
    obtain ⟨-, hs, rfl⟩ := h
    exact .revokeOperator hs
  | setAllowlist target selector allowed recipientOffset valueCapWei =>
    simp only [executor, settle_eq_settled, nonPayable_eq_ok, setAllowlist, onlyOwner, bind,
      bind_eq_ok, revertIf_eq_ok, exists_const, not_not, pure, Except.pure, Except.ok.injEq] at h
    obtain ⟨-, hs, hn, rfl⟩ := h
    exact .setAllowlist hs hn
  | withdraw dest amount =>
    simp only [executor, handOut] at h
    split at h <;> cases h
  | executeMint target data value =>
    simp only [executor, handOut] at h
    split at h <;> cases h
  | forceEther amount =>
    obtain rfl : { w with balance := w.balance + amount } = w' := by simpa [executor] using h
    exact .forceEther

theorem handsOut_of_handle {c : Msg × Call} {p : Pending} (hfits : ∀ t, WindowFits w t)
    (h : (executor owner).handle now c w = .outgoing w' p) :
    HandsOut owner now c.1 w c.2 p w' := by
  obtain ⟨msg, call⟩ := c
  cases call with
  | receive => cases h
  | setOperator => simp only [executor, settle] at h; split at h <;> cases h
  | revokeOperator => simp only [executor, settle] at h; split at h <;> cases h
  | setAllowlist => simp only [executor, settle] at h; split at h <;> cases h
  | withdraw dest amount =>
    simp only [executor, handOut_eq_outgoing, nonPayable_eq_ok, withdraw, onlyOwner, bind,
      bind_eq_ok, revertIf_eq_ok, exists_const, not_not, not_lt, pure, Except.pure,
      Except.ok.injEq] at h
    obtain ⟨⟨-, hs, hd, hf, rfl⟩, rfl⟩ := h
    exact .withdraw hs hd hf
  | executeMint target data value =>
    simp only [executor, handOut_eq_outgoing, nonPayable_eq_ok] at h
    obtain ⟨⟨-, hx⟩, rfl⟩ := h
    exact .executeMint (executed_of_eq_ok (hfits target) hx)
  | forceEther amount => cases h

end MintExecutor
