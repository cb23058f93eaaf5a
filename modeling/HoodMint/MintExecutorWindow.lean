/-
The window accounting of the MintExecutor is exact.

`spent target p log` adds up the values of the mints on `target` that the log
records in the blocks whose timestamp meets `p`.  The accounting invariant
`WindowInv` says that `windowSpentWei` is that sum from `windowStart` on, that
no recorded mint lies a day or more past the start of the current window, and
that a target without a window has no mints at all; every call keeps it
(`windowInv_kept`), whatever caps the owner sets and changes.

* `windowAccounting_exact` — the accounting, its rollback, its independence
  between targets and its freedom from overflow, in every reachable state;
* `windowStart_apart` — two different window starts of one target are at least
  24 hours apart.
-/
import HoodMint.MintExecutorSteps

namespace MintExecutor

variable {owner : Address} {now : Timestamp} {msg : Msg} {w w' : World}
  {target : Address} {data : Bytes} {value capWei : UInt256}

/-! ### What the log says was spent -/

/-- The value of the record, if it is a mint on `target`. -/
def Record.mintValue (target : Address) (r : Record) : ℕ :=
  match r.event with
  | .mintExecuted t _ v _ => if t = target then v.toNat else 0
  | _ => 0

/-- The record is a mint on `target`. -/
def Record.IsMint (target : Address) (r : Record) : Prop :=
  match r.event with
  | .mintExecuted t _ _ _ => t = target
  | _ => False

theorem Record.mintValue_of_not_isMint {r : Record} (h : ¬r.IsMint target) :
    r.mintValue target = 0 := by
  unfold Record.IsMint at h
  unfold Record.mintValue
  split <;> simp_all

/-- What was minted on `target` in the blocks whose timestamp meets `p`. -/
def spent (target : Address) (p : ℕ → Prop) [DecidablePred p] : List Record → ℕ
  | [] => 0
  | r :: log => (if p r.timestamp then r.mintValue target else 0) + spent target p log

section Spent

variable {p q : ℕ → Prop} [DecidablePred p] [DecidablePred q] {r : Record} {log : List Record}

theorem spent_cons_of_not_isMint (h : ¬r.IsMint target) :
    spent target p (r :: log) = spent target p log := by
  rw [spent, Record.mintValue_of_not_isMint h, ite_self, Nat.zero_add]

theorem spent_eq_zero (h : ∀ r ∈ log, r.IsMint target → ¬p r.timestamp) :
    spent target p log = 0 := by
  induction log with
  | nil => rfl
  | cons r log ih =>
    have hrest := ih fun r' hr' => h r' (List.mem_cons_of_mem r hr')
    by_cases hm : r.IsMint target
    · rw [spent, if_neg (h r List.mem_cons_self hm), hrest]
    · rw [spent_cons_of_not_isMint hm, hrest]

end Spent

/-! ### The accounting invariant -/

/-- The accounting of one target is what the log says. -/
structure WindowInv (now : Timestamp) (w : World) (target : Address) : Prop where
  started : (w.windowStart target).toNat ≤ now.1
  unused : w.windowStart target = 0 → ∀ r ∈ w.log, ¬r.IsMint target
  recent : ∀ r ∈ w.log, r.IsMint target →
    r.timestamp < (w.windowStart target).toNat + day.toNat
  exact : (w.windowSpentWei target).toNat =
    spent target (fun t => (w.windowStart target).toNat ≤ t) w.log

theorem WindowInv.fits (h : WindowInv now w target) : WindowFits w target := by
  have hs := h.started
  have hn := now.2.2
  have hd : day.toNat = 86400 := rfl
  unfold WindowFits
  omega

/-- An event that is not a mint on `target` leaves its accounting exact. -/
theorem WindowInv.of_not_isMint {r : Record} (h : WindowInv now w target)
    (hlog : w'.log = r :: w.log) (hr : ¬r.IsMint target)
    (hstart : w'.windowStart target = w.windowStart target)
    (hspent : w'.windowSpentWei target = w.windowSpentWei target) :
    WindowInv now w' target where
  started := hstart ▸ h.started
  unused h0 r' hr' := by
    rw [hstart] at h0
    rw [hlog] at hr'
    rcases List.mem_cons.mp hr' with rfl | hr'
    · exact hr
    · exact h.unused h0 r' hr'
  recent r' hr' hm := by
    rw [hlog] at hr'
    rw [hstart]
    rcases List.mem_cons.mp hr' with rfl | hr'
    · exact absurd hm hr
    · exact h.recent r' hr' hm
  exact := by
    rw [hlog, spent_cons_of_not_isMint hr, hstart, hspent]
    exact h.exact

/-- Nothing the log records on `target` lies in a window that is only opened
now. -/
theorem WindowInv.before_fresh (h : WindowInv now w target) (hx : WindowExpired now w target)
    {r : Record} (hr : r ∈ w.log) (hm : r.IsMint target) : r.timestamp < now.1 := by
  rcases hx with h0 | hday
  · exact absurd hm (h.unused h0 r hr)
  · exact lt_of_lt_of_le (h.recent r hr hm) hday

/-- The window of a mint is the one the log gives. -/
theorem WindowInv.spentFor_eq (h : WindowInv now w target) :
    (spentFor now w target).toNat =
      spent target (fun t => (startFor now w target).toNat ≤ t) w.log := by
  unfold spentFor startFor
  by_cases hx : WindowExpired now w target
  · rw [if_pos hx, if_pos hx, Timestamp.word_toNat]
    refine (spent_eq_zero fun r hr hm => ?_).symm
    have := h.before_fresh hx hr hm
    omega
  · rw [if_neg hx, if_neg hx]
    exact h.exact

theorem startFor_le (h : WindowInv now w target) : (startFor now w target).toNat ≤ now.1 := by
  unfold startFor
  split
  · rw [Timestamp.word_toNat]
  · exact h.started

theorem startFor_ne_zero : startFor now w target ≠ 0 := by
  intro h0
  unfold startFor at h0
  split at h0
  · have hpos := now.2.1
    have hz : now.word.toNat = (0 : UInt256).toNat := congrArg BitVec.toNat h0
    rw [Timestamp.word_toNat] at hz
    exact absurd hz hpos.ne'
  · rename_i hx
    exact hx (Or.inl h0)

/-- Every mint on `target`, this one included, is less than a day past the
start of the window it is accounted in. -/
theorem WindowInv.recent_startFor (h : WindowInv now w target) {r : Record} (hr : r ∈ w.log)
    (hm : r.IsMint target) : r.timestamp < (startFor now w target).toNat + day.toNat := by
  unfold startFor
  split
  · rename_i hx
    have := h.before_fresh hx hr hm
    rw [Timestamp.word_toNat]
    omega
  · exact h.recent r hr hm

theorem now_lt_startFor : now.1 < (startFor now w target).toNat + day.toNat := by
  have hd : day.toNat = 86400 := rfl
  unfold startFor
  split
  · rw [Timestamp.word_toNat]
    omega
  · rename_i hx
    rw [WindowExpired, not_or, not_le] at hx
    exact hx.2

/-- A mint on `minted` keeps the accounting of every target. -/
theorem WindowInv.executed {minted : Address} (h : ∀ t, WindowInv now w t)
    (hx : Executed owner now msg minted data value w w') (target : Address) :
    WindowInv now w' target := by
  have hw' := hx.eq
  by_cases ht : target = minted
  · subst ht
    have hstart : w'.windowStart target = startFor now w target := by
      rw [hw']; exact Function.update_self ..
    have hspent : (w'.windowSpentWei target).toNat
        = (spentFor now w target).toNat + value.toNat := by
      rw [hw']
      show (Function.update w.windowSpentWei target _ target).toNat = _
      rw [Function.update_self, add_toNat_of_le_sub hx.within]
    have hlog : w'.log = ⟨msg.sender, now.1,
        .mintExecuted target (selectorOf data) value owner⟩ :: w.log := by rw [hw']
    refine ⟨hstart ▸ startFor_le (h target), fun h0 => ?_, fun r hr hm => ?_, ?_⟩
    · exact absurd (hstart ▸ h0) startFor_ne_zero
    · rw [hlog] at hr
      rw [hstart]
      rcases List.mem_cons.mp hr with rfl | hr
      · exact now_lt_startFor
      · exact (h target).recent_startFor hr hm
    · rw [hlog, hspent, (h target).spentFor_eq, spent, hstart,
        if_pos (startFor_le (h target)), Nat.add_comm]
      simp only [Record.mintValue, if_true]
  · refine (h target).of_not_isMint (congrArg World.log hw') (fun hm => ht (Eq.symm hm)) ?_ ?_
    · rw [hw']; exact Function.update_of_ne ht ..
    · rw [hw']; exact Function.update_of_ne ht ..

/-- The accounting of every target is exact. -/
def Accounted (now : Timestamp) (w : World) : Prop := ∀ target, WindowInv now w target

theorem Accounted.settles {call : Call} (h : Accounted now w)
    (hs : Settles owner now msg w call w') : Accounted now w' := by
  intro target
  cases hs with
  | receive => exact (h target).of_not_isMint rfl (fun hm => hm) rfl rfl
  | setOperator => exact (h target).of_not_isMint rfl (fun hm => hm) rfl rfl
  | revokeOperator => exact (h target).of_not_isMint rfl (fun hm => hm) rfl rfl
  | setAllowlist => exact (h target).of_not_isMint rfl (fun hm => hm) rfl rfl
  | forceEther =>
    exact ⟨(h target).started, (h target).unused, (h target).recent, (h target).exact⟩

theorem Accounted.handsOut {call : Call} {p : Pending} (h : Accounted now w)
    (hs : HandsOut owner now msg w call p w') : Accounted now w' := by
  cases hs with
  | withdraw => exact fun target => (h target).of_not_isMint rfl (fun hm => hm) rfl rfl
  | executeMint executed => exact WindowInv.executed h executed

theorem accounted_kept (owner : Address) (φ : Machine → Label → Prop) :
    Rollback.Machine.Kept (executor owner) φ Accounted where
  advance {t t' w} ht h target :=
    ⟨le_trans (h target).started (Timestamp.le_def.mp ht), (h target).unused,
      (h target).recent, (h target).exact⟩
  settled _ h hc := h.settles (settles_of_handle hc)
  outgoing _ h hc := h.handsOut (handsOut_of_handle (fun t => (h t).fits) hc)
  resume {t w p} h := by
    cases p with
    | withdraw => exact h
    | mint =>
      exact fun target =>
        ⟨(h target).started, (h target).unused, (h target).recent, (h target).exact⟩

theorem accounted_of_construct {prefunded : ℕ} (h : construct owner prefunded = .ok w) :
    Accounted now w := by
  simp only [construct, bind, bind_eq_ok, pure, Except.pure, Except.ok.injEq] at h
  obtain ⟨-, -, rfl⟩ := h
  intro target
  refine ⟨Nat.zero_le _, ?_, ?_, rfl⟩ <;> simp

theorem Run.accounted {φ : Machine → Label → Prop} {m : Machine} (h : Run owner φ m) :
    Accounted m.now m.world := by
  obtain ⟨t, prefunded, w, hw, hr⟩ := h
  exact (accounted_kept owner φ).of_reach hr rfl (accounted_of_construct hw)

/-! ### Window starts -/

/-- Every window of `w` is the one `w₀` had, its first one, or starts 24 hours
or more after it. -/
def Apart (w₀ w : World) : Prop :=
  ∀ target, w.windowStart target = w₀.windowStart target ∨ w₀.windowStart target = 0 ∨
    (w₀.windowStart target).toNat + day.toNat ≤ (w.windowStart target).toNat

theorem Apart.of_eq {w₀ : World} (h : Apart w₀ w) (hs : w'.windowStart = w.windowStart) :
    Apart w₀ w' := by
  intro target
  rw [hs]
  exact h target

theorem Apart.executed {w₀ : World} (h : Apart w₀ w)
    (hx : Executed owner now msg target data value w w') : Apart w₀ w' := by
  intro t
  rw [hx.eq]
  show Function.update w.windowStart target (startFor now w target) t = _ ∨ _ ∨
    _ ≤ (Function.update w.windowStart target (startFor now w target) t).toNat
  by_cases ht : t = target
  · subst ht
    rw [Function.update_self]
    unfold startFor
    split
    · rename_i hexp
      -- a fresh window: a day after the one `w` has, which `w₀` had or which is later still
      rw [Timestamp.word_toNat]
      refine Or.inr ?_
      rcases h t with heq | h0 | hlate
      · rcases hexp with h0 | hday
        · exact Or.inl (heq ▸ h0)
        · exact Or.inr (heq ▸ hday)
      · exact Or.inl h0
      · rcases hexp with hz | hday
        · have hzero : (w.windowStart t).toNat = 0 := by rw [hz]; rfl
          have hd : day.toNat = 86400 := rfl
          omega
        · exact Or.inr (by omega)
    · exact h t
  · rw [Function.update_of_ne ht]
    exact h t

theorem Apart.settles {w₀ : World} {call : Call} (h : Apart w₀ w)
    (hs : Settles owner now msg w call w') : Apart w₀ w' := by
  cases hs <;> exact h.of_eq rfl

theorem Apart.handsOut {w₀ : World} {call : Call} {p : Pending} (h : Apart w₀ w)
    (hs : HandsOut owner now msg w call p w') : Apart w₀ w' := by
  cases hs with
  | withdraw => exact h.of_eq rfl
  | executeMint executed => exact h.executed executed

theorem apart_kept (φ : Machine → Label → Prop) (w₀ : World) :
    Rollback.Machine.Kept (executor owner) φ fun now w => Accounted now w ∧ Apart w₀ w where
  advance ht h := ⟨(accounted_kept owner φ).advance ht h.1, h.2⟩
  settled hφ h hc := ⟨(accounted_kept owner φ).settled hφ h.1 hc, h.2.settles (settles_of_handle hc)⟩
  outgoing hφ h hc := ⟨(accounted_kept owner φ).outgoing hφ h.1 hc,
    h.2.handsOut (handsOut_of_handle (fun t => (h.1 t).fits) hc)⟩
  resume {t w p} h := by
    refine ⟨(accounted_kept owner φ).resume h.1, ?_⟩
    cases p <;> exact h.2.of_eq rfl

/-- **Successive window starts** of a target lie at least 24 hours apart: what
the windows of a settled state become later on. -/
theorem windowStart_apart {m m' : Machine} (hm : Reachable owner m) (hf : m.frames = [])
    (hr : Transition.Reachable (step owner) m m') : Apart m.world m'.world :=
  ((apart_kept _ m.world).of_reach hr hf ⟨hm.accounted, fun _ => Or.inl rfl⟩).2

/-! ### Exactness -/

/-- Only an `executeMint` on `target` touches its window. -/
theorem window_of_call {m m' : Machine} {c : Msg × Call} (hm : Reachable owner m)
    (hs : step owner m (.call c) = some m')
    (hne : ∀ data value, c.2 ≠ .executeMint target data value) :
    m'.world.windowStart target = m.world.windowStart target ∧
      m'.world.windowSpentWei target = m.world.windowSpentWei target := by
  obtain ⟨msg, call⟩ := c
  rcases Rollback.Machine.step_call_cases hs with ⟨e, -, rfl⟩ | ⟨w, hc, rfl⟩ | ⟨w, p, hc, rfl⟩
  · exact ⟨rfl, rfl⟩
  · cases settles_of_handle hc <;> exact ⟨rfl, rfl⟩
  · cases handsOut_of_handle (fun t => (hm.accounted t).fits) hc with
    | withdraw => exact ⟨rfl, rfl⟩
    | @executeMint t data value _ executed =>
      have ht : target ≠ t := fun h => hne data value (h ▸ rfl)
      rw [executed.eq]
      exact ⟨Function.update_of_ne ht .., Function.update_of_ne ht ..⟩

/-- **The window accounting is exact**, in every state that any transactions
and any reentrant calls lead to, whatever caps the owner sets and changes. -/
theorem windowAccounting_exact {m : Machine} (hm : Reachable owner m) (target : Address) :
    -- the counter is the sum of the mints since the window started
    (m.world.windowSpentWei target).toNat =
        spent target (fun t => (m.world.windowStart target).toNat ≤ t) m.world.log ∧
    -- from a state with no transaction under way, a later window start is the
    -- same one, the first one, or at least 24 hours later
    (m.frames = [] → ∀ m', Transition.Reachable (step owner) m m' →
      m'.world.windowStart target = m.world.windowStart target ∨
        m.world.windowStart target = 0 ∨
        (m.world.windowStart target).toNat + day.toNat ≤
          (m'.world.windowStart target).toNat) ∧
    -- a call on another target, or of another function, does not touch the window
    (∀ c m', step owner m (.call c) = some m' →
      (∀ data value, c.2 ≠ .executeMint target data value) →
        m'.world.windowStart target = m.world.windowStart target ∧
        m'.world.windowSpentWei target = m.world.windowSpentWei target) ∧
    -- a call that reverts at once, or when its external call has failed, leaves
    -- the windows of every target as they were
    (∀ c e m', (executor owner).handle m.now c m.world = .refused e →
      step owner m (.call c) = some m' → m'.world = m.world) ∧
    (∀ c m₁ m₂ m₃, step owner m (.call c) = some m₁ → m₁.frames ≠ m.frames →
      m₂.frames = m₁.frames → step owner m₂ (.answer false) = some m₃ →
        m₃.world.windowStart = m.world.windowStart ∧
        m₃.world.windowSpentWei = m.world.windowSpentWei) ∧
    -- no addition or subtraction of the accounting over- or underflows
    ∀ capWei value, consumeRollingWindow m.now target capWei value m.world ≠
      .error .panicArithmetic := by
  refine ⟨(hm.accounted target).exact, fun hf m' hr => windowStart_apart hm hf hr target,
    fun c m' hs hne => window_of_call hm hs hne, fun c e m' hc hs => ?_,
    fun c m₁ m₂ m₃ hc hopen hf hs => ?_, fun capWei value => ?_⟩
  · simp only [step, Rollback.Machine.step, hc, Option.some_inj] at hs
    exact hs ▸ rfl
  · rw [(Rollback.Machine.rollback_of_call hc hopen hf hs).1]
    exact ⟨rfl, rfl⟩
  · exact consumeRollingWindow_ne_panic (hm.accounted target).fits

/-- The accounting at work: two mints of one window, then a third 24 hours
after it started. -/
theorem windowAccounting_exact_sample :
    ∃ m, Reachable Sample.owner m ∧ (m.world.windowStart Sample.target).toNat = 88400 ∧
      (m.world.windowSpentWei Sample.target).toNat =
        spent Sample.target (fun t => (m.world.windowStart Sample.target).toNat ≤ t)
          m.world.log ∧
      spent Sample.target (fun _ => True) m.world.log = 12 := by
  obtain ⟨m, hr, hp⟩ := Transition.exists_reachable_of_run (step Sample.owner) Sample.start
    (Sample.setup ++ Sample.mint ⟨2000, by decide⟩ 3 ++ Sample.mint ⟨3000, by decide⟩ 4 ++
      Sample.mint ⟨88400, by decide⟩ 5)
    (fun m => (m.world.windowStart Sample.target).toNat == 88400 &&
      spent Sample.target (fun _ => True) m.world.log == 12) (by decide)
  rw [Bool.and_eq_true, beq_iff_eq, beq_iff_eq] at hp
  have hm := Sample.run_start hr
  exact ⟨m, hm, hp.1, (windowAccounting_exact hm Sample.target).1, hp.2⟩

end MintExecutor
