/-
The 24 hour value cap of the MintExecutor, over sliding intervals.

The window of a target is reset by the first mint that finds it a day old, so
the cap binds each window, not each interval of 24 hours: value spent late in
one window and value spent right after the reset fall into one interval.

* `rollingCap_fails` — with one constant cap, a pair of mints one second apart
  forwards almost twice the cap;
* `rollingCap_of_quietResets` — the cap holds over every interval
  `[a, a + 24 hours)` in the runs where no mint that goes through resets the
  window of the target while value was forwarded to it less than 24 hours ago;
* `spent_day_le_double` — in every run, twice the cap is the worst there is.
-/
import HoodMint.MintExecutorWindow

namespace MintExecutor

variable {owner : Address} {now : Timestamp} {msg : Msg} {w w' : World}
  {target : Address} {data : Bytes} {value cap : UInt256}

/-! ### The runs the cap is about -/

/-- The owner sets the cap `cap` whenever a selector of `target` is allowed. -/
def ConstantCap (owner target : Address) (cap : UInt256) : Label → Prop
  | .call (msg, .setAllowlist t _ allowed _ c) =>
    msg.sender = owner → t = target → allowed = true → c = cap
  | _ => True

/-- The contract lets the call through to its external call. -/
def passes (owner : Address) (m : Machine) (call : Msg × Call) : Bool :=
  match (executor owner).handle m.now call m.world with
  | .outgoing _ _ => true
  | _ => false

/-- No mint that the contract lets through resets the window of `target` while
value was forwarded to it less than 24 hours ago. -/
def QuietReset (owner target : Address) (m : Machine) : Label → Prop
  | .call (msg, .executeMint t data value) =>
    passes owner m (msg, .executeMint t data value) = true → t = target →
      WindowExpired m.now m.world target →
        ∀ r ∈ m.world.log, 0 < r.mintValue target → r.timestamp + day.toNat ≤ m.now.1
  | _ => True

instance : DecidablePred (ConstantCap owner target cap) := fun l => by
  unfold ConstantCap; split <;> infer_instance

instance (m : Machine) : DecidablePred (QuietReset owner target m) := fun l => by
  unfold QuietReset; split <;> infer_instance

/-! ### Sums over intervals -/

section Spent

variable {p q : ℕ → Prop} [DecidablePred p] [DecidablePred q] {log : List Record}

theorem spent_mono
    (h : ∀ r ∈ log, 0 < r.mintValue target → p r.timestamp → q r.timestamp) :
    spent target p log ≤ spent target q log := by
  induction log with
  | nil => exact le_rfl
  | cons r log ih =>
    have hrest := ih fun r' hr' => h r' (List.mem_cons_of_mem r hr')
    have hr := h r List.mem_cons_self
    rw [spent, spent]
    by_cases hv : 0 < r.mintValue target
    · by_cases hp : p r.timestamp
      · rw [if_pos hp, if_pos (hr hv hp)]
        omega
      · rw [if_neg hp]
        omega
    · have h0 : r.mintValue target = 0 := by omega
      rw [h0, ite_self, ite_self]
      omega

theorem spent_le_add {p₁ p₂ : ℕ → Prop} [DecidablePred p₁] [DecidablePred p₂]
    (h : ∀ t, p t → p₁ t ∨ p₂ t) :
    spent target p log ≤ spent target p₁ log + spent target p₂ log := by
  induction log with
  | nil => exact le_rfl
  | cons r log ih =>
    rw [spent, spent, spent]
    by_cases hp : p r.timestamp
    · rw [if_pos hp]
      rcases h _ hp with h1 | h2
      · rw [if_pos h1]
        omega
      · rw [if_pos h2]
        omega
    · rw [if_neg hp]
      omega

end Spent

/-! ### The allowlist under a constant cap -/

/-- Every allowed selector of `target` has the cap `cap`. -/
def CapIs (target : Address) (cap : UInt256) (w : World) : Prop :=
  ∀ selector, (w.allowlist target selector).allowed = true →
    (w.allowlist target selector).valueCapWei = cap

theorem CapIs.settles {call : Call} (h : CapIs target cap w)
    (hl : ConstantCap owner target cap (.call (msg, call)))
    (hs : Settles owner now msg w call w') : CapIs target cap w' := by
  cases hs with
  | receive => exact h
  | setOperator => exact h
  | revokeOperator => exact h
  | forceEther => exact h
  | @setAllowlist t s allowed offset c sender =>
    intro selector
    show (Function.update w.allowlist t _ target selector).allowed = true →
      (Function.update w.allowlist t _ target selector).valueCapWei = cap
    by_cases ht : target = t
    · subst ht
      by_cases hsel : selector = s
      · subst hsel
        rw [Function.update_self, Function.update_self]
        exact fun ha => hl sender rfl ha
      · rw [Function.update_self, Function.update_of_ne hsel]
        exact h selector
    · rw [Function.update_of_ne ht]
      exact h selector

theorem CapIs.of_eq (h : CapIs target cap w) (hs : w'.allowlist = w.allowlist) :
    CapIs target cap w' := by
  intro selector
  rw [hs]
  exact h selector

/-- A mint on `target` keeps the window within the cap. -/
theorem Executed.within_cap (h : CapIs target cap w) (hs : (w.windowSpentWei target).toNat ≤ cap.toNat)
    (hx : Executed owner now msg target data value w w') :
    (spentFor now w target).toNat + value.toNat ≤ cap.toNat := by
  have hcap := h _ hx.allowed
  have hw := hx.within
  rw [entryFor, hcap] at hw
  have hle : (spentFor now w target).toNat ≤ cap.toNat := by
    unfold spentFor
    split
    · exact Nat.zero_le _
    · exact hs
  omega

/-! ### Twice the cap, always -/

/-- The accounting under a constant cap: one window is within the cap, and so
is what was spent in the day before it started. -/
structure CapInv (target : Address) (cap : UInt256) (w : World) : Prop where
  capIs : CapIs target cap w
  window : (w.windowSpentWei target).toNat ≤ cap.toNat
  before : ∀ a, (w.windowStart target).toNat ≤ a + day.toNat →
    spent target (fun t => a ≤ t ∧ t < (w.windowStart target).toNat) w.log ≤ cap.toNat
  double : ∀ a, spent target (fun t => a ≤ t ∧ t < a + day.toNat) w.log ≤ 2 * cap.toNat

theorem CapInv.of_not_isMint {r : Record} (h : CapInv target cap w) (hlog : w'.log = r :: w.log)
    (hr : ¬r.IsMint target) (hcap : CapIs target cap w')
    (hstart : w'.windowStart target = w.windowStart target)
    (hspent : w'.windowSpentWei target = w.windowSpentWei target) : CapInv target cap w' where
  capIs := hcap
  window := hspent ▸ h.window
  before a ha := by
    rw [hlog, spent_cons_of_not_isMint hr]
    rw [hstart] at ha
    simp only [hstart]
    exact h.before a ha
  double a := by
    rw [hlog, spent_cons_of_not_isMint hr]
    exact h.double a

/-- The log right after a mint on `target`. -/
theorem Executed.spent_log {p : ℕ → Prop} [DecidablePred p]
    (hx : Executed owner now msg target data value w w') :
    spent target p w'.log = (if p now.1 then value.toNat else 0) + spent target p w.log := by
  rw [hx.eq, spent]
  simp only [Record.mintValue, if_true]

theorem Executed.windowStart_eq (hx : Executed owner now msg target data value w w') :
    w'.windowStart target = startFor now w target := by
  rw [hx.eq]
  exact Function.update_self ..

theorem Executed.windowSpent_eq (hx : Executed owner now msg target data value w w') :
    (w'.windowSpentWei target).toNat = (spentFor now w target).toNat + value.toNat := by
  rw [hx.eq]
  show (Function.update w.windowSpentWei target _ target).toNat = _
  rw [Function.update_self, add_toNat_of_le_sub hx.within]

/-- What was spent in the day before the window of a mint lies in one window. -/
theorem CapInv.before_startFor (hw : WindowInv now w target) (h : CapInv target cap w) (a : ℕ)
    (ha : (startFor now w target).toNat ≤ a + day.toNat) :
    spent target (fun t => a ≤ t ∧ t < (startFor now w target).toNat) w.log ≤ cap.toNat := by
  unfold startFor at ha ⊢
  split
  · rename_i hx
    rw [if_pos hx, Timestamp.word_toNat] at ha
    rcases hx with h0 | hday
    · rw [spent_eq_zero fun r hr hm => absurd hm (hw.unused h0 r hr)]
      exact Nat.zero_le _
    · refine le_trans (spent_mono fun r hr hv hp => ?_) (hw.exact ▸ h.window)
      show _ ≤ r.timestamp
      omega
  · rename_i hx
    rw [if_neg hx] at ha
    exact h.before a ha

theorem CapInv.executed (hw : WindowInv now w target) (h : CapInv target cap w)
    (hx : Executed owner now msg target data value w w') : CapInv target cap w' := by
  have hwithin := Executed.within_cap h.capIs h.window hx
  have hsum := hw.spentFor_eq
  have hstart := startFor_le hw
  refine ⟨h.capIs.of_eq (by rw [hx.eq]), ?_, fun a ha => ?_, fun a => ?_⟩
  · rw [hx.windowSpent_eq]
    exact hwithin
  · rw [hx.windowStart_eq] at ha
    simp only [hx.windowStart_eq]
    rw [hx.spent_log, if_neg (by omega), Nat.zero_add]
    exact h.before_startFor hw a ha
  · rw [hx.spent_log]
    by_cases hin : a ≤ now.1 ∧ now.1 < a + day.toNat
    · -- the interval meets the window of this mint and the day before it
      rw [if_pos hin]
      have hsplit : spent target (fun t => a ≤ t ∧ t < a + day.toNat) w.log ≤
          spent target (fun t => a ≤ t ∧ t < (startFor now w target).toNat) w.log +
            spent target (fun t => (startFor now w target).toNat ≤ t) w.log :=
        spent_le_add fun t ht => by omega
      have hbefore := h.before_startFor hw a (by omega)
      omega
    · rw [if_neg hin, Nat.zero_add]
      exact h.double a

theorem CapInv.settles {call : Call} (h : CapInv target cap w)
    (hl : ConstantCap owner target cap (.call (msg, call)))
    (hs : Settles owner now msg w call w') : CapInv target cap w' := by
  have hcap := h.capIs.settles hl hs
  cases hs with
  | receive => exact h.of_not_isMint rfl (fun hm => hm) hcap rfl rfl
  | setOperator => exact h.of_not_isMint rfl (fun hm => hm) hcap rfl rfl
  | revokeOperator => exact h.of_not_isMint rfl (fun hm => hm) hcap rfl rfl
  | setAllowlist => exact h.of_not_isMint rfl (fun hm => hm) hcap rfl rfl
  | forceEther => exact ⟨h.capIs, h.window, h.before, h.double⟩

theorem CapInv.handsOut {call : Call} {p : Pending} (hw : WindowInv now w target)
    (h : CapInv target cap w) (hs : HandsOut owner now msg w call p w') :
    CapInv target cap w' := by
  cases hs with
  | withdraw => exact h.of_not_isMint rfl (fun hm => hm) h.capIs rfl rfl
  | @executeMint t data value _ executed =>
    by_cases ht : t = target
    · subst ht
      exact h.executed hw executed
    · have hne : target ≠ t := fun h => ht h.symm
      refine h.of_not_isMint (congrArg World.log executed.eq) (fun hm => ht hm)
        (h.capIs.of_eq (by rw [executed.eq])) ?_ ?_
      · rw [executed.eq]; exact Function.update_of_ne hne ..
      · rw [executed.eq]; exact Function.update_of_ne hne ..

theorem capInv_kept (φ : Machine → Label → Prop)
    (hφ : ∀ m l, φ m l → ConstantCap owner target cap l) :
    Rollback.Machine.Kept (executor owner) φ fun now w =>
      Accounted now w ∧ CapInv target cap w where
  advance ht h := ⟨(accounted_kept owner φ).advance ht h.1, h.2⟩
  settled hl h hc := ⟨(accounted_kept owner φ).settled hl h.1 hc,
    h.2.settles (hφ _ _ hl) (settles_of_handle hc)⟩
  outgoing hl h hc := ⟨(accounted_kept owner φ).outgoing hl h.1 hc,
    h.2.handsOut (h.1 target) (handsOut_of_handle (fun t => (h.1 t).fits) hc)⟩
  resume {t w p} h := by
    refine ⟨(accounted_kept owner φ).resume h.1, ?_⟩
    cases p <;> exact ⟨h.2.capIs, h.2.window, h.2.before, h.2.double⟩

theorem capInv_of_construct {prefunded : ℕ} (h : construct owner prefunded = .ok w) :
    CapInv target cap w := by
  simp only [construct, bind, bind_eq_ok, pure, Except.pure, Except.ok.injEq] at h
  obtain ⟨-, -, rfl⟩ := h
  exact ⟨fun _ h => absurd h Bool.false_ne_true, Nat.zero_le _, fun _ _ => Nat.zero_le _,
    fun _ => Nat.zero_le _⟩

/-- **Twice the cap** is the most that any 24 hours can cost. -/
theorem spent_day_le_double {m : Machine}
    (hm : Run owner (fun _ l => ConstantCap owner target cap l) m) (a : ℕ) :
    spent target (fun t => a ≤ t ∧ t < a + day.toNat) m.world.log ≤ 2 * cap.toNat := by
  obtain ⟨t, prefunded, w, hw, hr⟩ := hm
  exact ((capInv_kept _ fun _ _ h => h).of_reach hr rfl
    ⟨accounted_of_construct hw, capInv_of_construct hw⟩).2.double a

/-! ### The cap, when every reset is quiet -/

/-- The accounting when resets are quiet: no value lies in the day before the
window, and the cap holds over every interval. -/
structure QuietInv (target : Address) (cap : UInt256) (w : World) : Prop where
  quiet : ∀ r ∈ w.log, 0 < r.mintValue target →
    r.timestamp < (w.windowStart target).toNat →
      r.timestamp + day.toNat ≤ (w.windowStart target).toNat
  rolling : ∀ a, spent target (fun t => a ≤ t ∧ t < a + day.toNat) w.log ≤ cap.toNat

theorem QuietInv.of_not_isMint {r : Record} (h : QuietInv target cap w)
    (hlog : w'.log = r :: w.log) (hr : ¬r.IsMint target)
    (hstart : w'.windowStart target = w.windowStart target) : QuietInv target cap w' where
  quiet r' hr' hv ht := by
    rw [hlog] at hr'
    rw [hstart] at ht ⊢
    rcases List.mem_cons.mp hr' with rfl | hr'
    · exact absurd (Record.mintValue_of_not_isMint hr) hv.ne'
    · exact h.quiet r' hr' hv ht
  rolling a := by
    rw [hlog, spent_cons_of_not_isMint hr]
    exact h.rolling a

/-- Value before the window of a mint is a day older than the window. -/
theorem QuietInv.quiet_startFor (h : QuietInv target cap w)
    (hq : WindowExpired now w target → ∀ r ∈ w.log, 0 < r.mintValue target →
      r.timestamp + day.toNat ≤ now.1)
    {r : Record} (hr : r ∈ w.log) (hv : 0 < r.mintValue target)
    (ht : r.timestamp < (startFor now w target).toNat) :
    r.timestamp + day.toNat ≤ (startFor now w target).toNat := by
  unfold startFor at ht ⊢
  split
  · rename_i hx
    rw [Timestamp.word_toNat]
    exact hq hx r hr hv
  · rename_i hx
    rw [if_neg hx] at ht
    exact h.quiet r hr hv ht

theorem QuietInv.executed (hw : WindowInv now w target) (hc : CapInv target cap w)
    (h : QuietInv target cap w)
    (hq : WindowExpired now w target → ∀ r ∈ w.log, 0 < r.mintValue target →
      r.timestamp + day.toNat ≤ now.1)
    (hx : Executed owner now msg target data value w w') : QuietInv target cap w' := by
  have hwithin := Executed.within_cap hc.capIs hc.window hx
  have hsum := hw.spentFor_eq
  have hstart := startFor_le hw
  refine ⟨fun r hr hv ht => ?_, fun a => ?_⟩
  · rw [hx.windowStart_eq] at ht ⊢
    rw [hx.eq] at hr
    rcases List.mem_cons.mp hr with rfl | hr
    · exact absurd ht (not_lt.mpr hstart)
    · exact h.quiet_startFor hq hr hv ht
  · rw [hx.spent_log]
    by_cases hin : a ≤ now.1 ∧ now.1 < a + day.toNat
    · -- older value is a day before the window, so outside of the interval
      rw [if_pos hin]
      have hold : spent target (fun t => a ≤ t ∧ t < a + day.toNat) w.log ≤
          spent target (fun t => (startFor now w target).toNat ≤ t) w.log := by
        refine spent_mono fun r hr hv ht => ?_
        by_contra hlt
        have := h.quiet_startFor hq hr hv (not_le.mp hlt)
        omega
      omega
    · rw [if_neg hin, Nat.zero_add]
      exact h.rolling a

theorem QuietInv.settles {call : Call} (h : QuietInv target cap w)
    (hs : Settles owner now msg w call w') : QuietInv target cap w' := by
  cases hs with
  | receive => exact h.of_not_isMint rfl (fun hm => hm) rfl
  | setOperator => exact h.of_not_isMint rfl (fun hm => hm) rfl
  | revokeOperator => exact h.of_not_isMint rfl (fun hm => hm) rfl
  | setAllowlist => exact h.of_not_isMint rfl (fun hm => hm) rfl
  | forceEther => exact ⟨h.quiet, h.rolling⟩

theorem QuietInv.handsOut {m : Machine} {call : Call} {p : Pending}
    (hw : WindowInv m.now m.world target) (hc : CapInv target cap m.world)
    (h : QuietInv target cap m.world) (hq : QuietReset owner target m (.call (msg, call)))
    (hpass : passes owner m (msg, call) = true)
    (hs : HandsOut owner m.now msg m.world call p w') : QuietInv target cap w' := by
  cases hs with
  | withdraw => exact h.of_not_isMint rfl (fun hm => hm) rfl
  | @executeMint t data value _ executed =>
    by_cases ht : t = target
    · subst ht
      exact h.executed hw hc (hq hpass rfl) executed
    · refine h.of_not_isMint (congrArg World.log executed.eq) (fun hm => ht hm) ?_
      rw [executed.eq]
      exact Function.update_of_ne (fun h => ht h.symm) ..

/-- The runs with one constant cap and quiet resets. -/
def QuietRun (owner target : Address) (cap : UInt256) (m : Machine) (l : Label) : Prop :=
  ConstantCap owner target cap l ∧ QuietReset owner target m l

instance (m : Machine) : DecidablePred (QuietRun owner target cap m) := fun l => by
  unfold QuietRun; infer_instance

theorem quietInv_kept :
    Rollback.Machine.Kept (executor owner) (QuietRun owner target cap) fun now w =>
      (Accounted now w ∧ CapInv target cap w) ∧ QuietInv target cap w where
  advance ht h :=
    ⟨(capInv_kept (QuietRun owner target cap) fun _ _ h => h.1).advance ht h.1, h.2⟩
  settled hl h hc := ⟨(capInv_kept _ fun _ _ h => h.1).settled hl h.1 hc,
    h.2.settles (settles_of_handle hc)⟩
  outgoing hl h hc := ⟨(capInv_kept _ fun _ _ h => h.1).outgoing hl h.1 hc,
    h.2.handsOut (h.1.1 target) h.1.2 hl.2 (by rw [passes, hc])
      (handsOut_of_handle (fun t => (h.1.1 t).fits) hc)⟩
  resume {t w p} h := by
    refine ⟨(capInv_kept (QuietRun owner target cap) fun _ _ h => h.1).resume h.1, ?_⟩
    cases p <;> exact ⟨h.2.quiet, h.2.rolling⟩

/-- **The rolling cap**, in every run with one constant cap in which no mint that
goes through resets the window of `target` while value was forwarded to it less
than 24 hours ago: every interval of 24 hours stays within the cap. -/
theorem rollingCap_of_quietResets {m : Machine} (hm : Run owner (QuietRun owner target cap) m)
    (a : ℕ) : spent target (fun t => a ≤ t ∧ t < a + day.toNat) m.world.log ≤ cap.toNat := by
  obtain ⟨t, prefunded, w, hw, hr⟩ := hm
  refine (quietInv_kept.of_reach hr rfl
    ⟨⟨accounted_of_construct hw, capInv_of_construct hw⟩, ?_⟩).2.rolling a
  simp only [construct, bind, bind_eq_ok, pure, Except.pure, Except.ok.injEq] at hw
  obtain ⟨-, -, rfl⟩ := hw
  exact ⟨fun r hr => absurd hr List.not_mem_nil, fun _ => Nat.zero_le _⟩

/-- A call without data by one who is not the operator, when the first window is a day old. -/
def Sample.refused : List Label :=
  [.advance ⟨88400, by decide⟩, .call (Sample.fromOwner, .executeMint Sample.target [] 0)]

/-- A run with quiet resets: a stranger is refused when the window is a day old, and the second
window opens two days later. -/
theorem rollingCap_of_quietResets_sample :
    ∃ m, Run Sample.owner (QuietRun Sample.owner Sample.target 10) m ∧
      spent Sample.target (fun _ => True) m.world.log = 19 ∧
      spent Sample.target (fun t => 174800 ≤ t ∧ t < 174800 + day.toNat) m.world.log ≤ 10 := by
  obtain ⟨m, hr, hp⟩ := Transition.exists_reach_of_run (step Sample.owner)
    (QuietRun Sample.owner Sample.target 10) Sample.start
    (Sample.setup ++ Sample.mint ⟨2000, by decide⟩ 1 ++ Sample.mint ⟨88399, by decide⟩ 8 ++
      Sample.refused ++ Sample.mint ⟨174800, by decide⟩ 10)
    (fun m => spent Sample.target (fun _ => True) m.world.log == 19) (by decide) (by decide)
  have hm := Sample.run_start hr
  exact ⟨m, hm, by simpa using hp, rollingCap_of_quietResets hm 174800⟩

/-- With one constant cap of 10 wei, three mints of 1, 9 and 10 wei: the last
two are one second apart, the window being reset between them. -/
theorem rollingCap_fails :
    ¬∀ m, Run Sample.owner (fun _ l => ConstantCap Sample.owner Sample.target 10 l) m →
      ∀ a, spent Sample.target (fun t => a ≤ t ∧ t < a + day.toNat) m.world.log ≤ 10 := by
  intro hclaim
  obtain ⟨m, hr, hp⟩ := Transition.exists_reach_of_run (step Sample.owner)
    (fun _ l => ConstantCap Sample.owner Sample.target 10 l) Sample.start
    (Sample.setup ++ Sample.mint ⟨2000, by decide⟩ 1 ++ Sample.mint ⟨88399, by decide⟩ 9 ++
      Sample.mint ⟨88400, by decide⟩ 10)
    (fun m => spent Sample.target (fun t => 88399 ≤ t ∧ t < 88399 + day.toNat) m.world.log == 19)
    (by decide) (by decide)
  have hle := hclaim m (Sample.run_start hr) 88399
  rw [beq_iff_eq] at hp
  omega

end MintExecutor
