/-
Custody safety of the MintExecutor over whole runs.

`Permitted` lists what the owner is promised about an external call made for
the operator: who sends it, which owner record allows it, where its recipient
word lies and what it may cost.  The log carries the history: the operator and
the allowlist of a world are what the newest owner records say
(`ownerSet_kept`), and the reentrancy status says whether a mint frame is open
(`guarded_stable`).

* `custody` — in every reachable state, every external call of `executeMint`
  is permitted, no two of its frames are open, and an `executeMint` that is
  not permitted changes nothing.
-/
import HoodMint.MintExecutorWindow

namespace MintExecutor

variable {owner : Address} {now : Timestamp} {msg : Msg} {w w' : World}

/-! ### What the owner has set -/

/-- `r` is the newest record of `log` that satisfies `p`. -/
def Newest (p : Record → Prop) (log : List Record) (r : Record) : Prop :=
  ∃ newer older, log = newer ++ r :: older ∧ p r ∧ ∀ r' ∈ newer, ¬p r'

theorem Newest.cons_self {p : Record → Prop} {r : Record} (log : List Record) (h : p r) :
    Newest p (r :: log) r :=
  ⟨[], log, rfl, h, by simp⟩

theorem Newest.cons {p : Record → Prop} {log : List Record} {r : Record} (h : Newest p log r)
    {r' : Record} (hr' : ¬p r') : Newest p (r' :: log) r := by
  obtain ⟨newer, older, rfl, hp, hnew⟩ := h
  exact ⟨r' :: newer, older, rfl, hp, List.forall_mem_cons.mpr ⟨hr', hnew⟩⟩

def Record.SetsOperator (r : Record) : Prop :=
  match r.event with
  | .operatorSet _ _ => True
  | _ => False

def Record.SetsEntry (target : Address) (selector : Bytes4) (r : Record) : Prop :=
  match r.event with
  | .allowlistSet t s _ => t = target ∧ s = selector
  | _ => False

/-- `a` is the operator the owner last set. -/
def LastOperator (owner : Address) (log : List Record) (a : Address) : Prop :=
  ∃ r previous, Newest Record.SetsOperator log r ∧ r.sender = owner ∧
    r.event = .operatorSet previous a

/-- `entry` is what the owner last set for the pair. -/
def LastEntry (owner : Address) (log : List Record) (target : Address) (selector : Bytes4)
    (entry : Allowlist) : Prop :=
  ∃ r, Newest (Record.SetsEntry target selector) log r ∧ r.sender = owner ∧
    r.event = .allowlistSet target selector entry

/-- The operator and the allowlist are what the owner's newest records say, or
what the constructor left. -/
structure OwnerSet (owner : Address) (w : World) : Prop where
  operator : w.operator = 0 ∨ LastOperator owner w.log w.operator
  allowlist : ∀ target selector, w.allowlist target selector = {} ∨
    LastEntry owner w.log target selector (w.allowlist target selector)

theorem LastOperator.cons {log : List Record} {a : Address} {r : Record}
    (h : LastOperator owner log a) (hr : ¬r.SetsOperator) : LastOperator owner (r :: log) a := by
  obtain ⟨r', previous, hnew, hs, he⟩ := h
  exact ⟨r', previous, hnew.cons hr, hs, he⟩

theorem LastEntry.cons {log : List Record} {target : Address} {selector : Bytes4}
    {entry : Allowlist} {r : Record} (h : LastEntry owner log target selector entry)
    (hr : ¬r.SetsEntry target selector) : LastEntry owner (r :: log) target selector entry := by
  obtain ⟨r', hnew, hs, he⟩ := h
  exact ⟨r', hnew.cons hr, hs, he⟩

/-- A record that sets nothing changes nothing of what is set. -/
theorem OwnerSet.of_cons {r : Record} (h : OwnerSet owner w) (hlog : w'.log = r :: w.log)
    (hop : ¬r.SetsOperator) (hentry : ∀ target selector, ¬r.SetsEntry target selector)
    (hw : w'.operator = w.operator) (hw' : w'.allowlist = w.allowlist) : OwnerSet owner w' where
  operator := by
    rw [hlog, hw]
    exact h.operator.imp_right fun h => h.cons hop
  allowlist target selector := by
    rw [hlog, hw']
    exact (h.allowlist target selector).imp_right fun h => h.cons (hentry target selector)

theorem OwnerSet.setOperator {a : Address} (h : OwnerSet owner w) (hs : msg.sender = owner) :
    OwnerSet owner { w.emit now msg (.operatorSet w.operator a) with operator := a } where
  operator := Or.inr ⟨_, w.operator, .cons_self _ trivial, hs, rfl⟩
  allowlist target selector :=
    (h.allowlist target selector).imp_right fun h => h.cons fun hr => hr

theorem OwnerSet.setAllowlist {target : Address} {selector : Bytes4} {entry : Allowlist}
    (h : OwnerSet owner w) (hs : msg.sender = owner) :
    OwnerSet owner { w with
      allowlist := Function.update w.allowlist target
        (Function.update (w.allowlist target) selector entry)
      log := ⟨msg.sender, now.1, .allowlistSet target selector entry⟩ :: w.log } where
  operator := h.operator.imp_right fun h => h.cons fun hr => hr
  allowlist t s := by
    show Function.update w.allowlist target _ t s = {} ∨
      LastEntry owner _ t s (Function.update w.allowlist target _ t s)
    by_cases hts : t = target ∧ s = selector
    · obtain ⟨rfl, rfl⟩ := hts
      rw [Function.update_self, Function.update_self]
      exact Or.inr ⟨_, .cons_self _ ⟨rfl, rfl⟩, hs, rfl⟩
    · have hsame : Function.update w.allowlist target
          (Function.update (w.allowlist target) selector entry) t s = w.allowlist t s := by
        by_cases ht : t = target
        · subst ht
          rw [Function.update_self, Function.update_of_ne fun hs => hts ⟨rfl, hs⟩]
        · rw [Function.update_of_ne ht]
      rw [hsame]
      exact (h.allowlist t s).imp_right fun h => h.cons fun hr =>
        hts ⟨Eq.symm hr.1, Eq.symm hr.2⟩

theorem OwnerSet.settles {call : Call} (h : OwnerSet owner w)
    (hs : Settles owner now msg w call w') : OwnerSet owner w' := by
  cases hs with
  | receive => exact h.of_cons rfl (fun hr => hr) (fun _ _ hr => hr) rfl rfl
  | setOperator sender => exact h.setOperator sender
  | revokeOperator sender => exact h.setOperator sender
  | setAllowlist sender => exact h.setAllowlist sender
  | forceEther => exact ⟨h.operator, h.allowlist⟩

theorem OwnerSet.handsOut {call : Call} {p : Pending} (h : OwnerSet owner w)
    (hs : HandsOut owner now msg w call p w') : OwnerSet owner w' := by
  cases hs with
  | withdraw => exact h.of_cons rfl (fun hr => hr) (fun _ _ hr => hr) rfl rfl
  | executeMint executed =>
    exact h.of_cons (congrArg World.log executed.eq) (fun hr => hr) (fun _ _ hr => hr)
      (by rw [executed.eq]) (by rw [executed.eq])

theorem ownerSet_kept (φ : Machine → Label → Prop) :
    Rollback.Machine.Kept (executor owner) φ fun now w => Accounted now w ∧ OwnerSet owner w where
  advance ht h := ⟨(accounted_kept owner φ).advance ht h.1, h.2⟩
  settled hφ h hc := ⟨(accounted_kept owner φ).settled hφ h.1 hc, h.2.settles (settles_of_handle hc)⟩
  outgoing hφ h hc := ⟨(accounted_kept owner φ).outgoing hφ h.1 hc,
    h.2.handsOut (handsOut_of_handle (fun t => (h.1 t).fits) hc)⟩
  resume {t w p} h := by
    refine ⟨(accounted_kept owner φ).resume h.1, ?_⟩
    cases p <;> exact ⟨h.2.operator, h.2.allowlist⟩

theorem Run.ownerSet {φ : Machine → Label → Prop} {m : Machine} (h : Run owner φ m) :
    OwnerSet owner m.world := by
  obtain ⟨t, prefunded, w, hw, hr⟩ := h
  refine ((ownerSet_kept φ).of_reach hr rfl ⟨accounted_of_construct hw, ?_⟩).2
  simp only [construct, bind, bind_eq_ok, pure, Except.pure, Except.ok.injEq] at hw
  obtain ⟨-, -, rfl⟩ := hw
  exact ⟨Or.inl rfl, fun _ _ => Or.inl rfl⟩

/-! ### The reentrancy guard -/

abbrev Frame := Rollback.Frame World Pending

def isMint : Frame → Bool
  | .pending _ (.mint _ _ _) => true
  | _ => false

/-- How many `executeMint` frames are open. -/
def openMints (frames : List Frame) : ℕ := frames.countP isMint

/-- At most one mint frame is open, and the status says whether one is. -/
structure Guarded (w : World) (frames : List Frame) : Prop where
  atMostOne : openMints frames ≤ 1
  status : w.reentrancyStatus = ENTERED ↔ openMints frames = 1

theorem Guarded.settles {call : Call} {frames : List Frame} (h : Guarded w frames)
    (hs : Settles owner now msg w call w') : Guarded w' frames := by
  cases hs <;> exact ⟨h.atMostOne, h.status⟩

theorem Guarded.handsOut {call : Call} {p : Pending} {frames : List Frame} (h : Guarded w frames)
    (hs : HandsOut owner now msg w call p w') : Guarded w' (.pending w p :: frames) := by
  cases hs with
  | withdraw => exact ⟨h.atMostOne, h.status⟩
  | @executeMint target data value _ executed =>
    have hone : openMints (.pending w (.mint target data value) :: frames) =
        openMints frames + 1 := List.countP_cons_of_pos rfl
    have hnone : openMints frames ≠ 1 := fun h1 => executed.unlocked (h.status.mpr h1)
    have hle := h.atMostOne
    refine ⟨by omega, ?_⟩
    rw [executed.eq, hone]
    exact iff_of_true rfl (by omega)

theorem Guarded.commit {f : Frame} {frames : List Frame} (h : Guarded w (f :: frames)) :
    Guarded (f.commit (executor owner) w) frames := by
  match f with
  | .foreign saved => exact ⟨h.atMostOne, h.status⟩
  | .pending saved (.withdraw dest amount) => exact ⟨h.atMostOne, h.status⟩
  | .pending saved (.mint target data value) =>
    have hone : openMints (.pending saved (.mint target data value) :: frames) =
        openMints frames + 1 := List.countP_cons_of_pos rfl
    have hle := h.atMostOne
    refine ⟨by omega, iff_of_false ?_ (by omega)⟩
    show NOT_ENTERED ≠ ENTERED
    decide

theorem guarded_stable (φ : Machine → Label → Prop) :
    Rollback.Machine.Stable (executor owner) φ fun now w frames =>
      Accounted now w ∧ Guarded w frames where
  advance ht h := ⟨(accounted_kept owner φ).advance ht h.1, h.2⟩
  settled hφ h hc := ⟨(accounted_kept owner φ).settled hφ h.1 hc, h.2.settles (settles_of_handle hc)⟩
  outgoing hφ h hc := ⟨(accounted_kept owner φ).outgoing hφ h.1 hc,
    h.2.handsOut (handsOut_of_handle (fun t => (h.1 t).fits) hc)⟩
  enter h := ⟨h.1, h.2.atMostOne, h.2.status⟩
  commit {_ _ f _} h _ := by
    refine ⟨?_, h.2.commit⟩
    cases f with
    | pending => exact (accounted_kept owner φ).resume h.1
    | foreign => exact h.1

theorem Run.guarded {φ : Machine → Label → Prop} {m : Machine} (h : Run owner φ m) :
    Guarded m.world m.frames := by
  obtain ⟨t, prefunded, w, hw, hr⟩ := h
  have hstart : Guarded w [] := by
    simp only [construct, bind, bind_eq_ok, pure, Except.pure, Except.ok.injEq] at hw
    obtain ⟨-, -, rfl⟩ := hw
    refine ⟨Nat.zero_le _, ?_⟩
    show NOT_ENTERED = ENTERED ↔ 0 = 1
    decide
  exact (Rollback.Machine.holds_of_reach (guarded_stable φ) hr
    ⟨accounted_of_construct hw, hstart⟩).top.2

/-! ### Custody -/

/-- What the owner is promised of an external call that `executeMint` makes to
`target` with `data` and `value`, on behalf of `msg`, in the state `m`. -/
structure Permitted (owner : Address) (m : Machine) (msg : Msg) (target : Address)
    (data : Bytes) (value : UInt256) : Prop where
  /-- The caller is the operator the owner last set. -/
  sender : LastOperator owner m.world.log msg.sender
  /-- No other `executeMint` frame is open. -/
  alone : openMints m.frames = 0
  selector : 4 ≤ data.length
  /-- The entry in force is what the owner last set for the pair. -/
  entry : LastEntry owner m.world.log target (selectorOf data) (entryFor m.world target data)
  allowed : (entryFor m.world target data).allowed = true
  offsetFits : (entryFor m.world target data).recipientOffset.toNat + 32 < 2 ^ 256
  longEnough : (entryFor m.world target data).recipientOffset.toNat + 32 ≤ data.length
  /-- The low 160 bits of the word at the entry's offset are the owner. -/
  recipient : recipientIn data (entryFor m.world target data) = owner
  capped : value.toNat ≤ (entryFor m.world target data).valueCapWei.toNat
  funded : value.toNat ≤ m.world.balance

theorem permitted_of_executed {m : Machine} {target : Address} {data : Bytes} {value : UInt256}
    (hm : Reachable owner m)
    (hx : Executed owner m.now msg target data value m.world w') :
    Permitted owner m msg target data value where
  sender := by
    rw [hx.sender]
    refine hm.ownerSet.operator.resolve_left fun h0 => msg.sender_ne_zero ?_
    rw [hx.sender, h0]
  alone := by
    have hle := hm.guarded.atMostOne
    have hne : openMints m.frames ≠ 1 := fun h1 => hx.unlocked (hm.guarded.status.mpr h1)
    omega
  selector := hx.selector
  entry := by
    refine (hm.ownerSet.allowlist target (selectorOf data)).resolve_left fun h0 => ?_
    have hallowed := hx.allowed
    rw [entryFor, h0] at hallowed
    exact absurd hallowed Bool.false_ne_true
  allowed := hx.allowed
  offsetFits := hx.offsetFits
  longEnough := hx.longEnough
  recipient := hx.recipient
  capped := le_trans hx.within (Nat.sub_le _ _)
  funded := hx.funded

/-- **Custody safety.**  In every state that any transactions, with any
calldata and any reentrant calls, lead to: every external call that an
`executeMint` makes is permitted; at most one `executeMint` frame is open; and
an `executeMint` that is not permitted leaves the whole state as it was. -/
theorem custody {m : Machine} (hm : Reachable owner m) :
    (∀ c m' target data value, step owner m (.call c) = some m' →
      m'.frames = .pending m.world (.mint target data value) :: m.frames →
        c.2 = .executeMint target data value ∧ Permitted owner m c.1 target data value) ∧
    openMints m.frames ≤ 1 ∧
    ∀ msg target data value m', step owner m (.call (msg, .executeMint target data value)) = some m' →
      ¬Permitted owner m msg target data value → m' = m := by
  have hfits : ∀ t, WindowFits m.world t := fun t => (hm.accounted t).fits
  refine ⟨fun c m' target data value hs hf => ?_, hm.guarded.atMostOne,
    fun msg target data value m' hs hnot => ?_⟩
  · obtain ⟨msg, call⟩ := c
    rcases Rollback.Machine.step_call_cases hs with ⟨e, -, rfl⟩ | ⟨w, -, rfl⟩ | ⟨w, p, hc, rfl⟩
    · exact absurd hf.symm (List.cons_ne_self _ _)
    · exact absurd hf.symm (List.cons_ne_self _ _)
    · simp only [List.cons.injEq, Rollback.Frame.pending.injEq, true_and, and_true] at hf
      subst hf
      cases handsOut_of_handle hfits hc with
      | executeMint executed => exact ⟨rfl, permitted_of_executed hm executed⟩
  · rcases Rollback.Machine.step_call_cases hs with ⟨e, -, rfl⟩ | ⟨w, hc, rfl⟩ | ⟨w, p, hc, rfl⟩
    · rfl
    · cases settles_of_handle hc
    · cases handsOut_of_handle hfits hc with
      | executeMint executed => exact absurd (permitted_of_executed hm executed) hnot

/-- The set-up deployment makes a mint, and it is permitted. -/
theorem custody_sample :
    ∃ m, Reachable Sample.owner m ∧ openMints m.frames ≤ 1 ∧
      Permitted Sample.owner m Sample.fromOperator Sample.target Sample.calldata 3 := by
  obtain ⟨m, hr, hp⟩ := Transition.exists_reachable_of_run (step Sample.owner) Sample.start
    Sample.setup
    (fun m => ((step Sample.owner m
      (.call (Sample.fromOperator, .executeMint Sample.target Sample.calldata 3))).map
        fun m' => openMints m'.frames) == some 1 && openMints m.frames == 0) (by decide)
  rw [Bool.and_eq_true, beq_iff_eq, beq_iff_eq] at hp
  have hm := Sample.run_start hr
  obtain ⟨-, hone, hsame⟩ := custody hm
  refine ⟨m, hm, hone, ?_⟩
  by_contra hnot
  obtain ⟨m', hs, hopen⟩ := Option.map_eq_some_iff.mp hp.1
  rw [hsame _ _ _ _ m' hs hnot, hp.2] at hopen
  exact absurd hopen (by decide)

end MintExecutor
