/-
The owner's prompt.

A plan whose wallet has no key on the server is signed by the owner: the pass leaves it
`executing` with an attempt that awaits the signature, and the console turns that row into a
broadcast when the owner's wallet has reported a hash.  Neither the claim nor the gate looks at
an attempt that awaits, and the gate goes on when the chain knows nothing of a hash.

* `OnePrompt` — at most one attempt of the plan awaits a signature, and a further one is created
  only when every hash recorded for the plan has been reported as reverted;
* `MintWorld.Orderly` — the invariant: of the plan's prompts and broadcasts all but the newest
  are broadcasts that have been reported as reverted;
* `prompts_of_reach` — the runs in which the owner answers within the lease, and the chain within
  the grace period;
* `second_prompt` — the owner takes longer than the lease.
-/
import HoodMint.PlanClaims

namespace MintWorker

open Effect Relational Transition

/-! ### Attempts -/

/-- The attempt has prompted the owner for the plan, or is a broadcast of it. -/
def AttemptRow.OfPrompt (planId : String) (r : AttemptRow) : Prop :=
  r.planId = planId ∧ (r.attempt.status = .awaitingSignature ∨ r.attempt.status = .broadcast)

instance (planId : String) : DecidablePred (AttemptRow.OfPrompt planId) :=
  fun _ => (inferInstance : Decidable (_ ∧ (_ ∨ _)))

namespace MintWorld

/-- The prompts and broadcasts of a plan, newest first. -/
def prompts (w : MintWorld) (planId : String) : List AttemptRow :=
  w.attempts.filter fun r => r.OfPrompt planId

/-- The attempts of a plan that await a signature. -/
def awaiting (w : MintWorld) (planId : String) : List AttemptRow :=
  w.attempts.filter fun r => r.planId = planId ∧ r.attempt.status = .awaitingSignature

/-- The broadcast has been reported as reverted. -/
def Refused (w : MintWorld) (r : AttemptRow) : Prop :=
  r.attempt.status = .broadcast ∧ ∃ txHash ∈ r.attempt.txHash, txHash ∈ w.reverted

/-- Of the prompts and broadcasts of the plan all but the newest have been refused, and the
broadcasts have a hash. -/
structure Orderly (planId : String) (w : MintWorld) : Prop where
  earlier : ∀ r ∈ (w.prompts planId).tail, w.Refused r
  hashed : ∀ r ∈ w.prompts planId, r.attempt.status = .broadcast → r.attempt.txHash.isSome = true

end MintWorld

/-- The command records an attempt of the plan in this status. -/
def Cmd.Records (planId : String) (status : AttemptStatus) (c : Cmd) (x : Except Thrown c.Resp) :
    Prop :=
  match c, x with
  | .recordExecutionAttempt id attempt, .ok _ => id = planId ∧ attempt.status = status
  | _, _ => False

/-- The command reads a key or a signer that makes the server sign. -/
def Cmd.ReadsServer (c : Cmd) (x : Except Thrown c.Resp) : Prop :=
  match c, x with
  | .selectWallet _, .ok (some wallet) => wallet.encryptedSigningKey ≠ none
  | .selectSigner _, .ok (some signer) => signer.OnServer
  | _, _ => False

/-- The command puts the plan back to `armed`. -/
def Cmd.Releases (planId : String) : Cmd → Prop
  | .releaseMintPlanToArmed id _ => id = planId
  | _ => False

/-- The clock that the command reads. -/
def Cmd.reading (c : Cmd) (x : Except Thrown c.Resp) : Option ℤ :=
  match c, x with
  | .now, .ok nowMs => some nowMs
  | _, _ => none

instance (planId : String) : DecidablePred (Cmd.Releases planId) := fun c => by
  induction c using Cmd.casesOn with
  | releaseMintPlanToArmed id now => exact (inferInstance : Decidable (id = planId))
  | _ => exact isFalse id

instance (planId : String) (status : AttemptStatus) (c : Cmd) (x : Except Thrown c.Resp) :
    Decidable (c.Records planId status x) := by
  induction c using Cmd.casesOn with
  | recordExecutionAttempt planId' attempt =>
    exact match x with
      | .error _ => isFalse id
      | .ok _ => (inferInstance : Decidable (planId' = planId ∧ attempt.status = status))
  | _ => exact isFalse id

instance (c : Cmd) (x : Except Thrown c.Resp) : Decidable (c.ReadsServer x) := by
  induction c using Cmd.casesOn with
  | selectWallet walletId =>
    exact match x with
      | .error _ => isFalse id
      | .ok none => isFalse id
      | .ok (some wallet) => (inferInstance : Decidable (wallet.encryptedSigningKey ≠ none))
  | selectSigner signerId =>
    exact match x with
      | .error _ => isFalse id
      | .ok none => isFalse id
      | .ok (some signer) => (inferInstance : Decidable signer.OnServer)
  | _ => exact isFalse id

/-! ### The prompts of a plan -/

section

variable {w : MintWorld} {planId : String} {attempt : Attempt}

theorem mem_prompts {r : AttemptRow} :
    r ∈ w.prompts planId ↔ r ∈ w.attempts ∧ r.OfPrompt planId := by
  rw [MintWorld.prompts, List.mem_filter, decide_eq_true_iff]

theorem mem_awaiting {r : AttemptRow} :
    r ∈ w.awaiting planId ↔
      r ∈ w.attempts ∧ r.planId = planId ∧ r.attempt.status = .awaitingSignature := by
  rw [MintWorld.awaiting, List.mem_filter, decide_eq_true_iff]

/-- What awaits is a prompt. -/
theorem awaiting_eq :
    w.awaiting planId =
      (w.prompts planId).filter fun r => r.attempt.status = .awaitingSignature := by
  rw [MintWorld.awaiting, MintWorld.prompts, List.filter_filter]
  refine List.filter_congr fun r _ => ?_
  rw [← Bool.decide_and, decide_eq_decide]
  constructor
  · rintro ⟨hid, hs⟩
    exact ⟨hs, hid, Or.inl hs⟩
  · rintro ⟨hs, hid, _⟩
    exact ⟨hid, hs⟩

/-- Nothing awaits when all are broadcasts. -/
theorem awaiting_eq_nil :
    w.awaiting planId = [] ↔ ∀ r ∈ w.prompts planId, r.attempt.status = .broadcast := by
  rw [List.eq_nil_iff_forall_not_mem]
  constructor
  · intro h r hr
    obtain ⟨hr, hid, hs | hs⟩ := mem_prompts.mp hr
    · exact absurd (mem_awaiting.mpr ⟨hr, hid, hs⟩) (h r)
    · exact hs
  · intro h r hr
    obtain ⟨hr, hid, hs⟩ := mem_awaiting.mp hr
    have hbroadcast := h r (mem_prompts.mpr ⟨hr, hid, Or.inl hs⟩)
    rw [hs] at hbroadcast
    simp at hbroadcast

/-- The newest broadcast is the newest of all, when nothing awaits. -/
theorem latestBroadcast_hash (h : ∀ r ∈ w.prompts planId, r.attempt.status = .broadcast) :
    (w.latestBroadcast planId).bind Prod.fst =
      (w.prompts planId).head?.bind fun r => r.attempt.txHash := by
  have hfind : w.attempts.find? (fun r => r.planId = planId ∧ r.attempt.status = .broadcast) =
      (w.prompts planId).head? := by
    rw [← List.head?_filter, MintWorld.prompts]
    refine congrArg List.head? (List.filter_congr fun r hr => ?_)
    rw [decide_eq_decide]
    constructor
    · rintro ⟨hid, hs⟩
      exact ⟨hid, Or.inr hs⟩
    · rintro ⟨hid, hs⟩
      exact ⟨hid, h r (mem_prompts.mpr ⟨hr, hid, hs⟩)⟩
  rw [MintWorld.latestBroadcast, hfind, Option.bind_map]
  rfl

/-- At most one attempt awaits. -/
theorem MintWorld.Orderly.one (h : w.Orderly planId) : (w.awaiting planId).length ≤ 1 := by
  rw [awaiting_eq]
  cases hp : w.prompts planId with
  | nil => exact Nat.zero_le 1
  | cons r rest =>
    have hrest : rest.filter (fun r => r.attempt.status = .awaitingSignature) = [] := by
      refine List.filter_eq_nil_iff.mpr fun r' hr' haw => ?_
      have hrefused := h.earlier r' (by rw [hp]; exact hr')
      have haw := of_decide_eq_true haw
      rw [hrefused.1] at haw
      simp at haw
    rw [List.filter_cons]
    split
    · rw [hrest]
      exact le_rfl
    · rw [hrest]
      exact Nat.zero_le 1

/-- A further row. -/
theorem prompts_record :
    (w.record planId attempt).prompts planId =
      if attempt.status = .awaitingSignature ∨ attempt.status = .broadcast then
        ⟨w.attempts.length, planId, attempt, w.nowMs⟩ :: w.prompts planId
      else w.prompts planId := by
  show List.filter _ (_ :: _) = _
  rw [List.filter_cons]
  by_cases hs : attempt.status = .awaitingSignature ∨ attempt.status = .broadcast
  · rw [if_pos hs, if_pos (decide_eq_true ⟨rfl, hs⟩)]
    rfl
  · rw [if_neg hs, if_neg fun h => hs (of_decide_eq_true h).2]
    rfl

theorem prompts_record_ne {id : String} (h : id ≠ planId) :
    (w.record id attempt).prompts planId = w.prompts planId := by
  show List.filter _ (_ :: _) = _
  rw [List.filter_cons, if_neg fun hp => h (of_decide_eq_true hp).1]
  rfl

/-- A prompt is added when all broadcasts so far have been refused. -/
theorem MintWorld.Orderly.record (h : w.Orderly planId) (hs : attempt.status = .awaitingSignature)
    (hall : ∀ r ∈ w.prompts planId, w.Refused r) : (w.record planId attempt).Orderly planId := by
  have hp : (w.record planId attempt).prompts planId =
      ⟨w.attempts.length, planId, attempt, w.nowMs⟩ :: w.prompts planId :=
    prompts_record.trans (if_pos (Or.inl hs))
  constructor
  · rw [hp]
    exact hall
  · rw [hp]
    intro r hr hb
    rcases List.mem_cons.mp hr with rfl | hr
    · rw [hs] at hb
      simp at hb
    · exact h.hashed r hr hb

/-- What the owner reports turns at most the newest prompt into a broadcast. -/
theorem prompts_markExecutionAttemptBroadcast {attemptId : ℕ} {txHash : String} :
    (w.markExecutionAttemptBroadcast attemptId txHash).prompts planId =
      (w.prompts planId).map fun r =>
        if r.id = attemptId ∧ r.attempt.status = .awaitingSignature then
          { r with attempt := { r.attempt with status := .broadcast, txHash := some txHash } }
        else r := by
  show List.filter _ (List.map _ _) = _
  rw [List.filter_map, MintWorld.prompts]
  refine congrArg (List.map _) (List.filter_congr fun r _ => ?_)
  rw [Function.comp_apply, decide_eq_decide]
  split
  · next h =>
    constructor
    · exact fun hp => ⟨hp.1, Or.inl h.2⟩
    · exact fun hp => ⟨hp.1, Or.inr rfl⟩
  · exact Iff.rfl

/-- Nothing that awaits, nothing to report. -/
theorem prompts_markExecutionAttemptBroadcast_of_broadcast {attemptId : ℕ} {txHash : String}
    (h : ∀ r ∈ w.prompts planId, r.attempt.status = .broadcast) :
    (w.markExecutionAttemptBroadcast attemptId txHash).prompts planId = w.prompts planId := by
  rw [prompts_markExecutionAttemptBroadcast]
  refine (List.map_congr_left fun r hr => if_neg ?_).trans (List.map_id _)
  rintro ⟨_, hs⟩
  rw [h r hr] at hs
  simp at hs

/-- The owner's report adds nothing that awaits. -/
theorem awaiting_markExecutionAttemptBroadcast {attemptId : ℕ} {txHash : String} :
    ((w.markExecutionAttemptBroadcast attemptId txHash).awaiting planId).length ≤
      (w.awaiting planId).length := by
  show (List.filter _ (List.map _ _)).length ≤ _
  rw [List.filter_map, List.length_map]
  refine (List.monotone_filter_right _ fun r hr => ?_).length_le
  rw [Function.comp_apply, decide_eq_true_iff] at hr
  rw [decide_eq_true_iff]
  split at hr
  · simp at hr
  · exact hr

theorem MintWorld.Orderly.markExecutionAttemptBroadcast {attemptId : ℕ} {txHash : String}
    (h : w.Orderly planId) :
    (w.markExecutionAttemptBroadcast attemptId txHash).Orderly planId := by
  constructor
  · rw [prompts_markExecutionAttemptBroadcast, ← List.map_tail]
    intro r hr
    obtain ⟨r₀, hr₀, rfl⟩ := List.mem_map.mp hr
    have hrefused := h.earlier r₀ hr₀
    have hnot : ¬ (r₀.id = attemptId ∧ r₀.attempt.status = .awaitingSignature) := by
      rintro ⟨_, hs⟩
      rw [hrefused.1] at hs
      simp at hs
    rw [if_neg hnot]
    exact hrefused
  · rw [prompts_markExecutionAttemptBroadcast]
    intro r hr hb
    obtain ⟨r₀, hr₀, rfl⟩ := List.mem_map.mp hr
    split
    · rfl
    · next hnot =>
      rw [if_neg hnot] at hb
      exact h.hashed r₀ hr₀ hb

theorem MintWorld.Refused.mono {w' : MintWorld} {r : AttemptRow} (h : w.Refused r)
    (hr : ∀ txHash ∈ w.reverted, txHash ∈ w'.reverted) : w'.Refused r := by
  obtain ⟨hs, txHash, hhash, hmem⟩ := h
  exact ⟨hs, txHash, hhash, hr txHash hmem⟩

theorem MintWorld.Orderly.mono {w' : MintWorld} (h : w.Orderly planId)
    (hp : w'.prompts planId = w.prompts planId)
    (hr : ∀ txHash ∈ w.reverted, txHash ∈ w'.reverted) : w'.Orderly planId :=
  ⟨hp ▸ fun r hmem => (h.earlier r hmem).mono hr, hp ▸ h.hashed⟩

/-! ### What a command does to the attempts -/

variable {c : Cmd} {x : Except Thrown c.Resp}

/-- Nothing but a prompt or a broadcast changes them. -/
theorem prompts_next (w : MintWorld) (planId : String) (c : Cmd) (x : Except Thrown c.Resp) :
    (mintWorld.next w c x).prompts planId = w.prompts planId ∨
      c.Records planId .awaitingSignature x ∨ c.Records planId .broadcast x := by
  cases c with
  | recordExecutionAttempt id attempt =>
    rcases x with e | _
    · exact Or.inl rfl
    · show (w.record id attempt).prompts planId = _ ∨ _
      by_cases hid : id = planId
      · subst hid
        rw [prompts_record]
        split
        · next hs => exact Or.inr (hs.imp (fun hs => ⟨rfl, hs⟩) fun hs => ⟨rfl, hs⟩)
        · exact Or.inl rfl
      · exact Or.inl (prompts_record_ne hid)
  | claimArmedMintPlan => rcases x with e | _ | plan <;> exact Or.inl rfl
  | getTransactionReceipt => rcases x with e | _ | _ | _ <;> exact Or.inl rfl
  | expireStaleMintPlans => cases x <;> exact Or.inl rfl
  | releaseMintPlanToArmed => cases x <;> exact Or.inl rfl
  | markMintPlanExecuted => cases x <;> exact Or.inl rfl
  | failMintPlanExecution => cases x <;> exact Or.inl rfl
  | savePresignedTx => cases x <;> exact Or.inl rfl
  | clearPresignedTx => cases x <;> exact Or.inl rfl
  | signManagedMintTransaction => cases x <;> exact Or.inl rfl
  | signExecutorTransaction => cases x <;> exact Or.inl rfl
  | _ => exact Or.inl rfl

theorem reverted_next : ∀ txHash ∈ w.reverted, txHash ∈ (mintWorld.next w c x).reverted := by
  intro txHash h
  cases c with
  | getTransactionReceipt =>
    rcases x with e | _ | _ | _
    · exact h
    · exact h
    · exact h
    · exact List.mem_cons_of_mem _ h
  | recordExecutionAttempt => cases x <;> exact h
  | claimArmedMintPlan => rcases x with e | _ | plan <;> exact h
  | expireStaleMintPlans => cases x <;> exact h
  | releaseMintPlanToArmed => cases x <;> exact h
  | markMintPlanExecuted => cases x <;> exact h
  | failMintPlanExecution => cases x <;> exact h
  | savePresignedTx => cases x <;> exact h
  | clearPresignedTx => cases x <;> exact h
  | signManagedMintTransaction => cases x <;> exact h
  | signExecutorTransaction => cases x <;> exact h
  | _ => exact h

theorem record_of_records {status : AttemptStatus} (h : c.Records planId status x) :
    ∃ attempt : Attempt, attempt.status = status ∧ mintWorld.next w c x = w.record planId attempt := by
  cases c with
  | recordExecutionAttempt id attempt =>
    rcases x with e | _
    · exact absurd h not_false
    · obtain ⟨rfl, hs⟩ := h
      exact ⟨attempt, hs, rfl⟩
  | _ => exact absurd h not_false

/-! ### What a pass knows of the prompts -/

/-- Nothing awaits, what the gate has been told is about the newest broadcast, and it has not
gone on without an answer. -/
structure MintWorld.Watch (w : MintWorld) (planId : String) (t : ClaimState) : Prop where
  closed : ∀ r ∈ w.prompts planId, r.attempt.status = .broadcast
  told : ∀ hash ∈ t.asked, hash = ((w.prompts planId).head?.bind fun r => r.attempt.txHash) ∧
    (t.outcome = .reverted → ∃ txHash ∈ hash, txHash ∈ w.reverted)
  inTime : t.late = false

variable {t : ClaimState}

theorem MintWorld.Watch.mono {w' : MintWorld} {t' : ClaimState} (h : w.Watch planId t)
    (hp : w'.prompts planId = w.prompts planId) (hr : ∀ txHash ∈ w.reverted, txHash ∈ w'.reverted)
    (hasked : t'.asked = t.asked) (houtcome : t'.outcome = t.outcome) (hlate : t'.late = t.late) :
    w'.Watch planId t' := by
  refine ⟨hp ▸ h.closed, ?_, hlate.trans h.inTime⟩
  rw [hp, hasked, houtcome]
  intro hash hmem
  obtain ⟨heq, hrev⟩ := h.told hash hmem
  refine ⟨heq, fun ho => ?_⟩
  obtain ⟨txHash, hhash, hmem⟩ := hrev ho
  exact ⟨txHash, hhash, hr txHash hmem⟩

/-- A pass that holds the plan keeps watch over its prompts, until it prompts itself. -/
theorem MintWorld.Watch.next (h : w.Watch planId t) (hx : mintWorld.allowed w c x)
    (hguard : claimLocal.guard t c) (hheld : t.held = some planId)
    (hclaim : ∀ planId, ¬ c.Claims planId x)
    (hgrace : ∀ nowMs ∈ c.reading x, t.outcome = .unknown → ∀ u ∈ t.graceUntil, nowMs < u)
    (hp : (mintWorld.next w c x).prompts planId = w.prompts planId) :
    (mintWorld.next w c x).Watch planId (claimLocal.next t c x) := by
  have hsame : ∀ t', t'.asked = t.asked → t'.outcome = t.outcome → t'.late = t.late →
      (mintWorld.next w c x).Watch planId t' := fun t' hasked houtcome hlate =>
    h.mono hp reverted_next hasked houtcome hlate
  cases c with
  | claimArmedMintPlan =>
    rcases x with e | _ | plan
    · exact hsame _ rfl rfl rfl
    · exact hsame _ rfl rfl rfl
    · exact absurd rfl (hclaim plan.id)
  | now =>
    rcases x with e | nowMs
    · exact hsame _ rfl rfl rfl
    · refine hsame _ rfl rfl ?_
      -- the gate's clock is read within the grace period
      have hnot : (decide (t.outcome = .unknown) && t.graceUntil.any (· ≤ nowMs)) = false := by
        rw [Bool.and_eq_false_imp]
        intro hunknown
        rw [Option.any_eq_false]
        intro u hu
        exact decide_eq_false (Int.not_le.mpr (hgrace nowMs rfl (of_decide_eq_true hunknown) u hu))
      show (t.late || _) = t.late
      rw [hnot, Bool.or_false]
  | selectLatestBroadcast id =>
    rcases x with e | row
    · exact hsame _ rfl rfl rfl
    · obtain rfl : planId = id := Option.some.inj (hheld.symm.trans hguard)
      obtain rfl : row = w.latestBroadcast planId := hx
      refine ⟨h.closed, ?_, rfl⟩
      rintro hash hmem
      obtain rfl := Option.mem_some_iff.mp hmem
      exact ⟨latestBroadcast_hash h.closed, nofun⟩
  | getTransactionReceipt url txHash =>
    rcases x with e | _ | _ | _
    · exact hsame _ rfl rfl rfl
    · exact hsame _ rfl rfl rfl
    · show w.Watch planId (if t.asked = some (some txHash) then _ else t)
      split
      · exact ⟨h.closed, fun hash hmem => ⟨(h.told hash hmem).1, nofun⟩, h.inTime⟩
      · exact h
    · show (MintWorld.mk ..).Watch planId (if t.asked = some (some txHash) then _ else t)
      split
      · next hasked =>
        refine ⟨h.closed, fun hash hmem => ⟨(h.told hash hmem).1, fun _ => ?_⟩, h.inTime⟩
        obtain rfl : hash = some txHash := Option.some.inj ((Option.mem_def.mp hmem).symm.trans hasked)
        exact ⟨txHash, rfl, List.mem_cons_self⟩
      · exact hsame _ rfl rfl rfl
  | recordExecutionAttempt id attempt =>
    rcases x with e | _
    · exact hsame _ rfl rfl rfl
    · refine hsame _ ?_ ?_ ?_
      · simp only [claimLocal]
        split <;> rfl
      · simp only [claimLocal]
        split <;> rfl
      · simp only [claimLocal]
        split <;> rfl
  | selectWallet => rcases x with e | _ | a <;> exact hsame _ rfl rfl rfl
  | selectSigner => rcases x with e | _ | a <;> exact hsame _ rfl rfl rfl
  | releaseMintPlanToArmed => cases x <;> exact hsame _ rfl rfl rfl
  | markMintPlanExecuted => cases x <;> exact hsame _ rfl rfl rfl
  | failMintPlanExecution => cases x <;> exact hsame _ rfl rfl rfl
  | _ => exact hsame _ rfl rfl rfl

/-- A pass that has not prompted had not before, unless it has just claimed. -/
theorem prompted_of_next (h : (claimLocal.next t c x).prompted = false)
    (hclaim : ∀ planId, ¬ c.Claims planId x) : t.prompted = false := by
  cases c with
  | claimArmedMintPlan =>
    rcases x with e | _ | plan
    · exact h
    · exact h
    · exact absurd rfl (hclaim plan.id)
  | recordExecutionAttempt id attempt =>
    rcases x with e | _
    · exact h
    · simp only [claimLocal] at h
      split at h
      · simp at h
      · exact h
  | getTransactionReceipt url txHash =>
    rcases x with e | _ | status
    · exact h
    · exact h
    · simp only [claimLocal] at h
      split at h
      · exact h
      · exact h
  | selectLatestBroadcast => cases x <;> exact h
  | now => cases x <;> exact h
  | selectWallet => rcases x with e | _ | a <;> exact h
  | selectSigner => rcases x with e | _ | a <;> exact h
  | releaseMintPlanToArmed => cases x <;> exact h
  | markMintPlanExecuted => cases x <;> exact h
  | failMintPlanExecution => cases x <;> exact h
  | _ => exact h

/-- As long as no key and no signer on the server is read, the owner is the one to sign. -/
theorem browser_next (h : t.browser = true) (hread : ¬ c.ReadsServer x) :
    (claimLocal.next t c x).browser = true := by
  cases c with
  | claimArmedMintPlan =>
    rcases x with e | _ | plan
    · exact h
    · exact h
    · rfl
  | selectWallet =>
    rcases x with e | _ | wallet
    · exact h
    · exact h
    · have hkey : wallet.encryptedSigningKey = none := not_not.mp hread
      show (t.browser && wallet.encryptedSigningKey.isNone) = true
      rw [h, hkey]
      rfl
  | selectSigner =>
    rcases x with e | _ | signer
    · exact h
    · exact h
    · have hsigner : ¬ signer.OnServer := hread
      show (t.browser && !decide signer.OnServer) = true
      rw [h, decide_eq_false hsigner]
      rfl
  | recordExecutionAttempt id attempt =>
    rcases x with e | _
    · exact h
    · simp only [claimLocal]
      split
      · exact h
      · exact h
  | getTransactionReceipt url txHash =>
    rcases x with e | _ | status
    · exact h
    · exact h
    · simp only [claimLocal]
      split
      · exact h
      · exact h
  | selectLatestBroadcast => cases x <;> exact h
  | now => cases x <;> exact h
  | releaseMintPlanToArmed => cases x <;> exact h
  | markMintPlanExecuted => cases x <;> exact h
  | failMintPlanExecution => cases x <;> exact h
  | _ => exact h

end

/-! ### Runs -/

namespace MintRun

/-- The plan is signed by the owner: no pass over it reads a key or a signer that makes the
server sign. -/
def BrowserSigned (planId : String) : MintRun ClaimState → MintStep → Prop :=
  OnCommand fun d i c x => c.ReadsServer x → ∀ t ∈ d.passes[i]?, ¬ t.here.MayEnd planId

/-- In time for the plan.

* While another pass holds it, or a prompt of it is open, a claim is asked for within the lease.
* No pass puts it back to `armed` while a prompt of it is open.
* A gate that has asked about its newest broadcast, and has not been told the outcome, reads the
  clock within the grace period. -/
def InTime (planId : String) (d : MintRun ClaimState) (i : ℕ) (c : Cmd) (x : Except Thrown c.Resp) :
    Prop :=
  (∀ e ∈ c.claimAt, d.HeldBeside i planId ∨ d.world.awaiting planId ≠ [] →
    d.world.db.Leased planId e.1 e.2) ∧
  (c.Releases planId → d.world.awaiting planId = []) ∧
  ∀ nowMs ∈ c.reading x, ∀ t ∈ d.passes[i]?, t.here.held = some planId →
    t.here.outcome = .unknown → ∀ u ∈ t.here.graceUntil, nowMs < u

instance (planId : String) (d : MintRun ClaimState) (i : ℕ) (c : Cmd) (x : Except Thrown c.Resp) :
    Decidable (d.InTime planId i c x) :=
  (inferInstance : Decidable ((∀ e ∈ c.claimAt, d.HeldBeside i planId ∨
      d.world.awaiting planId ≠ [] → d.world.db.Leased planId e.1 e.2) ∧
    (c.Releases planId → d.world.awaiting planId = []) ∧
    ∀ nowMs ∈ c.reading x, ∀ t ∈ d.passes[i]?, t.here.held = some planId →
      t.here.outcome = .unknown → ∀ u ∈ t.here.graceUntil, nowMs < u))

/-- The owner answers within the lease, and the chain within the grace period. -/
def AnsweredInTime (planId : String) : MintRun ClaimState → MintStep → Prop :=
  OnCommand fun d i c x => d.InTime planId i c x

/-- **One prompt.**  At most one attempt of the plan awaits a signature; and a step that meets
`φ` creates a further one only when every hash recorded for the plan has been reported as
reverted. -/
structure OnePrompt (config : Config) (φ : MintRun ClaimState → MintStep → Prop) (planId : String)
    (d : MintRun ClaimState) : Prop where
  one : (d.world.awaiting planId).length ≤ 1
  after : ∀ l d', φ d l → claimStep config d l = some d' →
    (d.world.awaiting planId).length < (d'.world.awaiting planId).length →
    ∀ r ∈ d.world.attempts, r.planId = planId → r.attempt.status = .broadcast →
      ∀ txHash ∈ r.attempt.txHash, txHash ∈ d.world.reverted

/-- The claims on the plan are in order, its passes have read that the owner signs, and those
that hold it and have not prompted keep watch over its prompts, which are in order; and while one
is open, the plan has been claimed and not released since. -/
structure Watched (planId : String) (d : MintRun ClaimState) : Prop where
  claims : d.Claims planId
  browser : ∀ t ∈ d.passes, t.here.MayEnd planId → t.here.browser = true
  orderly : d.world.Orderly planId
  watch : ∀ i : ℕ, ∀ t ∈ d.passes[i]?, ¬ t.Done → t.here.held = some planId →
    t.here.prompted = false → d.world.Watch planId t.here
  taken : d.world.awaiting planId ≠ [] → d.world.db.Taken planId

section

variable {planId : String} {config : Config} {d d' : MintRun ClaimState} {c : Cmd}
  {x : Except Thrown c.Resp} {t : ClaimState} {i : ℕ}
  {k : Except Thrown (signature.Resp c) → Worker Unit}

/-- No broadcast is recorded but by the owner. -/
theorem Watched.not_broadcast (h : d.Watched planId) (hi : d.passes[i]? = some ⟨.call c k, t⟩) :
    ¬ c.Records planId .broadcast x := by
  intro hrecords
  have hmem := List.mem_of_getElem? hi
  have hguard : claimLocal.guard t c := (h.claims.safe _ hmem).1
  cases c with
  | recordExecutionAttempt id attempt =>
    rcases x with e | _
    · exact hrecords
    · obtain ⟨rfl, hs⟩ := hrecords
      obtain ⟨hend, hserver⟩ := hguard.2 hs
      have hbrowser : t.browser = true := h.browser _ hmem hend
      rw [hserver] at hbrowser
      simp at hbrowser
  | _ => exact hrecords

/-- A pass that prompts holds the plan, and every broadcast of it has been refused. -/
theorem Watched.prompts (h : d.Watched planId) (hi : d.passes[i]? = some ⟨.call c k, t⟩)
    (hrecords : c.Records planId .awaitingSignature x) :
    t.held = some planId ∧ ∀ r ∈ d.world.prompts planId, d.world.Refused r := by
  have hguard : claimLocal.guard t c := (h.claims.safe _ (List.mem_of_getElem? hi)).1
  have hprompt : t.MayPrompt planId := by
    cases c with
    | recordExecutionAttempt id attempt =>
      rcases x with e | _
      · exact absurd hrecords not_false
      · obtain ⟨rfl, hs⟩ := hrecords
        exact hguard.1 hs
    | _ => exact absurd hrecords not_false
  obtain ⟨hheld, hprompted, hgate⟩ := hprompt
  refine ⟨hheld, ?_⟩
  obtain ⟨hall, htells, hlate⟩ := h.watch i _ hi id hheld hprompted
  have hasked : t.asked.isSome = true := by
    rcases hgate with hnone | ⟨hsome, _⟩
    · rw [hnone]
      rfl
    · exact hsome
  have htold : t.asked = some none ∨ t.outcome = .reverted := by
    rcases hgate with hnone | ⟨_, hrev | hgone⟩
    · exact Or.inl hnone
    · exact Or.inr hrev
    · rw [hlate] at hgone
      simp at hgone
  obtain ⟨hash, hash_mem⟩ := Option.isSome_iff_exists.mp hasked
  obtain ⟨heq, hrev⟩ := htells hash hash_mem
  have hearlier := h.orderly.earlier
  have hhashed := h.orderly.hashed
  cases hp : d.world.prompts planId with
  | nil => exact fun r hr => absurd hr List.not_mem_nil
  | cons r rest =>
    rw [hp] at hearlier hhashed hall heq
    have hnewest : d.world.Refused r := by
      refine ⟨hall r List.mem_cons_self, ?_⟩
      obtain rfl : hash = r.attempt.txHash := heq
      rcases htold with hnone | ho
      · have hsome := hhashed r List.mem_cons_self (hall r List.mem_cons_self)
        rw [hash_mem] at hnone
        rw [Option.some.inj hnone] at hsome
        simp at hsome
      · exact hrev ho
    intro r' hr'
    rcases List.mem_cons.mp hr' with rfl | hr'
    · exact hnewest
    · exact hearlier r' hr'

/-- A pass that comes to hold the plan, or to have ended it, has read that the owner signs. -/
theorem Watched.browser_advance (h : d.Watched planId) (hi : d.passes[i]? = some ⟨.call c k, t⟩)
    (hread : c.ReadsServer x → ¬ t.MayEnd planId) (hend : (claimLocal.next t c x).MayEnd planId) :
    (claimLocal.next t c x).browser = true := by
  have hmem := List.mem_of_getElem? hi
  have hguard : claimLocal.guard t c := (h.claims.safe _ hmem).1
  have hnext : t.MayEnd planId → (claimLocal.next t c x).browser = true := fun hend =>
    browser_next (h.browser _ hmem hend) fun hserver => hread hserver hend
  rcases hend with hheld | hended
  · rcases held_of_next hheld with hc | ⟨hheld, _⟩
    · cases c with
      | claimArmedMintPlan =>
        rcases x with e | _ | plan
        · exact absurd hc not_false
        · exact absurd hc not_false
        · exact rfl
      | _ => exact absurd hc not_false
    · exact hnext (Or.inl hheld)
  · rcases ended_of_next hended with hended | ⟨_, rfl | rfl⟩
    · exact hnext (Or.inr hended)
    · exact hnext hguard
    · exact hnext hguard

/-- A plan with an open prompt is not claimed while the lease runs. -/
theorem Watched.not_claims (h : d.Watched planId) (hx : mintWorld.allowed d.world c x)
    (hin : d.InTime planId i c x) (hopen : d.world.awaiting planId ≠ []) : ¬ c.Claims planId x :=
  not_claims_of_leased hx (h.taken hopen) fun e he => hin.1 e he (Or.inr hopen)

/-- The plan stays claimed while a prompt of it is open. -/
theorem Watched.taken_advance (h : d.Watched planId) (hi : d.passes[i]? = some ⟨.call c k, t⟩)
    (hx : mintWorld.allowed d.world c x) (hin : d.InTime planId i c x)
    (hopen : (mintWorld.next d.world c x).awaiting planId ≠ []) :
    (mintWorld.next d.world c x).db.Taken planId := by
  rcases prompts_next d.world planId c x with hp | hr | hr
  · have hbefore : d.world.awaiting planId ≠ [] := by
      rwa [awaiting_eq, hp, ← awaiting_eq] at hopen
    refine taken_next hx (h.taken hbefore) fun a _ => ?_
    rintro ⟨now, hissues⟩
    cases hissues
    exact hbefore (hin.2.1 rfl)
  · have hheld := (holds_of_call hi).mpr (h.prompts hi hr).1
    obtain ⟨attempt, _, hnext⟩ := record_of_records (w := d.world) hr
    rw [hnext]
    exact h.claims.held i hheld
  · exact absurd hr (h.not_broadcast hi)

/-- The prompts of a plan change only when the pass that holds it prompts. -/
theorem Watched.prompts_kept (h : d.Watched planId) (hi : d.passes[i]? = some ⟨.call c k, t⟩) {j : ℕ}
    (hj : j ≠ i) (hholds : d.Holds j planId) :
    (mintWorld.next d.world c x).prompts planId = d.world.prompts planId := by
  rcases prompts_next d.world planId c x with hp | hr | hr
  · exact hp
  · have hheld := (h.prompts hi hr).1
    exact absurd (h.claims.alone j i hholds ((holds_of_call hi).mpr hheld)) hj
  · exact absurd hr (h.not_broadcast hi)

/-- A pass that has claimed the plan, and has not prompted, keeps watch over its prompts. -/
theorem Watched.watch_advance (h : d.Watched planId) (hi : d.passes[i]? = some ⟨.call c k, t⟩)
    (hx : mintWorld.allowed d.world c x) (hin : d.InTime planId i c x)
    (hheld : (claimLocal.next t c x).held = some planId)
    (hprompted : (claimLocal.next t c x).prompted = false) :
    (mintWorld.next d.world c x).Watch planId (claimLocal.next t c x) := by
  have hguard : claimLocal.guard t c := (h.claims.safe _ (List.mem_of_getElem? hi)).1
  by_cases hc : ∃ planId, c.Claims planId x
  · obtain ⟨_, hc⟩ := hc
    cases c with
    | claimArmedMintPlan =>
      rcases x with e | _ | plan
      · exact absurd hc not_false
      · exact absurd hc not_false
      · have hnil : d.world.awaiting planId = [] := by
          by_contra hopen
          exact h.not_claims hx hin hopen (Option.some.inj hheld)
        exact ⟨awaiting_eq_nil.mp hnil, fun _ hmem => absurd hmem (Option.not_mem_none _), rfl⟩
    | _ => exact absurd hc not_false
  · have hc : ∀ planId, ¬ c.Claims planId x := fun planId hp => hc ⟨planId, hp⟩
    have hprompted₀ := prompted_of_next hprompted hc
    rcases held_of_next hheld with hclaims | ⟨hheld₀, _⟩
    · exact absurd hclaims (hc planId)
    · refine (h.watch i _ hi id hheld₀ hprompted₀).next hx hguard hheld₀ hc
        (fun nowMs hnow => hin.2.2 nowMs hnow _ hi hheld₀) ?_
      rcases prompts_next d.world planId c x with hp | hr | hr
      · exact hp
      · -- having prompted, the pass no longer keeps watch
        cases c with
        | recordExecutionAttempt id attempt =>
          rcases x with e | _
          · exact absurd hr not_false
          · simp only [claimLocal] at hprompted
            rw [if_pos hr.2] at hprompted
            simp at hprompted
        | _ => exact absurd hr not_false
      · exact absurd hr (h.not_broadcast hi)

/-- **Step, commands.** -/
theorem watched_advance (h : d.Watched planId) (hi : d.passes[i]? = some ⟨.call c k, t⟩)
    (hx : mintWorld.allowed d.world c x) (hread : c.ReadsServer x → ¬ t.MayEnd planId)
    (hin : d.InTime planId i c x) :
    (⟨mintWorld.next d.world c x, d.passes.set i ⟨k x, claimLocal.next t c x⟩⟩ :
      MintRun ClaimState).Watched planId := by
  constructor
  · exact claims_advance h.claims hi hx fun e he hheld => hin.1 e he (Or.inl hheld)
  · intro u hu hend
    rcases List.mem_or_eq_of_mem_set hu with hu | rfl
    · exact h.browser u hu hend
    · exact h.browser_advance hi hread hend
  · rcases prompts_next d.world planId c x with hp | hr | hr
    · exact h.orderly.mono hp reverted_next
    · obtain ⟨attempt, hs, hnext⟩ := record_of_records (w := d.world) hr
      show (mintWorld.next d.world c x).Orderly planId
      rw [hnext]
      exact h.orderly.record hs (h.prompts hi hr).2
    · exact absurd hr (h.not_broadcast hi)
  · intro j u hj hlive hheld hprompted
    rcases getElem?_set_cases hj with ⟨rfl, rfl⟩ | ⟨hne, hj⟩
    · exact h.watch_advance hi hx hin hheld hprompted
    · refine (h.watch j u hj hlive hheld hprompted).mono ?_ reverted_next rfl rfl rfl
      exact h.prompts_kept hi hne ⟨u, hj, hlive, hheld⟩
  · exact h.taken_advance hi hx hin

theorem AnsweredInTime.leaseOutlasts {l : MintStep} (h : d.AnsweredInTime planId l) :
    d.LeaseOutlasts planId l := by
  cases l with
  | advance i answer =>
    rw [AnsweredInTime, OnCommand] at h
    rw [LeaseOutlasts, OnCommand]
    split at h
    · exact fun e he hheld => h.1 e he (Or.inl hheld)
    · trivial
  | _ => trivial

/-- **Step.** -/
theorem watched_step {l : MintStep} (h : d.Watched planId) (hsigned : d.BrowserSigned planId l)
    (hin : d.AnsweredInTime planId l) (hs : claimStep config d l = some d') :
    d'.Watched planId := by
  have hclaims := claims_step h.claims hin.leaseOutlasts hs
  -- a pass that starts holds nothing
  have hstart : ∀ p : Worker Unit,
      (⟨d.world, d.passes ++ [⟨p, .idle⟩]⟩ : MintRun ClaimState).Claims planId →
      (⟨d.world, d.passes ++ [⟨p, .idle⟩]⟩ : MintRun ClaimState).Watched planId := by
    intro p hclaims
    refine ⟨hclaims, fun u hu hend => ?_, h.orderly, fun j u hj hlive hheld hprompted => ?_, h.taken⟩
    · rcases List.mem_append.mp hu with hu | hu
      · exact h.browser u hu hend
      · obtain rfl := List.mem_singleton.mp hu
        exact rfl
    · obtain ⟨v, hv, _, _⟩ := holds_append (w := d.world) (p := p) ⟨u, hj, hlive, hheld⟩
      have hlt := (List.getElem?_eq_some_iff.mp hv).1
      rw [Option.mem_def, List.getElem?_append_left hlt] at hj
      exact h.watch j u hj hlive hheld hprompted
  cases l with
  | fire =>
    obtain rfl := Option.some.inj hs
    exact hstart _ hclaims
  | presign localNowMs clockOffsetMs =>
    obtain rfl := Option.some.inj hs
    exact hstart _ hclaims
  | clock nowMs =>
    obtain rfl := Option.some.inj hs
    exact ⟨hclaims, h.browser, ⟨h.orderly.earlier, h.orderly.hashed⟩,
      fun j u hj hlive hheld hprompted =>
        (h.watch j u hj hlive hheld hprompted).mono rfl (fun _ h => h) rfl rfl rfl, h.taken⟩
  | recordSignature attemptId txHash =>
    obtain rfl := Option.some.inj hs
    -- a signature that is reported closes a prompt, and opens none
    refine ⟨hclaims, h.browser, h.orderly.markExecutionAttemptBroadcast, ?_, fun hopen => ?_⟩
    · intro j u hj hlive hheld hprompted
      have hwatch := h.watch j u hj hlive hheld hprompted
      exact hwatch.mono (prompts_markExecutionAttemptBroadcast_of_broadcast hwatch.closed)
        (fun _ h => h) rfl rfl rfl
    · refine h.taken fun hnil => hopen ?_
      have hle := @awaiting_markExecutionAttemptBroadcast d.world planId attemptId txHash
      rw [hnil] at hle
      exact List.length_eq_zero_iff.mp (Nat.le_zero.mp hle)
  | crash i =>
    obtain ⟨t, ht, rfl⟩ := Option.map_eq_some_iff.mp hs
    refine ⟨hclaims, fun u hu hend => ?_, h.orderly, fun j u hj hlive hheld hprompted => ?_, h.taken⟩
    · rcases List.mem_or_eq_of_mem_set hu with hu | rfl
      · exact h.browser u hu hend
      · exact h.browser t (List.mem_of_getElem? ht) hend
    · rcases getElem?_set_cases hj with ⟨rfl, rfl⟩ | ⟨_, hj⟩
      · exact absurd trivial hlive
      · exact h.watch j u hj hlive hheld hprompted
  | statement s =>
    rw [claimStep, step] at hs
    split at hs
    · next hout =>
      obtain rfl := Option.some.inj hs
      refine ⟨hclaims, h.browser, ⟨h.orderly.earlier, h.orderly.hashed⟩,
        fun j u hj hlive hheld hprompted =>
          (h.watch j u hj hlive hheld hprompted).mono rfl (fun _ h => h) rfl rfl rfl,
        fun hopen => (h.taken hopen).exec ?_⟩
      rintro now rfl
      simp [PlanStatement.outside] at hout
    · simp at hs
  | advance i answer =>
    obtain ⟨c, k, here, hi, hx, rfl⟩ := step_advance_cases hs
    exact watched_advance h hi hx (fun hread => hsigned.of_advance hi hread _ hi)
      (OnCommand.of_advance hin hi)

/-- **One prompt, when all answer in time.**  In every run over a plan that the owner signs, in which
he answers a prompt within the lease and the chain knows a recorded hash within the grace period,
there is one prompt at a time, and none for a hash that has not been reported as reverted. -/
theorem prompts_of_reach
    (h : Reach (claimStep config) (fun d l => d.BrowserSigned planId l ∧ d.AnsweredInTime planId l)
      start d) :
    d.OnePrompt config (fun d l => d.BrowserSigned planId l ∧ d.AnsweredInTime planId l) planId := by
  have hwatched : d.Watched planId := by
    refine h.invariant ?_ fun _ _ _ _ hd hl hs => watched_step hd hl.1 hl.2 hs
    refine ⟨claims_start, fun t ht => absurd ht List.not_mem_nil, ⟨fun r hr => ?_, fun r hr => ?_⟩,
      fun i t ht => absurd ht (Option.not_mem_none t), fun hopen => absurd rfl hopen⟩
    · exact absurd hr List.not_mem_nil
    · exact absurd hr List.not_mem_nil
  refine ⟨hwatched.orderly.one, fun l d' hl hs hlt => ?_⟩
  -- a step that leaves the attempts adds no prompt
  have hsame : d'.world.attempts = d.world.attempts → False := by
    intro heq
    rw [MintWorld.awaiting, MintWorld.awaiting, heq] at hlt
    exact absurd hlt (lt_irrefl _)
  cases l with
  | fire =>
    obtain rfl := Option.some.inj hs
    exact (hsame rfl).elim
  | presign =>
    obtain rfl := Option.some.inj hs
    exact (hsame rfl).elim
  | clock =>
    obtain rfl := Option.some.inj hs
    exact (hsame rfl).elim
  | crash =>
    obtain ⟨t, _, rfl⟩ := Option.map_eq_some_iff.mp hs
    exact (hsame rfl).elim
  | statement s =>
    rw [claimStep, step] at hs
    split at hs
    · obtain rfl := Option.some.inj hs
      exact (hsame rfl).elim
    · simp at hs
  | recordSignature =>
    obtain rfl := Option.some.inj hs
    exact absurd hlt (not_lt.mpr awaiting_markExecutionAttemptBroadcast)
  | advance i answer =>
    obtain ⟨c, k, here, hi, hx, rfl⟩ := step_advance_cases hs
    -- a command records no attempt of the plan, a prompt, or a broadcast
    rcases prompts_next d.world planId c (answer c) with hp | hr | hr
    · have hsame : (mintWorld.next d.world c (answer c)).awaiting planId =
          d.world.awaiting planId := by rw [awaiting_eq, awaiting_eq, hp]
      have hlt : (d.world.awaiting planId).length <
          ((mintWorld.next d.world c (answer c)).awaiting planId).length := hlt
      rw [hsame] at hlt
      exact absurd hlt (lt_irrefl _)
    · have hrefused := (hwatched.prompts hi hr).2
      intro r hmem hid hb txHash hhash
      obtain ⟨_, txHash', hhash', hrev⟩ := hrefused r (mem_prompts.mpr ⟨hmem, hid, Or.inr hb⟩)
      obtain rfl := Option.mem_unique hhash hhash'
      exact hrev
    · exact absurd hr (hwatched.not_broadcast hi)

end

instance (planId : String) (d : MintRun ClaimState) : DecidablePred (d.BrowserSigned planId) :=
  (inferInstance : DecidablePred (OnCommand (fun d i c x =>
    c.ReadsServer x → ∀ t ∈ d.passes[i]?, ¬ t.here.MayEnd planId) d))

instance (planId : String) (d : MintRun ClaimState) : DecidablePred (d.AnsweredInTime planId) :=
  (inferInstance : DecidablePred (OnCommand (fun d i c x => d.InTime planId i c x) d))

end MintRun

/-! ### A plan of the owner's wallet -/

namespace Sample

/-- The wallet has no key on the server. -/
def ownerSigns (nowMs : ℤ) : (c : Cmd) → Except Thrown c.Resp
  | .selectWallet _ => .ok (some ⟨"w", "0xab", none⟩)
  | c => answerAt nowMs c

/-- The owner has signed, and the chain reports that his transaction has reverted. -/
def ownerReverted (nowMs : ℤ) : (c : Cmd) → Except Thrown c.Resp
  | .selectLatestBroadcast _ => .ok (some (some "hash", 60000))
  | .getTransactionReceipt .. => .ok (some .reverted)
  | c => ownerSigns nowMs c

/-- The plan is armed; a pass claims it at its instant and prompts the owner. -/
def prompting : List MintStep :=
  arming ++ [.clock 60000, .fire] ++ List.replicate 17 (.advance 0 (ownerSigns 60000))

end Sample

namespace MintRun

/-- The owner signs, his transaction reverts, and he is prompted again. -/
theorem prompts_of_reach_reverted :
    ∃ d, Reach (claimStep Sample.config)
        (fun d l => d.BrowserSigned "p" l ∧ d.AnsweredInTime "p" l) start d ∧
      (d.world.awaiting "p").length = 1 ∧ "hash" ∈ d.world.reverted ∧
      d.OnePrompt Sample.config (fun d l => d.BrowserSigned "p" l ∧ d.AnsweredInTime "p" l) "p" := by
  obtain ⟨d, hr, hp⟩ := exists_reach_of_run (claimStep Sample.config)
    (fun d l => d.BrowserSigned "p" l ∧ d.AnsweredInTime "p" l) start
    (Sample.prompting ++ [.recordSignature 0 "hash", .clock 90001, .fire] ++
      List.replicate 17 (.advance 1 (Sample.ownerReverted 90001)))
    (fun d => decide ((d.world.awaiting "p").length = 1 ∧ "hash" ∈ d.world.reverted))
    (by decide) (by decide)
  obtain ⟨hone, hrev⟩ := of_decide_eq_true hp
  exact ⟨d, hr, hone, hrev, prompts_of_reach hr⟩

/-- **A second prompt.**  The owner has not signed when the lease expires; the next pass claims
the plan and prompts him again. -/
theorem second_prompt :
    ¬ ∀ config d, Reach (claimStep config) (BrowserSigned "p") start d →
      d.OnePrompt config (BrowserSigned "p") "p" := by
  intro hclaim
  obtain ⟨d, hr, hp⟩ := exists_reach_of_run (claimStep Sample.config) (BrowserSigned "p") start
    (Sample.prompting ++ [.clock 90001, .fire] ++
      List.replicate 16 (.advance 1 (Sample.ownerSigns 90001)))
    (fun d => decide ((d.world.awaiting "p").length = 2)) (by decide) (by decide)
  have hone := (hclaim _ d hr).one
  rw [of_decide_eq_true hp] at hone
  exact absurd hone (by decide)

end MintRun

end MintWorker
