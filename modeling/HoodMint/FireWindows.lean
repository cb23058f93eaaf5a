/-
The windows around the opening of a stage (`packages/core/src/presign.ts`,
`packages/core/src/fire-schedule.ts`).

Two functions cut the local time around the same instant: one decides when a blob is signed, the
other when it is fired.

* `FireWindow` — the settings of both, with what is asked of them;
* `presign_eq_expired`, `firePhase_cases` — what each says at an instant;
* `rank_mono` — the phase only moves on; `exists_fire` — close ticks do not miss the fire phase;
* `windows_agree` — the two agree, and on what has expired exactly for the continue windows that
  do not end before the fire target; `closed_before_target` — a window that does.
-/
import HoodMint.HotLoop
import HoodMint.PresignPass

namespace MintWorker

/-- Leads and windows around the opening of a stage; a blob is to be there when the hot window
begins. -/
structure FireWindow where
  stageStartChainMs : ℤ
  clockOffsetMs : ℤ
  continueForMs : ℤ
  leadMs : ℤ
  hotWindowMs : ℤ
  presignLeadMs : ℤ
  leadMs_nonneg : 0 ≤ leadMs
  hotWindowMs_nonneg : 0 ≤ hotWindowMs
  le_presignLeadMs : leadMs + hotWindowMs ≤ presignLeadMs

/-- The blob there is, and how long it lasts. -/
structure SignedBlob where
  ttlMs : ℤ
  presignedAtMs : Option ℤ
  presignedNonce : Option ℕ
  currentNonce : Option ℕ

namespace FireWindow

variable (w : FireWindow)

def firePhase (now : ℤ) : FirePhase :=
  computeFirePhase
    { stageStartChainMs := w.stageStartChainMs, clockOffsetMs := w.clockOffsetMs, localNowMs := now
      hotWindowMs := w.hotWindowMs, leadMs := w.leadMs, continueForMs := w.continueForMs }

def presign (now : ℤ) (blob : SignedBlob) : PresignDecision :=
  decidePresign
    { stageStartChainMs := w.stageStartChainMs, clockOffsetMs := w.clockOffsetMs, localNowMs := now
      leadMs := w.presignLeadMs, ttlMs := blob.ttlMs, presignedAtMs := blob.presignedAtMs
      presignedNonce := blob.presignedNonce, currentNonce := blob.currentNonce
      continueForMs := w.continueForMs }

/-- The local instant that shots are fired from. -/
def fireTarget : ℤ := w.stageStartChainMs + w.clockOffsetMs - w.leadMs

end FireWindow

/-- The order of the phases. -/
def FirePhase.rank : FirePhase → ℕ
  | .waiting _ => 0
  | .hot _ => 1
  | .fire _ => 2
  | .expired => 3

namespace FireWindow

variable {w : FireWindow} {now now' : ℤ} {blob : SignedBlob}

/-! ### At an instant -/

theorem presign_eq_expired : w.presign now blob = .expired ↔
    w.stageStartChainMs + w.clockOffsetMs + w.continueForMs < now := by
  rw [presign, decidePresign]
  simp only [chainTimeToLocalMs]
  split
  · next h => exact iff_of_true rfl h
  · next h =>
    refine iff_of_false (fun heq => ?_) h
    split_ifs at heq
    split at heq
    · split_ifs at heq
    · cases heq

theorem lt_of_presign_eq_wait {ms : ℤ} (h : w.presign now blob = .wait ms) :
    now < w.stageStartChainMs + w.clockOffsetMs - w.presignLeadMs := by
  rw [presign, decidePresign] at h
  simp only [chainTimeToLocalMs] at h
  split_ifs at h with hexpired hopens
  · exact hopens
  · split at h
    · split_ifs at h
    · cases h

/-- **The phases**, by where the instant lies. -/
theorem firePhase_cases :
    (now < w.fireTarget - w.hotWindowMs ∧ (w.firePhase now).rank = 0) ∨
    (w.fireTarget - w.hotWindowMs ≤ now ∧ now < w.fireTarget ∧ (w.firePhase now).rank = 1) ∨
    (w.fireTarget ≤ now ∧ now ≤ w.stageStartChainMs + w.clockOffsetMs + w.continueForMs ∧
      (w.firePhase now).rank = 2) ∨
    (w.fireTarget ≤ now ∧ w.stageStartChainMs + w.clockOffsetMs + w.continueForMs < now ∧
      (w.firePhase now).rank = 3) := by
  have hphase : w.firePhase now =
      if now < w.fireTarget - w.hotWindowMs then .waiting (w.fireTarget - w.hotWindowMs - now)
      else if now < w.fireTarget then .hot (w.fireTarget - now)
      else if now ≤ w.stageStartChainMs + w.clockOffsetMs + w.continueForMs then
        .fire (now - w.fireTarget)
      else .expired := rfl
  rw [hphase]
  by_cases hwaiting : now < w.fireTarget - w.hotWindowMs
  · rw [if_pos hwaiting]
    exact Or.inl ⟨hwaiting, rfl⟩
  rw [if_neg hwaiting]
  by_cases hhot : now < w.fireTarget
  · rw [if_pos hhot]
    exact Or.inr (Or.inl ⟨not_lt.mp hwaiting, hhot, rfl⟩)
  rw [if_neg hhot]
  by_cases hfire : now ≤ w.stageStartChainMs + w.clockOffsetMs + w.continueForMs
  · rw [if_pos hfire]
    exact Or.inr (Or.inr (Or.inl ⟨not_lt.mp hhot, hfire, rfl⟩))
  · rw [if_neg hfire]
    exact Or.inr (Or.inr (Or.inr ⟨not_lt.mp hhot, not_le.mp hfire, rfl⟩))

theorem rank_eq_three {phase : FirePhase} : phase.rank = 3 ↔ phase = .expired := by
  cases phase <;> simp [FirePhase.rank]

theorem rank_eq_two {phase : FirePhase} : phase.rank = 2 ↔ phase.isFire = true := by
  cases phase <;> simp [FirePhase.rank, FirePhase.isFire]

/-- No blob waits for its window once the hot window has begun. -/
theorem presign_ne_wait {ms : ℤ} (h : 1 ≤ (w.firePhase now).rank)
    (hlast : (w.firePhase now).rank ≤ 2) : w.presign now blob ≠ .wait ms := by
  intro hwait
  have hearly := lt_of_presign_eq_wait hwait
  have hlead := w.le_presignLeadMs
  rcases @firePhase_cases w now with ⟨-, hrank⟩ | ⟨hnow, -⟩ | ⟨hnow, -⟩ | ⟨-, -, hrank⟩
  · omega
  · rw [fireTarget] at hnow
    omega
  · have hhot := w.hotWindowMs_nonneg
    rw [fireTarget] at hnow
    omega
  · omega

/-! ### Along instants -/

/-- **The phase only moves on.** -/
theorem rank_mono (h : now ≤ now') : (w.firePhase now).rank ≤ (w.firePhase now').rank := by
  have hhot := w.hotWindowMs_nonneg
  rcases @firePhase_cases w now with h₁ | h₁ | h₁ | h₁ <;>
    rcases @firePhase_cases w now' with h₂ | h₂ | h₂ | h₂ <;> omega

/-- **Close ticks** that pass the fire target have one in the fire phase. -/
theorem exists_fire {tick : ℕ → ℤ} {n : ℕ}
    (hgap : ∀ k < n, tick (k + 1) - tick k ≤ w.leadMs + w.continueForMs)
    (hstart : tick 0 < w.fireTarget) (hpast : w.fireTarget ≤ tick n) :
    ∃ k ≤ n, (w.firePhase (tick k)).isFire = true := by
  induction n with
  | zero => omega
  | succ n ih =>
    by_cases hbefore : w.fireTarget ≤ tick n
    · obtain ⟨k, hk, hfire⟩ := ih (fun k hk => hgap k (by omega)) hbefore
      exact ⟨k, by omega, hfire⟩
    · -- the first tick at or past the target
      refine ⟨n + 1, le_rfl, rank_eq_two.mp ?_⟩
      have hlast := hgap n (Nat.lt_succ_self n)
      rw [fireTarget] at hbefore
      rcases @firePhase_cases w (tick (n + 1)) with h | h | h | h
      · have hhot := w.hotWindowMs_nonneg
        omega
      · omega
      · exact h.2.2
      · omega

/-! ### Agreement -/

/-- Both say of every instant and blob whether all is past. -/
def AgreeOnExpired (w : FireWindow) : Prop :=
  ∀ now blob, w.presign now blob = .expired ↔ w.firePhase now = .expired

/-- They do exactly when the continue window does not end before the fire target. -/
theorem agreeOnExpired_iff : w.AgreeOnExpired ↔ -w.leadMs ≤ w.continueForMs + 1 := by
  constructor
  · intro hagree
    by_contra hearly
    -- the last instant before the fire target
    have hexpired := (hagree (w.fireTarget - 1) ⟨0, none, none, none⟩).mp
      (presign_eq_expired.mpr (by rw [fireTarget]; omega))
    rcases @firePhase_cases w (w.fireTarget - 1) with h | h | h | h
    · have hrank := rank_eq_three.mpr hexpired
      omega
    · have hrank := rank_eq_three.mpr hexpired
      omega
    · omega
    · omega
  · intro hlate now blob
    rw [presign_eq_expired, ← rank_eq_three]
    have hhot := w.hotWindowMs_nonneg
    have htarget : w.fireTarget = w.stageStartChainMs + w.clockOffsetMs - w.leadMs := rfl
    rcases @firePhase_cases w now with h | h | h | h <;> omega

end FireWindow

/-- **The windows of both functions.**  They agree on what has expired exactly for the continue
windows that do not end before the fire target; no blob waits while the phase is hot or fire; the
phase only moves on; and close ticks do not miss the fire phase. -/
theorem windows_agree (w : FireWindow) :
    (w.AgreeOnExpired ↔ -w.leadMs ≤ w.continueForMs + 1) ∧
    (∀ now blob ms, (w.firePhase now).rank = 1 ∨ (w.firePhase now).isFire = true →
      w.presign now blob ≠ .wait ms) ∧
    (∀ now now', now ≤ now' → (w.firePhase now).rank ≤ (w.firePhase now').rank) ∧
    ∀ (tick : ℕ → ℤ) (n : ℕ), (∀ k < n, tick (k + 1) - tick k ≤ w.leadMs + w.continueForMs) →
      tick 0 < w.fireTarget → w.fireTarget ≤ tick n →
        ∃ k ≤ n, (w.firePhase (tick k)).isFire = true := by
  refine ⟨FireWindow.agreeOnExpired_iff, fun now blob ms hphase => ?_,
    fun now now' h => FireWindow.rank_mono h, fun tick n hgap hstart hpast =>
      FireWindow.exists_fire hgap hstart hpast⟩
  rcases hphase with hhot | hfire
  · exact FireWindow.presign_ne_wait (by omega) (by omega)
  · have hrank := FireWindow.rank_eq_two.mpr hfire
    exact FireWindow.presign_ne_wait (by omega) (by omega)

/-- A stage that is given up a second before it opens, and fired at a tenth of a second before: half
a second before, the blob has expired while the shots are waited for. -/
theorem closed_before_target : ¬∀ w : FireWindow, w.AgreeOnExpired := by
  intro hagree
  have hexpired := hagree
    { stageStartChainMs := 0, clockOffsetMs := 0, continueForMs := -1000, leadMs := 100
      hotWindowMs := 0, presignLeadMs := 100, leadMs_nonneg := by decide
      hotWindowMs_nonneg := by decide, le_presignLeadMs := by decide }
    (-500) ⟨0, none, none, none⟩
  exact absurd (hexpired.mp (by decide)) (by decide)

end MintWorker
