/-
Gaps in the nonces the allocator hands out.

`Backed` says that every nonce from the chain's pending nonce up to what the slot
remembers is free or held.  Every step that meets `Backs` keeps it, so a reservation
never passes over a nonce nobody holds (`reserve_no_gap`).

`Backs` is needed because releasing the highest nonce deletes the reservation that
later releases are checked against: the next lower nonce is then given back to
nobody (`reserve_skips`).
-/
import HoodMint.NonceAllocator

namespace NonceAllocator

variable {d d' : Desk} {walletAddress k : String} {rpcNonce nowMs n m i : ℕ} {c : Call}

/-- Somebody holds `n` under the key `k`. -/
def HasHolder (grants : List Grant) (k : String) (n : ℕ) : Prop :=
  ∃ g ∈ grants, key g.wallet = k ∧ g.released = false ∧ g.nonce = n

/-- The chain has reported a pending nonce above `n` for the key `k`. -/
def Passed (grants : List Grant) (k : String) (n : ℕ) : Prop :=
  ∃ g ∈ grants, key g.wallet = k ∧ n < g.rpcNonce

/-- The call lets no nonce drop out of the allocator's books.  The pending nonce
reported to a reservation does not fall back below one that was passed and that nobody
holds; a nonce given back is one the chain has passed, or the stored reservation is
at or above it, so that the release is not ignored. -/
def Backs (d : Desk) : Call → Prop
  | .reserveNonce walletAddress rpcNonce _ =>
    ∀ g ∈ d.grants, key g.wallet = key walletAddress →
      ∀ m < g.rpcNonce, rpcNonce ≤ m → HasHolder d.grants (key walletAddress) m
  | .releaseNonce i _ =>
    ∀ g ∈ d.grants[i]?, Passed d.grants (key g.wallet) g.nonce ∨
      (g.nonce : ℤ) ≤ (d.alloc (key g.wallet)).highest

instance (grants : List Grant) (k : String) (n : ℕ) : Decidable (HasHolder grants k n) :=
  inferInstanceAs (Decidable (∃ g ∈ _, _))

instance (grants : List Grant) (k : String) (n : ℕ) : Decidable (Passed grants k n) :=
  inferInstanceAs (Decidable (∃ g ∈ _, _))

instance (d : Desk) : DecidablePred (Backs d)
  | .reserveNonce .. => inferInstanceAs (Decidable (∀ g ∈ _, _ → ∀ m < _, _ → _))
  | .releaseNonce .. => inferInstanceAs (Decidable (∀ g ∈ _, _))

namespace Slot

variable {s s' : Slot}

/-- The slot remembers `m` or a nonce above it. -/
def Remembers (s : Slot) (m : ℕ) : Prop := (m : ℤ) ≤ s.highest ∨ ∃ p ∈ s.freed, m ≤ p

theorem remembers_of_lt_next (h : m < s.next rpcNonce nowMs) : m < rpcNonce ∨ s.Remembers m := by
  by_cases hu : ∀ held ∈ s.held, held.atMs + reservationTtlMs < nowMs
  · rw [next_of_not_usable hu] at h
    exact Or.inl h
  · push Not at hu
    obtain ⟨held, hheld, hu⟩ := hu
    rw [next_of_usable hheld hu, lt_sup_iff] at h
    exact h.imp_right fun hlt => Or.inl (le_highest_iff.mpr ⟨held, hheld, Nat.le_of_lt_succ hlt⟩)

/-- What a slot remembers after a reservation it remembered before, or was handed out
just now, or lies below the pending nonce. -/
theorem Reserved.remembers (h : Reserved s rpcNonce nowMs n s') (hm : s'.Remembers m) :
    m < rpcNonce ∨ m = n ∨ s.Remembers m := by
  cases h with
  | reuse mem floor least freed young stale =>
    rcases hm with hle | ⟨p, hp, hle⟩
    · by_cases hkeep : s.usable nowMs = true ∧ (n : ℤ) ≤ s.highest
      · rw [highest, young hkeep.1 hkeep.2] at hle
        exact Or.inr (Or.inr (Or.inl hle))
      · rw [not_and_or, Bool.not_eq_true, not_le] at hkeep
        rw [highest, stale hkeep] at hle
        exact Or.inr (Or.inr (Or.inr ⟨n, mem, Int.ofNat_le.mp hle⟩))
    · exact Or.inr (Or.inr (Or.inr ⟨p, ((freed p).mp hp).1, hle⟩))
  | mint passed freed held =>
    rcases hm with hle | ⟨p, hp, _⟩
    · rw [highest, held] at hle
      rcases (Int.ofNat_le.mp hle).eq_or_lt with he | hlt
      · exact Or.inr (Or.inl he)
      · exact (remembers_of_lt_next hlt).imp_right Or.inr
    · rw [freed] at hp
      exact absurd hp List.not_mem_nil

/-- A free nonce the chain has not passed stays free unless it is the one handed out. -/
theorem Reserved.mem_freed (h : Reserved s rpcNonce nowMs n s') (hm : m ∈ s.freed)
    (hfloor : rpcNonce ≤ m) : m = n ∨ m ∈ s'.freed := by
  cases h with
  | reuse _ _ _ freed => exact or_iff_not_imp_left.mpr fun hne => (freed m).mpr ⟨hm, hfloor, hne⟩
  | mint passed => exact absurd (passed m hm) (not_lt.mpr hfloor)

/-- What a reservation passes over is remembered and not free. -/
theorem Reserved.remembers_of_lt (h : Reserved s rpcNonce nowMs n s') (hfloor : rpcNonce ≤ m)
    (hm : m < n) : s.Remembers m ∧ m ∉ s.freed := by
  cases h with
  | reuse mem _ least => exact ⟨Or.inr ⟨n, mem, hm.le⟩, fun hf => hm.not_ge (least m hf hfloor)⟩
  | mint passed =>
    exact ⟨(remembers_of_lt_next hm).resolve_left (not_lt.mpr hfloor),
      fun hf => (passed m hf).not_ge hfloor⟩

theorem Remembers.of_release (h : (s.release n).Remembers m) : s.Remembers m := by
  rcases h with hle | ⟨p, hp, hle⟩
  · exact Or.inl (le_highest_release.mp hle).1
  · rcases mem_release.mp hp with hp | ⟨rfl, hn⟩
    · exact Or.inr ⟨p, hp, hle⟩
    · exact Or.inl ((Int.ofNat_le.mpr hle).trans hn)

end Slot

section

variable {grants : List Grant} {g₀ : Grant}

theorem HasHolder.append (h : HasHolder grants k n) (g : Grant) : HasHolder (grants ++ [g]) k n := by
  obtain ⟨g', hg', hk⟩ := h
  exact ⟨g', List.mem_append_left _ hg', hk⟩

theorem Passed.append (h : Passed grants k n) (g : Grant) : Passed (grants ++ [g]) k n := by
  obtain ⟨g', hg', hk⟩ := h
  exact ⟨g', List.mem_append_left _ hg', hk⟩

theorem eq_or_mem_set_released {g : Grant} (hg₀ : grants[i]? = some g₀) (hg : g ∈ grants) :
    g = g₀ ∨ g ∈ grants.set i { g₀ with released := true } := by
  obtain ⟨j, hj⟩ := List.mem_iff_getElem?.mp hg
  by_cases hij : i = j
  · subst hij
    exact Or.inl (Option.some_inj.mp (hj.symm.trans hg₀))
  · exact Or.inr (mem_of_mem_eraseIdx (List.mem_eraseIdx_iff_getElem?.mpr ⟨j, Ne.symm hij, hj⟩))

/-- A holder other than the one giving its nonce back keeps it. -/
theorem HasHolder.set_released (hg₀ : grants[i]? = some g₀) (h : HasHolder grants k n) :
    key g₀.wallet = k ∧ g₀.nonce = n ∨
      HasHolder (grants.set i { g₀ with released := true }) k n := by
  obtain ⟨g, hg, hk, hr, hn⟩ := h
  rcases eq_or_mem_set_released hg₀ hg with rfl | hg
  · exact Or.inl ⟨hk, hn⟩
  · exact Or.inr ⟨g, hg, hk, hr, hn⟩

theorem Passed.set_released (hg₀ : grants[i]? = some g₀) (h : Passed grants k n) :
    Passed (grants.set i { g₀ with released := true }) k n := by
  obtain ⟨g, hg, hk, hlt⟩ := h
  rcases eq_or_mem_set_released hg₀ hg with rfl | hg
  · exact ⟨_, List.mem_set (List.getElem?_eq_some_iff.mp hg₀).1 _, hk, hlt⟩
  · exact ⟨g, hg, hk, hlt⟩

end

/-- Every nonce not passed by the chain that the slot remembers is free or held. -/
def Backed (k : String) (d : Desk) : Prop :=
  ∀ m, ¬ Passed d.grants k m → (d.alloc k).Remembers m →
    m ∈ (d.alloc k).freed ∨ HasHolder d.grants k m

theorem Backed.reserve (h : Backed k d)
    (hs : step d (.reserveNonce walletAddress rpcNonce nowMs) = some d') : Backed k d' := by
  obtain ⟨_, rfl⟩ := step_reserve hs
  intro m hp hm
  have hpassed : ¬ Passed d.grants k m := fun hp' => hp (hp'.append _)
  by_cases hw : key walletAddress = k
  · subst hw
    simp only [reserveNonce_self, reserveNonce_fst] at hp hm ⊢
    have hr := Slot.reserved_reserve (d.alloc (key walletAddress)) rpcNonce nowMs
    have hnew := List.mem_append_right d.grants (List.mem_singleton_self
      (⟨walletAddress, ((d.alloc (key walletAddress)).reserve rpcNonce nowMs).1, nowMs, rpcNonce,
        false⟩ : Grant))
    have hfloor : rpcNonce ≤ m := not_lt.mp fun hlt => hp ⟨_, hnew, rfl, hlt⟩
    rcases hr.remembers hm with hlt | rfl | hm
    · exact absurd hlt (not_lt.mpr hfloor)
    · exact Or.inr ⟨_, hnew, rfl, rfl, rfl⟩
    · rcases h m hpassed hm with hf | hh
      · rcases hr.mem_freed hf hfloor with rfl | hf
        · exact Or.inr ⟨_, hnew, rfl, rfl, rfl⟩
        · exact Or.inl hf
      · exact Or.inr (hh.append _)
  · simp only [reserveNonce_of_ne hw] at hm ⊢
    exact (h m hpassed hm).imp_right fun hh => hh.append _

theorem Backed.release (h : Backed k d) (hl : Backs d (.releaseNonce i nowMs))
    (hs : step d (.releaseNonce i nowMs) = some d') : Backed k d' := by
  obtain ⟨g₀, hg₀, _, _, rfl⟩ := step_release hs
  intro m hp hm
  have hpassed : ¬ Passed d.grants k m := fun hp' => hp (hp'.set_released hg₀)
  by_cases hw : key g₀.wallet = k
  · subst hw
    simp only [releaseNonce_self] at hm ⊢
    rcases h m hpassed hm.of_release with hf | hh
    · exact Or.inl (Slot.mem_release.mpr (Or.inl hf))
    · rcases hh.set_released hg₀ with ⟨_, rfl⟩ | hh
      · have hle := (hl g₀ hg₀).resolve_left hpassed
        exact Or.inl (Slot.mem_release.mpr (Or.inr ⟨rfl, hle⟩))
      · exact Or.inr hh
  · simp only [releaseNonce_of_ne hw] at hm ⊢
    refine (h m hpassed hm).imp_right fun hh => ?_
    exact (hh.set_released hg₀).resolve_left fun he => hw he.1

theorem Backed.step (h : Backed k d) (hl : Backs d c) (hs : step d c = some d') : Backed k d' := by
  cases c with
  | reserveNonce => exact h.reserve hs
  | releaseNonce => exact h.release hl hs

theorem backed_of_reach (h : Transition.Reach step Backs start d) : Backed k d := by
  refine h.invariant (fun m _ hm => ?_) fun _ _ _ _ hb hl hs => hb.step hl hs
  rcases hm with hle | ⟨p, hp, _⟩
  · have hempty : (start.alloc k).highest = -1 := rfl
    omega
  · exact absurd hp List.not_mem_nil

/-- **No gap.**  In every run whose calls all meet `Backs`, a reservation passes over no
nonce that nobody holds; once everything has been given back, it returns the chain's
pending nonce. -/
theorem reserve_no_gap (h : Transition.Reach step Backs start d)
    (hl : Backs d (.reserveNonce walletAddress rpcNonce nowMs)) :
    (∀ m, rpcNonce ≤ m → m < (reserveNonce d.alloc walletAddress rpcNonce nowMs).1 →
        HasHolder d.grants (key walletAddress) m) ∧
      ((∀ g ∈ d.grants, key g.wallet = key walletAddress → g.released = true) →
        (reserveNonce d.alloc walletAddress rpcNonce nowMs).1 = rpcNonce) := by
  have hr := Slot.reserved_reserve (d.alloc (key walletAddress)) rpcNonce nowMs
  have hgap : ∀ m, rpcNonce ≤ m → m < (reserveNonce d.alloc walletAddress rpcNonce nowMs).1 →
      HasHolder d.grants (key walletAddress) m := by
    intro m hfloor hm
    obtain ⟨hrem, hfree⟩ := hr.remembers_of_lt hfloor hm
    by_cases hp : Passed d.grants (key walletAddress) m
    · obtain ⟨g, hg, hk, hlt⟩ := hp
      exact hl g hg hk m hlt hfloor
    · exact (backed_of_reach h m hp hrem).resolve_left hfree
  refine ⟨hgap, fun hall => le_antisymm (le_of_not_gt fun hlt => ?_) hr.floor_le⟩
  obtain ⟨g, hg, hk, hheld, _⟩ := hgap rpcNonce le_rfl hlt
  exact absurd (hall g hg hk) (by rw [hheld]; exact Bool.noConfusion)

/-- Two plans of one wallet give their nonces back, the lower one first. -/
theorem reserve_no_gap_lower_first :
    ∃ d, Transition.Reach step Backs start d ∧
      (reserveNonce d.alloc "0xab" 5 0).1 = 5 := by
  obtain ⟨d, hd, hp⟩ := Transition.exists_reach_of_run step Backs start
    [.reserveNonce "0xAb" 5 0, .reserveNonce "0xaB" 5 0, .releaseNonce 0 0, .releaseNonce 1 0]
    (fun d => decide (Backs d (.reserveNonce "0xab" 5 0)) &&
      decide (∀ g ∈ d.grants, key g.wallet = key "0xab" → g.released = true))
    (by decide) (by decide)
  rw [Bool.and_eq_true, decide_eq_true_iff, decide_eq_true_iff] at hp
  exact ⟨d, hd, (reserve_no_gap hd hp.1).2 hp.2⟩

/-- **The allocator leaves a gap.**  Given back in the other order, nonce 5 is ignored:
releasing nonce 6 has deleted the reservation.  The next reservation returns 6 although
nobody holds 5. -/
theorem reserve_skips :
    ∃ d, Transition.Reachable step start d ∧
      (∀ g ∈ d.grants, g.released = true) ∧
      (reserveNonce d.alloc "0xab" 5 0).1 = 6 ∧ ¬ HasHolder d.grants (key "0xab") 5 := by
  obtain ⟨d, hd, hp⟩ := Transition.exists_reachable_of_run step start
    [.reserveNonce "0xAb" 5 0, .reserveNonce "0xaB" 5 0, .releaseNonce 1 0, .releaseNonce 0 0]
    (fun d => decide ((∀ g ∈ d.grants, g.released = true) ∧
      (reserveNonce d.alloc "0xab" 5 0).1 = 6 ∧ ¬ HasHolder d.grants (key "0xab") 5)) (by decide)
  exact ⟨d, hd, of_decide_eq_true hp⟩

end NonceAllocator
