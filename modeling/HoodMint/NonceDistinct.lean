/-
Distinctness of the nonces the allocator hands out.

A nonce is `Slot.Covers`ed when it is neither free nor above everything the slot
remembers.  Every step that meets `NoLapse` keeps the nonces held for at most
`reservationTtlMs` covered, so no reservation returns one of them
(`reserve_distinct`).

`NoLapse` is needed because only two of the three branches of `reserveNonce` refresh
the age of the reservation: a reused nonce below it is younger than the reservation
that covers it (`reserve_repeats`).
-/
import HoodMint.NonceAllocator

namespace NonceAllocator

namespace Slot

variable {s s' : Slot} {rpcNonce nowMs n m : ℕ}

/-- `n` is not free, and something the slot remembers lies above it: the next nonce
minted lies further up still. -/
def Covers (s : Slot) (n : ℕ) : Prop :=
  n ∉ s.freed ∧ ((∃ p ∈ s.freed, n < p) ∨ (n : ℤ) ≤ s.highest)

/-- A reservation is stored, and older than `reservationTtlMs`. -/
def Lapsed (s : Slot) (nowMs : ℕ) : Prop :=
  ∃ held ∈ s.held, held.atMs + reservationTtlMs < nowMs

/-- The chain has passed `n`, or a free nonce lies above it. -/
def Outlived (s : Slot) (rpcNonce n : ℕ) : Prop :=
  n < rpcNonce ∨ ∃ p ∈ s.freed, n < p

theorem le_highest_or_outlived (h : s.Covers n) (hl : s.Lapsed nowMs → s.Outlived rpcNonce n) :
    s.Outlived rpcNonce n ∨ s.usable nowMs = true ∧ (n : ℤ) ≤ s.highest := by
  rcases h.2 with hp | hle
  · exact Or.inl (Or.inr hp)
  · obtain ⟨held, hheld, _⟩ := le_highest_iff.mp hle
    by_cases hold : held.atMs + reservationTtlMs < nowMs
    · exact Or.inl (hl ⟨held, hheld, hold⟩)
    · refine Or.inr ⟨?_, hle⟩
      rw [usable_of_held hheld, decide_eq_true_iff]
      exact not_lt.mp hold

/-- The nonce minted is above every covered one. -/
theorem lt_next (hf : ∀ p ∈ s.freed, p < rpcNonce)
    (h : s.Outlived rpcNonce n ∨ s.usable nowMs = true ∧ (n : ℤ) ≤ s.highest) :
    n < s.next rpcNonce nowMs := by
  rcases h with (hlt | ⟨p, hp, hlt⟩) | ⟨hu, hle⟩
  · exact hlt.trans_le le_next
  · exact (hlt.trans (hf p hp)).trans_le le_next
  · obtain ⟨held, hheld, hle⟩ := le_highest_iff.mp hle
    rw [usable_of_held hheld, decide_eq_true_iff] at hu
    rw [next_of_usable hheld hu]
    exact (Nat.lt_succ_of_le hle).trans_le (le_max_right _ _)

/-- A reservation never returns a covered nonce, and keeps it covered. -/
theorem Covers.reserve (h : s.Covers n) (hl : s.Lapsed nowMs → s.Outlived rpcNonce n)
    (hr : Reserved s rpcNonce nowMs m s') : n ≠ m ∧ s'.Covers n := by
  have hc := le_highest_or_outlived h hl
  cases hr with
  | reuse mem floor least freed young stale =>
    refine ⟨fun he => h.1 (he ▸ mem), fun hn => h.1 ((freed n).mp hn).1, ?_⟩
    -- what covered `n` is still free, was just handed out, or is the reservation
    by_cases hkeep : s.usable nowMs = true ∧ (m : ℤ) ≤ s.highest
    · have hhighest : s'.highest = s.highest := by
        rw [highest, young hkeep.1 hkeep.2, highest]
      rcases hc with (hlt | ⟨p, hp, hlt⟩) | ⟨_, hle⟩
      · right; rw [hhighest]; omega
      · by_cases hpm : rpcNonce ≤ p ∧ p ≠ m
        · exact Or.inl ⟨p, (freed p).mpr ⟨hp, hpm⟩, hlt⟩
        · right; rw [hhighest]; omega
      · right; rw [hhighest]; exact hle
    · have hstale : s.usable nowMs = false ∨ s.highest < m := by
        rw [not_and_or, Bool.not_eq_true, not_le] at hkeep
        exact hkeep
      have hhighest : s'.highest = m := by rw [highest, stale hstale]; rfl
      rcases hc with (hlt | ⟨p, hp, hlt⟩) | ⟨hu, hle⟩
      · right; rw [hhighest]; omega
      · by_cases hpm : rpcNonce ≤ p ∧ p ≠ m
        · exact Or.inl ⟨p, (freed p).mpr ⟨hp, hpm⟩, hlt⟩
        · right; rw [hhighest]; omega
      · right
        rw [hhighest]
        exact hle.trans (hstale.resolve_left (by rw [hu]; exact Bool.noConfusion)).le
  | mint passed freed held =>
    have hlt := lt_next passed hc
    refine ⟨hlt.ne, by rw [freed]; exact List.not_mem_nil, Or.inr ?_⟩
    rw [highest, held]
    exact Int.ofNat_le.mpr hlt.le

theorem Reserved.covers (h : Reserved s rpcNonce nowMs n s') : s'.Covers n :=
  ⟨h.not_mem_freed, Or.inr h.le_highest⟩

/-- Giving back a nonce keeps every other one covered: the released nonce itself
takes over from the reservation deleted with it. -/
theorem Covers.release (h : s.Covers n) (hm : n = m → s.highest < m) : (s.release m).Covers n := by
  constructor
  · intro hn
    rcases mem_release.mp hn with hn | ⟨he, hle⟩
    · exact h.1 hn
    · exact absurd (hm he) (not_lt.mpr hle)
  · rcases h.2 with ⟨p, hp, hlt⟩ | hle
    · exact Or.inl ⟨p, mem_release.mpr (Or.inl hp), hlt⟩
    · by_cases he : s.highest = m
      · refine Or.inl ⟨m, mem_release.mpr (Or.inr ⟨rfl, he.ge⟩), lt_of_le_of_ne (by omega) ?_⟩
        intro hn
        exact absurd (hm hn) (by omega)
      · exact Or.inr (le_highest_release.mpr ⟨hle, he⟩)

end Slot

/-- The call leaves no nonce held for at most `reservationTtlMs` uncovered.  A
reservation that finds an older one stored finds each such nonce passed by the chain
or below a free one; a nonce given back is not held by another caller as well, unless
it is above the reservation and the release is ignored. -/
def NoLapse (d : Desk) : Call → Prop
  | .reserveNonce walletAddress rpcNonce nowMs =>
    (∀ held ∈ (d.alloc (key walletAddress)).held, nowMs ≤ held.atMs + reservationTtlMs) ∨
      ∀ g ∈ d.grants, key g.wallet = key walletAddress → g.released = false →
        nowMs ≤ g.atMs + reservationTtlMs →
        (d.alloc (key walletAddress)).Outlived rpcNonce g.nonce
  | .releaseNonce i nowMs =>
    ∀ g ∈ d.grants[i]?, ∀ g' ∈ d.grants.eraseIdx i, key g'.wallet = key g.wallet →
      g'.released = false → nowMs ≤ g'.atMs + reservationTtlMs → g'.nonce = g.nonce →
      (d.alloc (key g.wallet)).highest < g.nonce

instance (s : Slot) (rpcNonce n : ℕ) : Decidable (s.Outlived rpcNonce n) :=
  inferInstanceAs (Decidable (_ ∨ _))

instance (d : Desk) : DecidablePred (NoLapse d)
  | .reserveNonce .. => inferInstanceAs (Decidable (_ ∨ _))
  | .releaseNonce .. => inferInstanceAs (Decidable (∀ g ∈ _, _))

/-- Every nonce of the wallet held for at most `reservationTtlMs` is covered. -/
def Covered (k : String) (d : Desk) : Prop :=
  ∀ g, d.Holds k g → d.nowMs ≤ g.atMs + reservationTtlMs → (d.alloc k).Covers g.nonce

variable {d d' : Desk} {walletAddress k : String} {rpcNonce nowMs i : ℕ} {c : Call}

theorem NoLapse.outlived {g : Grant} (hl : NoLapse d (.reserveNonce walletAddress rpcNonce nowMs))
    (hg : d.Holds (key walletAddress) g) (hy : nowMs ≤ g.atMs + reservationTtlMs)
    (h : (d.alloc (key walletAddress)).Lapsed nowMs) :
    (d.alloc (key walletAddress)).Outlived rpcNonce g.nonce := by
  obtain ⟨held, hheld, hold⟩ := h
  rcases hl with hl | hl
  · exact absurd (hl held hheld) (not_le.mpr hold)
  · exact hl g hg.1 hg.2.1 hg.2.2 hy

/-- What a reservation of the wallet does to a nonce held for at most
`reservationTtlMs`. -/
theorem Covered.reserve {g : Grant} (h : Covered (key walletAddress) d)
    (hl : NoLapse d (.reserveNonce walletAddress rpcNonce nowMs)) (hnow : d.nowMs ≤ nowMs)
    (hg : d.Holds (key walletAddress) g) (hy : nowMs ≤ g.atMs + reservationTtlMs) :
    g.nonce ≠ (reserveNonce d.alloc walletAddress rpcNonce nowMs).1 ∧
      ((reserveNonce d.alloc walletAddress rpcNonce nowMs).2 (key walletAddress)).Covers g.nonce := by
  rw [reserveNonce_fst, reserveNonce_self]
  exact (h g hg (hnow.trans hy)).reserve (hl.outlived hg hy)
    (Slot.reserved_reserve _ rpcNonce nowMs)

theorem Covered.step (h : Covered k d) (hl : NoLapse d c) (hs : step d c = some d') :
    Covered k d' := by
  cases c with
  | reserveNonce walletAddress rpcNonce nowMs =>
    obtain ⟨hnow, rfl⟩ := step_reserve hs
    rintro g ⟨hmem, hk, hheld⟩ hy
    rw [List.mem_append, List.mem_singleton] at hmem
    by_cases hw : key walletAddress = k
    · subst hw
      rcases hmem with hmem | rfl
      · exact (h.reserve hl hnow ⟨hmem, hk, hheld⟩ hy).2
      · show ((reserveNonce d.alloc walletAddress rpcNonce nowMs).2 _).Covers _
        rw [reserveNonce_self]
        exact (Slot.reserved_reserve _ rpcNonce nowMs).covers
    · show ((reserveNonce d.alloc walletAddress rpcNonce nowMs).2 k).Covers g.nonce
      rw [reserveNonce_of_ne hw]
      rcases hmem with hmem | rfl
      · exact h g ⟨hmem, hk, hheld⟩ (hnow.trans hy)
      · exact absurd hk hw
  | releaseNonce i nowMs =>
    obtain ⟨g₀, hg₀, hnow, _, rfl⟩ := step_release hs
    rintro g ⟨hmem, hk, hheld⟩ hy
    have hother := mem_set_released hg₀ hmem hheld
    have hc := h g ⟨List.mem_of_mem_eraseIdx hother, hk, hheld⟩ (hnow.trans hy)
    show (releaseNonce d.alloc g₀.wallet g₀.nonce k).Covers g.nonce
    by_cases hw : key g₀.wallet = k
    · subst hw
      rw [releaseNonce_self]
      exact hc.release fun he => hl g₀ hg₀ g hother hk hheld hy he
    · rwa [releaseNonce_of_ne hw]

theorem covered_of_reach (h : Transition.Reach step NoLapse start d) : Covered k d :=
  h.invariant (fun _ hg => absurd hg.1 List.not_mem_nil) fun _ _ _ _ hc hl hs => hc.step hl hs

/-- **Distinctness.**  In every run whose calls all meet `NoLapse`, a reservation
returns none of the nonces that were handed out for the wallet at most
`reservationTtlMs` earlier and not given back. -/
theorem reserve_distinct (h : Transition.Reach step NoLapse start d)
    (hl : NoLapse d (.reserveNonce walletAddress rpcNonce nowMs)) (hnow : d.nowMs ≤ nowMs) :
    ∀ g ∈ d.grants, key g.wallet = key walletAddress → g.released = false →
      nowMs ≤ g.atMs + reservationTtlMs →
      (reserveNonce d.alloc walletAddress rpcNonce nowMs).1 ≠ g.nonce := by
  intro g hmem hk hheld hy
  exact ((covered_of_reach h).reserve hl hnow ⟨hmem, hk, hheld⟩ hy).1.symm

/-- Two plans of one wallet, one of which gives its nonce back and reserves again. -/
def siblings : List Call :=
  [.reserveNonce "0xAb" 5 0, .reserveNonce "0xaB" 5 0, .releaseNonce 0 0, .reserveNonce "0xAb" 5 60000]

theorem reserve_distinct_siblings :
    ∃ d, Transition.Reach step NoLapse start d ∧
      ∀ g ∈ d.grants, key g.wallet = key "0xab" → g.released = false →
        60000 ≤ g.atMs + reservationTtlMs →
        (reserveNonce d.alloc "0xab" 5 60000).1 ≠ g.nonce := by
  obtain ⟨d, hd, hp⟩ := Transition.exists_reach_of_run step NoLapse start siblings
    (fun d => decide (NoLapse d (.reserveNonce "0xab" 5 60000)) && decide (d.nowMs ≤ 60000))
    (by decide) (by decide)
  rw [Bool.and_eq_true, decide_eq_true_iff, decide_eq_true_iff] at hp
  exact ⟨d, hd, reserve_distinct hd hp.1 hp.2⟩

/-- **The allocator repeats a nonce.**  The third reservation of `siblings` reuses
nonce 5 without renewing the reservation of nonce 6; one millisecond later that
reservation is too old, and the chain's pending nonce 5 is handed out again. -/
theorem reserve_repeats :
    ∃ d, Transition.Reachable step start d ∧ d.nowMs ≤ 60001 ∧
      ∃ g ∈ d.grants, key g.wallet = key "0xab" ∧ g.released = false ∧
        60001 ≤ g.atMs + reservationTtlMs ∧
        (reserveNonce d.alloc "0xab" 5 60001).1 = g.nonce := by
  obtain ⟨d, hd, hp⟩ := Transition.exists_reachable_of_run step start siblings
    (fun d => decide (d.nowMs ≤ 60001 ∧
      ∃ g ∈ d.grants, key g.wallet = key "0xab" ∧ g.released = false ∧
        60001 ≤ g.atMs + reservationTtlMs ∧
        (reserveNonce d.alloc "0xab" 5 60001).1 = g.nonce)) (by decide)
  exact ⟨d, hd, of_decide_eq_true hp⟩

end NonceAllocator
