/-
The nonce allocator of the mint worker (`apps/worker/src/nonce-allocator.ts`).

* `Slot.reserve`, `Slot.release` — the bodies of the source's two functions, over
  what its two maps hold of one wallet; `reserveNonce` and `releaseNonce` look the
  wallet up by its lower-cased address and put the slot back.
* `Reserved` — what a reservation can do, as an inductive predicate: either the
  least freed nonce the chain has not passed is reused, or a new one is minted;
  `reserved_reserve` is the only proof that opens `Slot.reserve`.
* `Desk`, `step` — the allocator together with the history of who was handed which
  nonce, driven by calls at non-decreasing times in which a caller releases only
  what it holds.
-/
import HoodMint.Lib.Transition
import Mathlib.Data.List.Sort
import Mathlib.Data.List.Infix
import Mathlib.Logic.Function.Basic

namespace NonceAllocator

/-- `Reservation`: the highest nonce handed out, and when. -/
structure Reservation where
  nonce : ℕ
  atMs : ℕ
deriving DecidableEq

/-- `RESERVATION_TTL_MS`. -/
def reservationTtlMs : ℕ := 60000

/-- What `reservations` and `freed` hold of one wallet.  An absent pool is read as
an empty one; `releaseNonce` pushes a nonce only when the pool lacks it. -/
structure Slot where
  held : Option Reservation
  freed : List ℕ
  nodup : freed.Nodup

namespace Slot

/-- Both maps lack the wallet. -/
def empty : Slot := ⟨none, [], List.nodup_nil⟩

/-- `held?.nonce ?? -1`. -/
def highest (s : Slot) : ℤ := s.held.elim (-1) fun held => held.nonce

/-- A reservation is stored and at most `reservationTtlMs` old. -/
def usable (s : Slot) (nowMs : ℕ) : Bool :=
  s.held.elim false fun held => decide (nowMs - held.atMs ≤ reservationTtlMs)

/-- The nonce minted when nothing can be reused. -/
def next (s : Slot) (rpcNonce nowMs : ℕ) : ℕ :=
  match s.held with
  | some held =>
    if nowMs - held.atMs ≤ reservationTtlMs then max rpcNonce (held.nonce + 1) else rpcNonce
  | none => rpcNonce

/-- The freed nonces the chain has not moved past, in order. -/
def pool (s : Slot) (rpcNonce : ℕ) : List ℕ :=
  (s.freed.filter (rpcNonce ≤ ·)).insertionSort (· ≤ ·)

theorem mem_pool {s : Slot} {rpcNonce p : ℕ} :
    p ∈ s.pool rpcNonce ↔ p ∈ s.freed ∧ rpcNonce ≤ p := by
  rw [pool, List.mem_insertionSort, List.mem_filter, decide_eq_true_iff]

theorem nodup_pool (s : Slot) (rpcNonce : ℕ) : (s.pool rpcNonce).Nodup :=
  (List.perm_insertionSort _ _).nodup_iff.mpr (s.nodup.filter _)

theorem pool_sorted (s : Slot) (rpcNonce : ℕ) : (s.pool rpcNonce).Pairwise (· ≤ ·) :=
  List.pairwise_insertionSort _ _

/-- The body of `reserveNonce`. -/
def reserve (s : Slot) (rpcNonce nowMs : ℕ) : ℕ × Slot :=
  match h : s.pool rpcNonce with
  | reuse :: pool =>
    (reuse,
      { held :=
          if s.usable nowMs = false ∨ s.highest < reuse then some ⟨reuse, nowMs⟩ else s.held
        freed := pool
        nodup := (List.nodup_cons.mp (h ▸ s.nodup_pool rpcNonce)).2 })
  | [] =>
    let next := s.next rpcNonce nowMs
    (next, ⟨some ⟨next, nowMs⟩, [], List.nodup_nil⟩)

/-- The body of `releaseNonce`. -/
def release (s : Slot) (nonce : ℕ) : Slot :=
  let held := s.held.filter fun held => held.nonce ≠ nonce
  if h : s.highest < nonce ∨ nonce ∈ s.freed then
    { s with held }
  else
    ⟨held, s.freed ++ [nonce],
      s.nodup.append (List.nodup_singleton _) (List.disjoint_singleton.mpr (not_or.mp h).2)⟩

end Slot

/-- `reservations` and `freed`, by the key of the wallet. -/
abbrev Allocator := String → Slot

/-- `key`: the lower-cased address. -/
def key (walletAddress : String) : String :=
  String.ofList (walletAddress.toList.map Char.toLower)

/-- `reserveNonce`. -/
def reserveNonce (a : Allocator) (walletAddress : String) (rpcNonce nowMs : ℕ) : ℕ × Allocator :=
  let k := key walletAddress
  let r := (a k).reserve rpcNonce nowMs
  (r.1, Function.update a k r.2)

/-- `releaseNonce`. -/
def releaseNonce (a : Allocator) (walletAddress : String) (nonce : ℕ) : Allocator :=
  let k := key walletAddress
  Function.update a k ((a k).release nonce)

section

variable {a : Allocator} {walletAddress k : String} {rpcNonce nowMs nonce : ℕ}

theorem reserveNonce_fst :
    (reserveNonce a walletAddress rpcNonce nowMs).1 =
      ((a (key walletAddress)).reserve rpcNonce nowMs).1 := rfl

theorem reserveNonce_self :
    (reserveNonce a walletAddress rpcNonce nowMs).2 (key walletAddress) =
      ((a (key walletAddress)).reserve rpcNonce nowMs).2 :=
  Function.update_self ..

theorem releaseNonce_self :
    releaseNonce a walletAddress nonce (key walletAddress) =
      (a (key walletAddress)).release nonce :=
  Function.update_self ..

/-- Other wallets are left alone. -/
theorem reserveNonce_of_ne (h : key walletAddress ≠ k) :
    (reserveNonce a walletAddress rpcNonce nowMs).2 k = a k :=
  Function.update_of_ne (Ne.symm h) ..

theorem releaseNonce_of_ne (h : key walletAddress ≠ k) :
    releaseNonce a walletAddress nonce k = a k :=
  Function.update_of_ne (Ne.symm h) ..

end

/-! ### What the two functions do to a slot -/

namespace Slot

variable {s s' : Slot} {rpcNonce nowMs n m : ℕ}

theorem le_highest_iff : (n : ℤ) ≤ s.highest ↔ ∃ held ∈ s.held, n ≤ held.nonce := by
  rw [highest]
  cases s.held with
  | none => simp only [Option.elim_none, Option.not_mem_none, false_and, exists_false, iff_false]; omega
  | some held => simp

theorem usable_of_held {held : Reservation} (h : s.held = some held) :
    s.usable nowMs = decide (nowMs ≤ held.atMs + reservationTtlMs) := by
  rw [usable, h, Option.elim_some]
  exact decide_eq_decide.mpr (by omega)

theorem le_next : rpcNonce ≤ s.next rpcNonce nowMs := by
  rw [next]
  split
  · split
    · exact le_max_left _ _
    · exact le_rfl
  · exact le_rfl

theorem next_of_usable {held : Reservation} (h : s.held = some held)
    (hu : nowMs ≤ held.atMs + reservationTtlMs) :
    s.next rpcNonce nowMs = max rpcNonce (held.nonce + 1) := by
  rw [next, h]
  exact if_pos (by omega)

theorem next_of_not_usable (h : ∀ held ∈ s.held, held.atMs + reservationTtlMs < nowMs) :
    s.next rpcNonce nowMs = rpcNonce := by
  rw [next]
  split
  · next held hheld => exact if_neg (by have := h held hheld; omega)
  · rfl

/-- Below a minted nonce, the chain has passed it or a reservation in force covers it. -/
theorem of_lt_next (h : m < s.next rpcNonce nowMs) :
    m < rpcNonce ∨ ∃ held ∈ s.held, nowMs ≤ held.atMs + reservationTtlMs ∧ m ≤ held.nonce := by
  by_cases hu : ∃ held ∈ s.held, nowMs ≤ held.atMs + reservationTtlMs
  · obtain ⟨held, hheld, hu⟩ := hu
    rw [next_of_usable hheld hu] at h
    by_cases hm : m ≤ held.nonce
    · exact Or.inr ⟨held, hheld, hu, hm⟩
    · exact Or.inl (by omega)
  · push Not at hu
    rw [next_of_not_usable hu] at h
    exact Or.inl h

/-- **What a reservation can do**: reuse the least freed nonce the chain has not
passed, or mint `next`.  Reuse leaves a young reservation at or above the reused
nonce as it is, age included. -/
inductive Reserved (s : Slot) (rpcNonce nowMs : ℕ) : ℕ → Slot → Prop
  | reuse {n : ℕ} {s' : Slot} (mem : n ∈ s.freed) (floor : rpcNonce ≤ n)
      (least : ∀ p ∈ s.freed, rpcNonce ≤ p → n ≤ p)
      (freed : ∀ p, p ∈ s'.freed ↔ p ∈ s.freed ∧ rpcNonce ≤ p ∧ p ≠ n)
      (young : s.usable nowMs = true → (n : ℤ) ≤ s.highest → s'.held = s.held)
      (stale : s.usable nowMs = false ∨ s.highest < n → s'.held = some ⟨n, nowMs⟩) :
      Reserved s rpcNonce nowMs n s'
  | mint {s' : Slot} (passed : ∀ p ∈ s.freed, p < rpcNonce) (freed : s'.freed = [])
      (held : s'.held = some ⟨s.next rpcNonce nowMs, nowMs⟩) :
      Reserved s rpcNonce nowMs (s.next rpcNonce nowMs) s'

theorem reserved_reserve (s : Slot) (rpcNonce nowMs : ℕ) :
    Reserved s rpcNonce nowMs (s.reserve rpcNonce nowMs).1 (s.reserve rpcNonce nowMs).2 := by
  rw [reserve]
  split
  · next n pool hpool =>
    have hmem : ∀ p, p ∈ n :: pool ↔ p ∈ s.freed ∧ rpcNonce ≤ p := fun p => by
      rw [← hpool, mem_pool]
    have hn := (hmem n).mp List.mem_cons_self
    have hsorted := List.pairwise_cons.mp (hpool ▸ s.pool_sorted rpcNonce)
    have hfresh : n ∉ pool := (List.nodup_cons.mp (hpool ▸ s.nodup_pool rpcNonce)).1
    refine .reuse hn.1 hn.2 (fun p hp hfloor => ?_) (fun p => ?_) (fun hu hle => ?_) fun hs => ?_
    · rcases List.mem_cons.mp ((hmem p).mpr ⟨hp, hfloor⟩) with rfl | hp
      · exact le_rfl
      · exact hsorted.1 p hp
    · rw [← and_assoc, ← hmem p, List.mem_cons]
      constructor
      · intro hp
        exact ⟨Or.inr hp, ne_of_mem_of_not_mem hp hfresh⟩
      · rintro ⟨hp, hne⟩
        exact hp.resolve_left hne
    · refine if_neg (not_or.mpr ⟨?_, not_lt.mpr hle⟩)
      rw [hu]
      exact Bool.noConfusion
    · exact if_pos hs
  · next hpool =>
    refine .mint (fun p hp => ?_) rfl rfl
    by_contra hfloor
    have hmem := mem_pool.mpr ⟨hp, not_lt.mp hfloor⟩
    rw [hpool] at hmem
    exact List.not_mem_nil hmem

theorem Reserved.floor_le (h : Reserved s rpcNonce nowMs n s') : rpcNonce ≤ n := by
  cases h with
  | reuse _ floor => exact floor
  | mint => exact le_next

/-- What is handed out is the nonce of the stored reservation, or below it. -/
theorem Reserved.le_highest (h : Reserved s rpcNonce nowMs n s') : (n : ℤ) ≤ s'.highest := by
  cases h with
  | reuse _ _ _ _ young stale =>
    by_cases h : s.usable nowMs = false ∨ s.highest < n
    · rw [highest, stale h]
      exact le_rfl
    · rw [not_or, Bool.not_eq_false, not_lt] at h
      rw [highest, young h.1 h.2]
      exact h.2
  | mint _ _ held =>
    rw [highest, held]
    exact le_rfl

theorem Reserved.not_mem_freed (h : Reserved s rpcNonce nowMs n s') : n ∉ s'.freed := by
  cases h with
  | reuse _ _ _ freed => exact fun hmem => ((freed _).mp hmem).2.2 rfl
  | mint _ freed => rw [freed]; exact List.not_mem_nil

/-- `n` is what the slot hands out: the chain has not passed it, it is the least free
nonce the chain has not passed, or there is none and it comes next, as the pending nonce
itself or one past a reservation still in force. -/
def Hands (s : Slot) (rpcNonce nowMs n : ℕ) : Prop :=
  rpcNonce ≤ n ∧ (∀ p ∈ s.freed, rpcNonce ≤ p → n ≤ p) ∧
    (n ∈ s.freed ∨ (∀ p ∈ s.freed, p < rpcNonce) ∧
      (n = rpcNonce ∧
          (∀ held ∈ s.held, nowMs ≤ held.atMs + reservationTtlMs → held.nonce < rpcNonce) ∨
        ∃ held ∈ s.held, nowMs ≤ held.atMs + reservationTtlMs ∧ n = held.nonce + 1))

theorem next_eq_iff (h : rpcNonce ≤ n) : s.next rpcNonce nowMs = n ↔
    n = rpcNonce ∧
        (∀ held ∈ s.held, nowMs ≤ held.atMs + reservationTtlMs → held.nonce < rpcNonce) ∨
      ∃ held ∈ s.held, nowMs ≤ held.atMs + reservationTtlMs ∧ n = held.nonce + 1 := by
  by_cases hu : ∃ held ∈ s.held, nowMs ≤ held.atMs + reservationTtlMs
  · obtain ⟨held, hheld, hu⟩ := hu
    have hheld := Option.mem_def.mp hheld
    rw [next_of_usable hheld hu, hheld]
    simp only [Option.mem_some_iff, forall_eq', exists_eq_left', hu, true_imp_iff, true_and]
    omega
  · have hall : ∀ held ∈ s.held, held.atMs + reservationTtlMs < nowMs := by
      push Not at hu
      exact hu
    rw [next_of_not_usable hall]
    constructor
    · rintro rfl
      exact Or.inl ⟨rfl, fun held hheld hle => absurd (hall held hheld) (not_lt.mpr hle)⟩
    · rintro (⟨rfl, _⟩ | ⟨held, hheld, hle, _⟩)
      · rfl
      · exact absurd (hall held hheld) (not_lt.mpr hle)

theorem reserve_eq_iff : (s.reserve rpcNonce nowMs).1 = n ↔ s.Hands rpcNonce nowMs n := by
  have hr := reserved_reserve s rpcNonce nowMs
  generalize (s.reserve rpcNonce nowMs).1 = m at hr ⊢
  cases hr with
  | reuse mem floor least =>
    constructor
    · rintro rfl
      exact ⟨floor, least, Or.inl mem⟩
    · rintro ⟨hle, hleast, hn | ⟨hpassed, _⟩⟩
      · exact le_antisymm (least n hn hle) (hleast m mem floor)
      · exact absurd (hpassed m mem) (not_lt.mpr floor)
  | mint passed =>
    have hpassed : ∀ p ∈ s.freed, rpcNonce ≤ p → n ≤ p :=
      fun p hp hle => absurd (passed p hp) (not_lt.mpr hle)
    constructor
    · intro he
      have hle : rpcNonce ≤ n := he ▸ le_next
      exact ⟨hle, hpassed, Or.inr ⟨passed, (next_eq_iff hle).mp he⟩⟩
    · rintro ⟨hle, _, hn | ⟨_, hnext⟩⟩
      · exact absurd (passed n hn) (not_lt.mpr hle)
      · exact (next_eq_iff hle).mpr hnext

theorem mem_release {p : ℕ} :
    p ∈ (s.release n).freed ↔ p ∈ s.freed ∨ p = n ∧ (n : ℤ) ≤ s.highest := by
  rw [release]
  split
  · next h =>
    refine ⟨Or.inl, fun hp => hp.elim id ?_⟩
    rintro ⟨rfl, hle⟩
    exact h.resolve_left (not_lt.mpr hle)
  · next h =>
    rw [List.mem_append, List.mem_singleton]
    exact or_congr_right (and_iff_left (not_lt.mp (not_or.mp h).1)).symm

theorem held_release : (s.release n).held = s.held.filter fun held => held.nonce ≠ n := by
  rw [release]
  split <;> rfl

/-- The allocator does not take back what lies above all it has handed out. -/
theorem release_of_highest_lt (h : s.highest < n) : s.release n = s := by
  have hheld : s.held.filter (fun held => held.nonce ≠ n) = s.held := by
    rw [highest] at h
    cases hs : s.held with
    | none => rfl
    | some held =>
      rw [hs, Option.elim_some] at h
      exact Option.filter_some_pos (by simp; omega)
  rw [release, dif_pos (Or.inl h), hheld]

/-- A release deletes the reservation of the nonce released and keeps any other. -/
theorem le_highest_release :
    (m : ℤ) ≤ (s.release n).highest ↔ (m : ℤ) ≤ s.highest ∧ s.highest ≠ n := by
  rw [highest, held_release, highest]
  cases s.held with
  | none =>
    rw [Option.filter_none, Option.elim_none]
    omega
  | some held =>
    by_cases h : held.nonce = n
    · rw [Option.filter_some_neg (by simpa using h), Option.elim_none, Option.elim_some]
      omega
    · rw [Option.filter_some_pos (by simpa using h), Option.elim_some]
      omega

end Slot

/-! ### Callers and what they hold -/

/-- One nonce handed out: by which wallet's call, when, at which pending nonce of
the chain, and whether the caller has given it back. -/
structure Grant where
  wallet : String
  nonce : ℕ
  atMs : ℕ
  rpcNonce : ℕ
  released : Bool

/-- The allocator, and every nonce handed out so far. -/
structure Desk where
  alloc : Allocator
  grants : List Grant
  nowMs : ℕ

/-- `reserveNonce(walletAddress, rpcNonce, nowMs)`, or `releaseNonce` by the holder
of the `i`-th nonce handed out. -/
inductive Call
  | reserveNonce (walletAddress : String) (rpcNonce nowMs : ℕ)
  | releaseNonce (i nowMs : ℕ)

/-- One call, made no earlier than the previous one. -/
def step (d : Desk) : Call → Option Desk
  | .reserveNonce walletAddress rpcNonce nowMs =>
    if d.nowMs ≤ nowMs then
      let r := reserveNonce d.alloc walletAddress rpcNonce nowMs
      some ⟨r.2, d.grants ++ [⟨walletAddress, r.1, nowMs, rpcNonce, false⟩], nowMs⟩
    else none
  | .releaseNonce i nowMs =>
    match d.grants[i]? with
    | some g =>
      if d.nowMs ≤ nowMs ∧ g.released = false then
        some ⟨releaseNonce d.alloc g.wallet g.nonce, d.grants.set i { g with released := true }, nowMs⟩
      else none
    | none => none

/-- A freshly started worker. -/
def start : Desk := ⟨fun _ => Slot.empty, [], 0⟩

/-- What is held under the key `k`: handed out and not given back. -/
def Desk.Holds (d : Desk) (k : String) (g : Grant) : Prop :=
  g ∈ d.grants ∧ key g.wallet = k ∧ g.released = false

variable {d d' : Desk} {walletAddress k : String} {rpcNonce nowMs i : ℕ}

theorem step_reserve (h : step d (.reserveNonce walletAddress rpcNonce nowMs) = some d') :
    d.nowMs ≤ nowMs ∧
      d' = ⟨(reserveNonce d.alloc walletAddress rpcNonce nowMs).2,
        d.grants ++ [⟨walletAddress, (reserveNonce d.alloc walletAddress rpcNonce nowMs).1,
          nowMs, rpcNonce, false⟩], nowMs⟩ := by
  rw [step] at h
  split at h
  · next hle => exact ⟨hle, (Option.some.inj h).symm⟩
  · exact absurd h (by simp)

theorem step_release (h : step d (.releaseNonce i nowMs) = some d') :
    ∃ g, d.grants[i]? = some g ∧ d.nowMs ≤ nowMs ∧ g.released = false ∧
      d' = ⟨releaseNonce d.alloc g.wallet g.nonce,
        d.grants.set i { g with released := true }, nowMs⟩ := by
  rw [step] at h
  split at h
  · next g hg =>
    split at h
    · next hle => exact ⟨g, hg, hle.1, hle.2, (Option.some.inj h).symm⟩
    · exact absurd h (by simp)
  · exact absurd h (by simp)

/-- The other grants of a release stay as they are. -/
theorem mem_set_released {g g' : Grant} {l : List Grant} (hg : l[i]? = some g)
    (h : g' ∈ l.set i { g with released := true }) (hr : g'.released = false) :
    g' ∈ l.eraseIdx i := by
  obtain ⟨j, hj⟩ := List.mem_iff_getElem?.mp h
  by_cases hij : i = j
  · subst hij
    rw [List.getElem?_set_self (List.getElem?_eq_some_iff.mp hg).1, Option.some_inj] at hj
    exact absurd hr (by rw [← hj]; simp)
  · rw [List.getElem?_set_ne hij] at hj
    exact List.mem_eraseIdx_iff_getElem?.mpr ⟨j, Ne.symm hij, hj⟩

theorem mem_of_mem_eraseIdx {g g' : Grant} {l : List Grant} (h : g' ∈ l.eraseIdx i) :
    g' ∈ l.set i { g with released := true } := by
  obtain ⟨j, hij, hj⟩ := List.mem_eraseIdx_iff_getElem?.mp h
  exact List.mem_iff_getElem?.mpr ⟨j, by rw [List.getElem?_set_ne (Ne.symm hij), hj]⟩

end NonceAllocator
