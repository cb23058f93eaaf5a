/-
Where the nonces handed to the pre-sign passes are.

Nothing gives a nonce back when a blob is signed again, purged, or lost with a failing
pass, or when a fire pass ends without: the nonce is then stored nowhere, used by nothing and
not free, and whatever is stored above it waits behind a gap.

* `Accounted`, `Contiguous` — every nonce lately handed out is stored, used or free; what is
  stored starts at the pending nonce and has no gap;
* `Remembered` — the nonces a loss of which can show: handed out lately, at or below what
  the allocator remembers, or below one that is live;
* `KeepsNonces` — the step loses no remembered nonce, and `Breaks.lost` says that any other
  loses one; `tidy_step` is the step lemma, `presign_strands_none` the run lemma, and
  `overlap_strands` the run in which two passes over one plan strand the wallet.
-/
import HoodMint.Lib.Transition
import HoodMint.PresignRuns

namespace MintWorker

open Effect NonceAllocator Transition

/-! ### What is stored -/

namespace PresignWorld

variable {w : PresignWorld} {planId : String} {blob : Blob} {n : ℕ}

/-- The wallet without the blob of one plan. -/
def without (w : PresignWorld) (planId : String) : PresignWorld :=
  { w with blobs := w.blobs.erase planId }

theorem stored_without :
    (w.without planId).Stored n ↔
      ∃ other blob, other ≠ planId ∧ w.blobs.lookup other = some blob ∧ blob.nonce = n := by
  rw [stored_iff]
  constructor
  · rintro ⟨other, blob, hblob, hn⟩
    have hne : other ≠ planId := by
      rintro rfl
      rw [without, AList.lookup_erase] at hblob
      exact absurd hblob nofun
    rw [without, AList.lookup_erase_ne hne] at hblob
    exact ⟨other, blob, hne, hblob, hn⟩
  · rintro ⟨other, blob, hne, hblob, hn⟩
    refine ⟨other, blob, ?_, hn⟩
    rw [without, AList.lookup_erase_ne hne]
    exact hblob

theorem Stored.of_without (h : (w.without planId).Stored n) : w.Stored n := by
  obtain ⟨other, blob, _, hblob, hn⟩ := stored_without.mp h
  exact stored_iff.mpr ⟨other, blob, hblob, hn⟩

/-- What is stored is the plan's own blob, or stored without it. -/
theorem Stored.split (h : w.Stored n) (planId : String) :
    (∃ blob ∈ w.blobs.lookup planId, blob.nonce = n) ∨ (w.without planId).Stored n := by
  obtain ⟨other, blob, hblob, hn⟩ := stored_iff.mp h
  by_cases hother : other = planId
  · exact Or.inl ⟨blob, hother ▸ hblob, hn⟩
  · exact Or.inr (stored_without.mpr ⟨other, blob, hother, hblob, hn⟩)

theorem stored_insert :
    ({ w with blobs := w.blobs.insert planId blob } : PresignWorld).Stored n ↔
      blob.nonce = n ∨ (w.without planId).Stored n := by
  rw [stored_iff, stored_without]
  constructor
  · rintro ⟨other, b, hb, hn⟩
    by_cases hother : other = planId
    · rw [hother, AList.lookup_insert, Option.some_inj] at hb
      exact Or.inl (hb ▸ hn)
    · rw [AList.lookup_insert_ne hother] at hb
      exact Or.inr ⟨other, b, hother, hb, hn⟩
  · rintro (hn | ⟨other, b, hother, hb, hn⟩)
    · exact ⟨planId, blob, AList.lookup_insert _, hn⟩
    · exact ⟨other, b, (AList.lookup_insert_ne hother).trans hb, hn⟩

/-! ### What the passes are to keep -/

/-- Every nonce handed out within the allocator's time to live is stored, used or free. -/
def Accounted (w : PresignWorld) : Prop :=
  ∀ g ∈ w.handed, w.nowMs ≤ g.2 + reservationTtlMs →
    w.Stored g.1 ∨ g.1 ∈ w.used ∨ g.1 ∈ w.slot.freed

instance : DecidablePred Accounted := fun w =>
  inferInstanceAs (Decidable (∀ g ∈ w.handed, w.nowMs ≤ g.2 + reservationTtlMs →
    w.Stored g.1 ∨ g.1 ∈ w.used ∨ g.1 ∈ w.slot.freed))

/-- Every transaction of the wallet is mined: what it has used is what lies below the
chain's pending nonce. -/
def OffWire (w : PresignWorld) (pending : ℕ) : Prop := ∀ n, n ∈ w.used ↔ n < pending

/-- What is stored starts at the pending nonce, without a gap. -/
def Contiguous (w : PresignWorld) (pending : ℕ) : Prop :=
  ∀ n, w.Stored n → pending ≤ n ∧ ∀ m, pending ≤ m → m < n → w.Stored m

/-- The pre-sign passes have stranded nothing. -/
def StrandsNone (w : PresignWorld) : Prop :=
  w.Accounted ∧ ∀ pending, w.OffWire pending → w.Contiguous pending

/-- No stored blob has been overtaken, and no free nonce below one is left unused. -/
def Filled (w : PresignWorld) : Prop :=
  (∀ n, w.Stored n → n ∉ w.used) ∧
    ∀ p ∈ w.slot.freed, p ∉ w.used → (∃ n, w.Stored n ∧ p < n) → w.Stored p

end PresignWorld

namespace PresignRun

variable {config : Config} {d d' : PresignRun} {w : PresignWorld} {l : PresignStep}
  {planId walletAddress : String} {i n m : ℕ} {t t' : Task signature Thrown Unit PassNonce}

/-! ### Losing a nonce -/

/-- Stored, reserved by a pass that is still to store it, or in the hand of a fire pass. -/
def Live (d : PresignRun) (n : ℕ) : Prop :=
  d.world.Stored n ∨ d.Holds n ∨ n ∈ d.world.firing

instance (d : PresignRun) : DecidablePred d.Live := fun _ =>
  inferInstanceAs (Decidable (_ ∨ _ ∨ _))

/-- Used, live or free. -/
def Kept (d : PresignRun) (n : ℕ) : Prop := n ∈ d.world.used ∨ d.Live n ∨ n ∈ d.world.slot.freed

/-- Some blob or some pass carries a nonce above `n`. -/
def LiveAbove (d : PresignRun) (n : ℕ) : Prop :=
  (∃ planId ∈ d.world.blobs.keys, ∃ blob ∈ d.world.blobs.lookup planId, n < blob.nonce) ∨
    (∃ t ∈ d.passes, ∃ m ∈ t.here.held, n < m) ∨ ∃ m ∈ d.world.firing, n < m

theorem liveAbove_iff : d.LiveAbove n ↔ ∃ m, d.Live m ∧ n < m := by
  constructor
  · rintro (⟨planId, hplan, blob, hblob, hlt⟩ | ⟨t, ht, m, hm, hlt⟩ | ⟨m, hm, hlt⟩)
    · exact ⟨blob.nonce, Or.inl ⟨planId, hplan, blob, hblob, rfl⟩, hlt⟩
    · exact ⟨m, Or.inr (Or.inl ⟨t, ht, hm⟩), hlt⟩
    · exact ⟨m, Or.inr (Or.inr hm), hlt⟩
  · rintro ⟨m, ⟨planId, hplan, blob, hblob, rfl⟩ | ⟨t, ht, hm⟩ | hm, hlt⟩
    · exact Or.inl ⟨planId, hplan, blob, hblob, hlt⟩
    · exact Or.inr (Or.inl ⟨t, ht, m, hm, hlt⟩)
    · exact Or.inr (Or.inr ⟨m, hm, hlt⟩)

/-- Handed out within the time to live, at or below a reservation in force or a free
nonce, or below a live one. -/
def Remembered (d : PresignRun) (n : ℕ) : Prop :=
  (∃ g ∈ d.world.handed, d.world.nowMs ≤ g.2 + reservationTtlMs ∧ g.1 = n) ∨
    (∃ held ∈ d.world.slot.held, d.world.nowMs ≤ held.atMs + reservationTtlMs ∧
      n ≤ held.nonce) ∨
    (∃ p ∈ d.world.slot.freed, n ≤ p) ∨ d.LiveAbove n

instance (d : PresignRun) : DecidablePred d.Remembered := fun n =>
  inferInstanceAs (Decidable ((∃ g ∈ d.world.handed, _ ∧ _) ∨
    (∃ held ∈ d.world.slot.held, _ ∧ _) ∨ (∃ p ∈ d.world.slot.freed, _) ∨
    ((∃ planId ∈ d.world.blobs.keys, ∃ blob ∈ d.world.blobs.lookup planId, _) ∨
      (∃ t ∈ d.passes, ∃ m ∈ t.here.held, n < m) ∨ ∃ m ∈ d.world.firing, n < m)))

/-- A blob or a pass can go, with its nonce, and leave `rest`: the nonce is used, free or
live elsewhere, or nothing remembers it. -/
def MayLose (d rest : PresignRun) (n : ℕ) : Prop :=
  n ∈ d.world.used ∨ n ∈ d.world.slot.freed ∨ rest.Live n ∨ ¬ d.Remembered n

instance (d rest : PresignRun) : DecidablePred (d.MayLose rest) := fun _ =>
  inferInstanceAs (Decidable (_ ∨ _ ∨ _ ∨ _))

/-- The plan's blob can go. -/
def MayPurge (d : PresignRun) (planId : String) : Prop :=
  ∀ blob ∈ d.world.blobs.lookup planId,
    d.MayLose ⟨d.world.without planId, d.passes⟩ blob.nonce

instance (d : PresignRun) : DecidablePred d.MayPurge := fun planId =>
  inferInstanceAs (Decidable (∀ blob ∈ d.world.blobs.lookup planId, _))

/-- The `i`-th pass can fail, with what it holds. -/
def MayFail (d : PresignRun) (i : ℕ) (here : PassNonce) : Prop :=
  ∀ n ∈ here.held, d.MayLose ⟨d.world, d.passes.eraseIdx i⟩ n

instance (d : PresignRun) (i : ℕ) : DecidablePred (d.MayFail i) := fun here =>
  inferInstanceAs (Decidable (∀ n ∈ here.held, _))

/-- A fire pass can end with `n` in hand. -/
def MaySettle (d : PresignRun) (n : ℕ) : Prop :=
  d.MayLose ⟨{ d.world with firing := d.world.firing.erase n }, d.passes⟩ n

instance (d : PresignRun) : DecidablePred d.MaySettle := fun _ =>
  inferInstanceAs (Decidable (_ ∨ _ ∨ _ ∨ _))

/-- The answer makes the `i`-th pass lose no nonce: when it stores a blob, the one it
replaces can go, and when it fails, the nonce it holds can. -/
def AnswerKeeps (d : PresignRun) (i : ℕ) (here : PassNonce) (c : Cmd)
    (x : Except Thrown c.Resp) : Prop :=
  match c, x with
  | .savePresignedTx planId .., .ok _ => d.MayPurge planId
  | _, .error _ => d.MayFail i here
  | _, _ => True

instance (d : PresignRun) (i : ℕ) (here : PassNonce) (c : Cmd) (x : Except Thrown c.Resp) :
    Decidable (d.AnswerKeeps i here c x) := by
  induction c using Cmd.casesOn with
  | savePresignedTx planId =>
    exact match x with
      | .error _ => (inferInstance : Decidable (d.MayFail i here))
      | .ok _ => (inferInstance : Decidable (d.MayPurge planId))
  | _ =>
    exact match x with
      | .error _ => (inferInstance : Decidable (d.MayFail i here))
      | .ok _ => isTrue trivial

/-- **The step loses no nonce.**  What a fire pass gives back, the allocator takes if it is
no higher than the last it handed out. -/
def KeepsNonces (d : PresignRun) (l : PresignStep) : Prop :=
  match l with
  | .advance i answer =>
    match d.passes[i]? with
    | some ⟨.call c _, here⟩ => d.AnswerKeeps i here c (answer c)
    | _ => True
  | .releaseNonce nonce => (nonce : ℤ) ≤ d.world.slot.highest ∨ d.MaySettle nonce
  | .settle nonce => d.MaySettle nonce
  | .purge planId => d.MayPurge planId
  | _ => True

instance (d : PresignRun) : DecidablePred d.KeepsNonces := fun l => by
  cases l with
  | advance i answer =>
    show Decidable (match d.passes[i]? with
      | some ⟨.call c _, here⟩ => d.AnswerKeeps i here c (answer c)
      | _ => True)
    split <;> infer_instance
  | releaseNonce nonce => exact inferInstanceAs (Decidable (_ ∨ _))
  | settle nonce => exact inferInstanceAs (Decidable (d.MaySettle nonce))
  | purge planId => exact inferInstanceAs (Decidable (d.MayPurge planId))
  | _ => exact isTrue trivial

/-! ### What every pass has read -/

/-- Every pass keeps to what it knows, and the pending nonce it has read was one: what lies
below is used. -/
def Informed (d : PresignRun) : Prop :=
  ∀ t ∈ d.passes, t.Safe presignLocal (fun _ t' => t'.held = none) ∧
    ∀ r ∈ t.here.seen, ∀ m < r, m ∈ d.world.used

theorem Informed.mono (h : d.Informed) (hpasses : d'.passes = d.passes)
    (hused : ∀ m ∈ d.world.used, m ∈ d'.world.used) : d'.Informed := by
  intro t ht
  rw [hpasses] at ht
  exact ⟨(h t ht).1, fun r hr m hm => hused m ((h t ht).2 r hr m hm)⟩

theorem used_next (c : Cmd) (x : Except Thrown c.Resp) :
    (presignWorld.next w c x).used = w.used := by
  cases c <;> cases x <;> rfl

theorem seen_next {here : PassNonce} {c : Cmd} {x : Except Thrown c.Resp}
    (hx : presignWorld.allowed w c x) (h : ∀ r ∈ here.seen, ∀ m < r, m ∈ w.used) :
    ∀ r ∈ (presignLocal.next here c x).seen, ∀ m < r, m ∈ w.used := by
  cases c with
  | fetchFeeContext =>
    cases x with
    | error => exact h
    | ok fees =>
      rintro _ ⟨⟩
      exact hx
  | _ => cases x <;> exact h

theorem informed_step (h : d.Informed) (hs : step config d l = some d') : d'.Informed := by
  cases l with
  | start localNowMs clockOffsetMs =>
    obtain rfl := Option.some.inj hs
    intro t ht
    exact of_mem_enter ht h ⟨presignPass_safe _ _ _, fun _ => nofun⟩
  | advance i answer =>
    obtain ⟨⟨w', ts'⟩, ha, rfl⟩ := Option.map_eq_some_iff.mp hs
    obtain ⟨c, k, here, hi, hx, rfl, rfl⟩ := advance_cases ha
    have hsafe := (safe_advance (x := answer c) hi (fun t ht => (h t ht).1) trivial).2
    intro t ht
    refine ⟨hsafe t ht, ?_⟩
    show ∀ r ∈ t.here.seen, ∀ m < r, m ∈ (presignWorld.next _ _ _).used
    rw [used_next]
    rcases List.mem_or_eq_of_mem_set ht with ht | rfl
    · exact (h t ht).2
    · exact seen_next hx (h _ (List.mem_of_getElem? hi)).2
  | readBlob planId =>
    obtain ⟨blob, _, rfl⟩ := Option.map_eq_some_iff.mp hs
    exact h.mono rfl fun _ => id
  | broadcast nonce =>
    obtain rfl := Option.some.inj hs
    exact h.mono rfl fun _ => List.mem_cons_of_mem _
  | purge planId =>
    obtain rfl := Option.some.inj hs
    exact h.mono rfl fun _ => id
  | _ =>
    rw [step] at hs
    split at hs
    · obtain rfl := Option.some.inj hs
      exact h.mono rfl fun _ => id
    · exact absurd hs nofun

/-! ### What is remembered is kept -/

/-- Every remembered nonce is kept. -/
def Tidy (d : PresignRun) : Prop := ∀ n, d.Remembered n → d.Kept n

/-- One step: what becomes remembered is kept, and what was remembered stays kept. -/
theorem Tidy.of_step (h : d.Tidy)
    (hremembered : ∀ n, d'.Remembered n → d.Remembered n ∨ d'.Kept n)
    (hkept : ∀ n, d.Remembered n → d.Kept n → d'.Kept n) : d'.Tidy := by
  intro n hn
  rcases hremembered n hn with hn | hn
  · exact hkept n hn (h n hn)
  · exact hn

/-- The allocator is not called: nothing becomes remembered, and a live nonce that goes
was kept elsewhere or not remembered. -/
theorem Tidy.mono (h : d.Tidy) (hslot : d'.world.slot = d.world.slot)
    (hhanded : d'.world.handed = d.world.handed) (hnow : d.world.nowMs ≤ d'.world.nowMs)
    (hused : ∀ n ∈ d.world.used, n ∈ d'.world.used) (hlive : ∀ n, d'.Live n → d.Live n)
    (hkept : ∀ n, d.Remembered n → d.Live n → d'.Kept n) : d'.Tidy := by
  refine h.of_step (fun n hn => Or.inl ?_) fun n hn => ?_
  · rw [Remembered, hslot, hhanded] at hn
    rcases hn with ⟨g, hg, hle, hn⟩ | ⟨held, hheld, hle, hn⟩ | hfreed | habove
    · exact Or.inl ⟨g, hg, hnow.trans hle, hn⟩
    · exact Or.inr (Or.inl ⟨held, hheld, hnow.trans hle, hn⟩)
    · exact Or.inr (Or.inr (Or.inl hfreed))
    · obtain ⟨m, hm, hlt⟩ := liveAbove_iff.mp habove
      exact Or.inr (Or.inr (Or.inr (liveAbove_iff.mpr ⟨m, hlive m hm, hlt⟩)))
  · rintro (h | h | h)
    · exact Or.inl (hused n h)
    · exact hkept n hn h
    · exact Or.inr (Or.inr (hslot ▸ h))

/-- What may be lost, and was remembered, is kept. -/
theorem MayLose.kept {rest : PresignRun} (h : d.MayLose rest n) (hn : d.Remembered n)
    (hslot : d'.world.slot = d.world.slot) (hused : ∀ n ∈ d.world.used, n ∈ d'.world.used)
    (hlive : ∀ n, rest.Live n → d'.Live n) : d'.Kept n := by
  rcases h with h | h | h | h
  · exact Or.inl (hused n h)
  · exact Or.inr (Or.inr (hslot ▸ h))
  · exact Or.inr (Or.inl (hlive n h))
  · exact absurd hn h

/-- What one pass holds, and what the others hold. -/
theorem holds_iff (hi : d.passes[i]? = some t) :
    d.Holds n ↔ t.here.held = some n ∨ Holds ⟨w, d.passes.eraseIdx i⟩ n :=
  exists_task hi

theorem holds_set (hi : d.passes[i]? = some t) :
    Holds ⟨w, d.passes.set i t'⟩ n ↔
      t'.here.held = some n ∨ Holds ⟨w, d.passes.eraseIdx i⟩ n :=
  exists_task_set hi t'

/-- A command that neither reserves, nor stores, nor fails. -/
theorem tidy_pass (h : d.Tidy) (hi : d.passes[i]? = some t) (hheld : t'.here.held = t.here.held) :
    Tidy ⟨d.world, d.passes.set i t'⟩ := by
  have hlive : ∀ n, Live ⟨d.world, d.passes.set i t'⟩ n ↔ d.Live n := fun n => by
    refine or_congr Iff.rfl (or_congr ?_ Iff.rfl)
    rw [holds_set hi, holds_iff hi, hheld]
  exact h.mono rfl rfl le_rfl (fun _ => id) (fun n => (hlive n).mp)
    fun n _ hn => Or.inr (Or.inl ((hlive n).mpr hn))

/-- A pass fails. -/
theorem tidy_fail (h : d.Tidy) (hi : d.passes[i]? = some t) (hheld : t'.here.held = none)
    (hlose : d.MayFail i t.here) :
    Tidy ⟨d.world, d.passes.set i t'⟩ := by
  have hlive : ∀ n, Live ⟨d.world, d.passes.eraseIdx i⟩ n →
      Live ⟨d.world, d.passes.set i t'⟩ n :=
    fun n => Or.imp id (Or.imp (fun hn => (holds_set hi).mpr (Or.inr hn)) id)
  refine h.mono rfl rfl le_rfl (fun _ => id)
    (fun n => Or.imp id (Or.imp (fun hn => ?_) id)) fun n hr hn => ?_
  · rcases (holds_set hi).mp hn with hn | hn
    · rw [hheld] at hn
      exact absurd hn nofun
    · exact (holds_iff (w := d.world) hi).mpr (Or.inr hn)
  · rcases hn with hn | hn | hn
    · exact Or.inr (Or.inl (Or.inl hn))
    · rcases (holds_iff hi).mp hn with hn | hn
      · exact (hlose n hn).kept hr rfl (fun _ => id) hlive
      · exact Or.inr (Or.inl (hlive n (Or.inr (Or.inl hn))))
    · exact Or.inr (Or.inl (Or.inr (Or.inr hn)))

/-- A pass stores the blob it has signed. -/
theorem tidy_save (h : d.Tidy) (hi : d.passes[i]? = some t) (hheld : t.here.held = some n)
    (hheld' : t'.here.held = none) (hpurge : d.MayPurge planId) :
    Tidy ⟨{ d.world with blobs := d.world.blobs.insert planId ⟨n, d.world.nowMs⟩ },
      d.passes.set i t'⟩ := by
  refine h.mono rfl rfl le_rfl (fun _ => id) (fun m hm => ?_) fun m hr hm => ?_
  · rcases hm with hm | hm | hm
    · rcases PresignWorld.stored_insert.mp hm with rfl | hm
      · exact Or.inr (Or.inl ((holds_iff (w := d.world) hi).mpr (Or.inl hheld)))
      · exact Or.inl hm.of_without
    · rcases (holds_set hi).mp hm with hm | hm
      · rw [hheld'] at hm
        exact absurd hm nofun
      · exact Or.inr (Or.inl ((holds_iff hi).mpr (Or.inr hm)))
    · exact Or.inr (Or.inr hm)
  -- the nonce stored is no longer held, and the others are where they were
  · have hkept : ∀ m, Live ⟨d.world.without planId, d.passes⟩ m →
        Live ⟨{ d.world with blobs := d.world.blobs.insert planId ⟨n, d.world.nowMs⟩ },
          d.passes.set i t'⟩ m := by
      rintro m (hm | hm | hm)
      · exact Or.inl (PresignWorld.stored_insert.mpr (Or.inr hm))
      · rcases (holds_iff hi).mp hm with hm | hm
        · rw [hheld, Option.some_inj] at hm
          exact Or.inl (PresignWorld.stored_insert.mpr (Or.inl hm))
        · exact Or.inr (Or.inl ((holds_set hi).mpr (Or.inr hm)))
      · exact Or.inr (Or.inr hm)
    rcases hm with hm | hm
    · rcases hm.split planId with ⟨blob, hblob, rfl⟩ | hm
      · exact (hpurge blob hblob).kept hr rfl (fun _ => id) hkept
      · exact Or.inr (Or.inl (hkept m (Or.inl hm)))
    · exact Or.inr (Or.inl (hkept m (Or.inr hm)))

/-- A blob goes. -/
theorem tidy_purge (h : d.Tidy) (hpurge : d.MayPurge planId) :
    Tidy ⟨d.world.without planId, d.passes⟩ := by
  refine h.mono rfl rfl le_rfl (fun _ => id) (fun n => Or.imp (·.of_without) id) fun n hr hn => ?_
  rcases hn with hn | hn
  · rcases hn.split planId with ⟨blob, hblob, rfl⟩ | hn
    · exact (hpurge blob hblob).kept hr rfl (fun _ => id) fun _ => id
    · exact Or.inr (Or.inl (Or.inl hn))
  · exact Or.inr (Or.inl (Or.inr hn))

/-- A fire pass ends with the nonce it had in hand. -/
theorem tidy_settle (h : d.Tidy) (hsettle : d.MaySettle n) :
    Tidy ⟨{ d.world with firing := d.world.firing.erase n }, d.passes⟩ := by
  refine h.mono rfl rfl le_rfl (fun _ => id)
    (fun m => Or.imp id (Or.imp id List.mem_of_mem_erase)) fun m hr hm => ?_
  by_cases hmn : m = n
  · subst hmn
    exact MayLose.kept hsettle hr rfl (fun _ => id) fun _ => id
  · exact Or.inr (Or.inl (hm.imp id (Or.imp id (List.mem_erase_of_ne hmn).mpr)))

/-- A fire pass gives back the nonce it has in hand, and the allocator takes it: what lay
below it lay below a live one. -/
theorem tidy_release (h : d.Tidy) (hn : n ∈ d.world.firing)
    (hle : (n : ℤ) ≤ d.world.slot.highest) :
    Tidy ⟨{ d.world with
        slot := d.world.slot.release n, firing := d.world.firing.erase n }, d.passes⟩ := by
  have hfree : n ∈ (d.world.slot.release n).freed := Slot.mem_release.mpr (Or.inr ⟨rfl, hle⟩)
  have habove : ∀ m < n, d.LiveAbove m := fun m hlt =>
    liveAbove_iff.mpr ⟨n, Or.inr (Or.inr hn), hlt⟩
  refine h.of_step (fun m hm => ?_) fun m _ hm => ?_
  · rcases hm with hhanded | ⟨held, hheld, hforce⟩ | ⟨p, hp, hm⟩ | hlive
    · exact Or.inl (Or.inl hhanded)
    · rw [Slot.held_release] at hheld
      exact Or.inl (Or.inr (Or.inl ⟨held, (Option.mem_filter_iff.mp hheld).1, hforce⟩))
    · rcases Slot.mem_release.mp hp with hp | ⟨rfl, _⟩
      · exact Or.inl (Or.inr (Or.inr (Or.inl ⟨p, hp, hm⟩)))
      · rcases hm.lt_or_eq with hlt | rfl
        · exact Or.inl (Or.inr (Or.inr (Or.inr (habove m hlt))))
        · exact Or.inr (Or.inr (Or.inr hfree))
    · obtain ⟨p, hp, hlt⟩ := liveAbove_iff.mp hlive
      have hp : d.Live p := hp.imp id (Or.imp id List.mem_of_mem_erase)
      exact Or.inl (Or.inr (Or.inr (Or.inr (liveAbove_iff.mpr ⟨p, hp, hlt⟩))))
  · rcases hm with hm | hm | hm
    · exact Or.inl hm
    · by_cases hmn : m = n
      · subst hmn
        exact Or.inr (Or.inr hfree)
      · exact Or.inr (Or.inl (hm.imp id (Or.imp id (List.mem_erase_of_ne hmn).mpr)))
    · exact Or.inr (Or.inr (Slot.mem_release.mpr (Or.inl hm)))

/-- A pass of either kind reserves: a free nonce comes back to life, and below a minted one
the chain has passed, or the reservation in force covers, all. -/
theorem tidy_reserve {rpcNonce : ℕ} (h : d.Tidy) (hfloor : ∀ m < rpcNonce, m ∈ d.world.used)
    (hr : d.world.slot.Reserved rpcNonce d.world.nowMs n d'.world.slot)
    (hnow : d'.world.nowMs = d.world.nowMs) (hused : d'.world.used = d.world.used)
    (hhanded : ∀ g ∈ d'.world.handed, g.1 = n ∨ g ∈ d.world.handed)
    (hlive : ∀ m, d'.Live m ↔ m = n ∨ d.Live m) : d'.Tidy := by
  have hkept : ∀ m, d.Kept m → d'.Kept m := by
    rintro m (hm | hm | hm)
    · exact Or.inl (hused ▸ hm)
    · exact Or.inr (Or.inl ((hlive m).mpr (Or.inr hm)))
    · by_cases hpassed : m < rpcNonce
      · exact Or.inl (hused ▸ hfloor m hpassed)
      · by_cases hn : m = n
        · exact Or.inr (Or.inl ((hlive m).mpr (Or.inl hn)))
        · cases hr with
          | reuse _ _ _ freed => exact Or.inr (Or.inr ((freed m).mpr ⟨hm, not_lt.mp hpassed, hn⟩))
          | mint passed => exact absurd (passed m hm) hpassed
  have hself : d'.Kept n := Or.inr (Or.inl ((hlive n).mpr (Or.inl rfl)))
  -- the nonces below the one handed out have been used, or were remembered before
  have hbelow : ∀ m ≤ n, d.Remembered m ∨ d'.Kept m := by
    intro m hm
    cases hr with
    | reuse mem => exact Or.inl (Or.inr (Or.inr (Or.inl ⟨n, mem, hm⟩)))
    | mint =>
      rcases hm.lt_or_eq with hlt | rfl
      · rcases Slot.of_lt_next hlt with hpassed | hforce
        · exact Or.inr (Or.inl (hused ▸ hfloor m hpassed))
        · exact Or.inl (Or.inr (Or.inl hforce))
      · exact Or.inr hself
  refine h.of_step (fun m hm => ?_) fun m _ => hkept m
  rw [Remembered, hnow] at hm
  -- remembered as handed out, by the reservation in force, by a free nonce, or by one in use above
  rcases hm with ⟨g, hg, hle, rfl⟩ | ⟨held, hmem, hle, hm⟩ | ⟨p, hp, hm⟩ | habove
  · rcases hhanded g hg with hgn | hg
    · exact Or.inr (hgn ▸ hself)
    · exact Or.inl (Or.inl ⟨g, hg, hle, rfl⟩)
  · have hheldnew : held ∈ d.world.slot.held ∨ held.nonce = n := by
      cases hr with
      | reuse _ _ _ _ young stale =>
        by_cases hs : d.world.slot.usable d.world.nowMs = false ∨ d.world.slot.highest < n
        · exact Or.inr (by rw [Option.some.inj ((stale hs).symm.trans hmem).symm])
        · rw [not_or, Bool.not_eq_false, not_lt] at hs
          exact Or.inl (young hs.1 hs.2 ▸ hmem)
      | mint _ _ minted => exact Or.inr (by rw [Option.some.inj (minted.symm.trans hmem).symm])
    rcases hheldnew with hmem | rfl
    · exact Or.inl (Or.inr (Or.inl ⟨held, hmem, hle, hm⟩))
    · exact hbelow m hm
  · have hp : p ∈ d.world.slot.freed := by
      cases hr with
      | reuse _ _ _ freed => exact ((freed p).mp hp).1
      | mint _ freed => exact absurd (freed ▸ hp) List.not_mem_nil
    exact Or.inl (Or.inr (Or.inr (Or.inl ⟨p, hp, hm⟩)))
  · obtain ⟨p, hp, hlt⟩ := liveAbove_iff.mp habove
    rcases (hlive p).mp hp with rfl | hp
    · exact hbelow m hlt.le
    · exact Or.inl (Or.inr (Or.inr (Or.inr (liveAbove_iff.mpr ⟨p, hp, hlt⟩))))

/-- What the `i`-th pass has reserved is live. -/
theorem live_reserve {s : Slot} {handed : List (ℕ × ℕ)} (hi : d.passes[i]? = some t)
    (hheld : t.here.held = none) (hheld' : t'.here.held = some n) :
    Live ⟨{ d.world with slot := s, handed }, d.passes.set i t'⟩ m ↔ m = n ∨ d.Live m := by
  have hm : Holds ⟨{ d.world with slot := s, handed }, d.passes.set i t'⟩ m ↔
      m = n ∨ d.Holds m := by
    rw [holds_set hi, holds_iff (w := { d.world with slot := s, handed }) hi, hheld, hheld',
      Option.some_inj, eq_comm]
    simp only [reduceCtorEq, false_or, Holds]
  rw [Live, hm, Live, or_assoc, or_left_comm]
  rfl

/-- **Step.**  A step that loses no nonce keeps what is remembered. -/
theorem tidy_step (hinf : d.Informed) (h : d.Tidy) (hkeep : d.KeepsNonces l)
    (hs : step config d l = some d') : d'.Tidy := by
  cases l with
  | start localNowMs clockOffsetMs =>
    obtain rfl := Option.some.inj hs
    have hlive : ∀ n, Live ⟨d.world, d.passes ++
        [⟨runPresignPass config localNowMs clockOffsetMs, ⟨none, none⟩⟩]⟩ n ↔ d.Live n := by
      intro n
      refine or_congr Iff.rfl (or_congr ?_ Iff.rfl)
      simp [Holds, or_and_right, exists_or]
    exact h.mono rfl rfl le_rfl (fun _ => id) (fun n => (hlive n).mp)
      fun n _ hn => Or.inr (Or.inl ((hlive n).mpr hn))
  | advance i answer =>
    obtain ⟨⟨w', ts'⟩, ha, rfl⟩ := Option.map_eq_some_iff.mp hs
    obtain ⟨c, k, here, hi, hx, rfl, rfl⟩ := advance_cases ha
    -- a command reserves, stores or leaves the nonces; one that fails may lose the nonce in hand
    have hguard := (safe_advance (x := answer c) hi (fun t ht => (hinf t ht).1) trivial).1
    have hseen := (hinf _ (List.mem_of_getElem? hi)).2
    have hanswer : d.AnswerKeeps i here c (answer c) := by
      rw [KeepsNonces, hi] at hkeep
      exact hkeep
    generalize answer c = x at hx hanswer ⊢
    cases c with
    | reserveNonce walletAddress rpcNonce =>
      obtain rfl := hx
      refine tidy_reserve h (hseen rpcNonce hguard.1) (Slot.reserved_reserve _ _ _) rfl rfl
        (fun g hg => ?_) fun m => live_reserve hi hguard.2 rfl
      exact (List.mem_cons.mp hg).imp_left (congrArg Prod.fst)
    | savePresignedTx planId rawTx nonce txHash =>
      cases x with
      | error e => exact tidy_fail h hi rfl hanswer
      | ok _ => exact tidy_save h hi hguard rfl hanswer
    | _ =>
      cases x with
      | error e => exact tidy_fail h hi rfl hanswer
      | ok a => exact tidy_pass h hi rfl
  | tick nowMs =>
    rw [step] at hs
    split at hs
    · next hle =>
      obtain rfl := Option.some.inj hs
      exact h.mono rfl rfl hle (fun _ => id) (fun _ => id) fun n _ hn => Or.inr (Or.inl hn)
    · exact absurd hs nofun
  | readBlob planId =>
    obtain ⟨blob, hblob, rfl⟩ := Option.map_eq_some_iff.mp hs
    -- what a fire pass reads of a blob is stored, and so was live before
    have hstored : d.world.Stored blob.nonce :=
      PresignWorld.stored_iff.mpr ⟨planId, blob, hblob, rfl⟩
    refine h.mono rfl rfl le_rfl (fun _ => id) (fun n hn => ?_)
      fun n _ hn => Or.inr (Or.inl (hn.imp id (Or.imp id (List.mem_cons_of_mem _))))
    rcases hn with hn | hn | hn
    · exact Or.inl hn
    · exact Or.inr (Or.inl hn)
    · rcases List.mem_cons.mp hn with rfl | hn
      · exact Or.inl hstored
      · exact Or.inr (Or.inr hn)
  | reserveNonce rpcNonce =>
    rw [step] at hs
    split at hs
    · next hfloor =>
      obtain rfl := Option.some.inj hs
      refine tidy_reserve h hfloor (Slot.reserved_reserve _ _ _) rfl rfl
        (fun g hg => Or.inr hg) fun m => ?_
      exact (or_congr Iff.rfl ((or_congr Iff.rfl List.mem_cons).trans or_left_comm)).trans
        or_left_comm
    · exact absurd hs nofun
  | broadcast nonce =>
    obtain rfl := Option.some.inj hs
    exact h.mono rfl rfl le_rfl (fun _ => List.mem_cons_of_mem _) (fun _ => id)
      fun n _ hn => Or.inr (Or.inl hn)
  | releaseNonce nonce =>
    rw [step] at hs
    split at hs
    · next hn =>
      obtain rfl := Option.some.inj hs
      -- above the reservation `releaseNonce` takes nothing: the nonce is given up
      by_cases hle : (nonce : ℤ) ≤ d.world.slot.highest
      · exact tidy_release h hn hle
      · rw [Slot.release_of_highest_lt (not_le.mp hle)]
        exact tidy_settle h (hkeep.resolve_left hle)
    · exact absurd hs nofun
  | settle nonce =>
    rw [step] at hs
    split at hs
    · obtain rfl := Option.some.inj hs
      exact tidy_settle h hkeep
    · exact absurd hs nofun
  | purge planId =>
    obtain rfl := Option.some.inj hs
    exact tidy_purge h hkeep

/-! ### Runs -/

variable {pending : ℕ}

theorem informed_of_reachable (h : Reachable (step config) (start walletAddress pending) d) :
    d.Informed :=
  h.invariant (fun _ => nofun) fun _ _ _ _ hinf _ hs => informed_step hinf hs

theorem tidy_of_reach (h : Reach (step config) KeepsNonces (start walletAddress pending) d) :
    d.Tidy := by
  refine h.invariant ?_ fun d _ _ hr h hkeep hs =>
    tidy_step (informed_of_reachable hr.reachable) h hkeep hs
  -- nothing has been handed out, nothing is stored, and nothing is free
  rintro n (⟨g, hg, _⟩ | ⟨held, hheld, _⟩ | ⟨p, hp, _⟩ | ⟨planId, hplan, _⟩ | ⟨t, ht, _⟩ |
    ⟨m, hm, _⟩)
  · exact absurd hg List.not_mem_nil
  · exact absurd hheld (Option.not_mem_none _)
  · exact absurd hp List.not_mem_nil
  · exact absurd hplan List.not_mem_nil
  · exact absurd ht List.not_mem_nil
  · exact absurd hm List.not_mem_nil

/-- At a quiescent moment what is live is stored. -/
theorem Informed.live_iff (h : d.Informed) (hq : d.Quiescent) (n : ℕ) :
    d.Live n ↔ d.world.Stored n := by
  refine or_iff_left ?_
  rintro (⟨t, ht, hn⟩ | hn)
  · obtain ⟨_, hnone⟩ := (h t ht).1.of_done (hq.1 t ht)
    rw [hnone] at hn
    exact absurd hn nofun
  · rw [hq.2] at hn
    exact absurd hn List.not_mem_nil

/-- What may not be lost was remembered, and is not kept once the blob or the pass that
carries it has gone. -/
theorem lost_of_not_mayLose {rest : PresignRun} (h : ¬ d.MayLose rest n)
    (hslot : d'.world.slot = d.world.slot) (hused : d'.world.used = d.world.used)
    (hlive : d'.Live n → rest.Live n) : d.Remembered n ∧ ¬ d'.Kept n := by
  simp only [MayLose, not_or, not_not] at h
  obtain ⟨hunused, hfree, hgone, hn⟩ := h
  refine ⟨hn, ?_⟩
  rintro (h | h | h)
  · exact hunused (hused ▸ h)
  · exact hgone (hlive h)
  · exact hfree (hslot ▸ h)

theorem lost_of_fail (hi : d.passes[i]? = some t) (hheld : t'.here.held = none)
    (h : ¬ d.MayFail i t.here) :
    ∃ n, d.Remembered n ∧ ¬ Kept ⟨d.world, d.passes.set i t'⟩ n := by
  simp only [MayFail, not_forall] at h
  obtain ⟨n, _, h⟩ := h
  refine ⟨n, lost_of_not_mayLose h rfl rfl (Or.imp id (Or.imp (fun hn => ?_) id))⟩
  exact ((holds_set hi).mp hn).resolve_left (by rw [hheld]; exact nofun)

theorem lost_of_save (hi : d.passes[i]? = some t) (hheld : t.here.held = some m)
    (hheld' : t'.here.held = none) (h : ¬ d.MayPurge planId) :
    ∃ n, d.Remembered n ∧
      ¬ Kept ⟨{ d.world with blobs := d.world.blobs.insert planId ⟨m, d.world.nowMs⟩ },
        d.passes.set i t'⟩ n := by
  simp only [MayPurge, not_forall] at h
  obtain ⟨blob, _, h⟩ := h
  refine ⟨blob.nonce, lost_of_not_mayLose h rfl rfl ?_⟩
  rintro (hn | hn | hn)
  · rcases PresignWorld.stored_insert.mp hn with hm | hn
    · exact Or.inr (Or.inl ((holds_iff (w := d.world) hi).mpr (Or.inl (hm ▸ hheld))))
    · exact Or.inl hn
  · rcases (holds_set hi).mp hn with hn | hn
    · rw [hheld'] at hn
      exact absurd hn nofun
    · exact Or.inr (Or.inl ((holds_iff hi).mpr (Or.inr hn)))
  · exact Or.inr (Or.inr hn)

theorem lost_of_settle (h : ¬ d.MaySettle n) :
    d.Remembered n ∧
      ¬ Kept ⟨{ d.world with firing := d.world.firing.erase n }, d.passes⟩ n :=
  lost_of_not_mayLose h rfl rfl id

/-- **A step that breaks the condition loses a nonce** that was remembered. -/
theorem lost_of_breaks (hinf : d.Informed) (hs : step config d l = some d')
    (hbreak : ¬ d.KeepsNonces l) : ∃ n, d.Remembered n ∧ ¬ d'.Kept n := by
  cases l with
  | advance i answer =>
    obtain ⟨⟨w', ts'⟩, ha, rfl⟩ := Option.map_eq_some_iff.mp hs
    obtain ⟨c, k, here, hi, hx, rfl, rfl⟩ := advance_cases ha
    have hguard := (safe_advance (x := answer c) hi (fun t ht => (hinf t ht).1) trivial).1
    have hanswer : ¬ d.AnswerKeeps i here c (answer c) := by
      rw [KeepsNonces, hi] at hbreak
      exact hbreak
    generalize answer c = x at hx hanswer ⊢
    cases c with
    | reserveNonce walletAddress rpcNonce =>
      obtain rfl := hx
      exact absurd trivial hanswer
    | savePresignedTx planId rawTx nonce txHash =>
      cases x with
      | error e => exact lost_of_fail hi rfl hanswer
      | ok _ => exact lost_of_save hi hguard rfl hanswer
    | _ =>
      cases x with
      | error e => exact lost_of_fail hi rfl hanswer
      | ok a => exact absurd trivial hanswer
  | releaseNonce nonce =>
    rw [step] at hs
    split at hs
    · obtain rfl := Option.some.inj hs
      rw [KeepsNonces, not_or, not_le] at hbreak
      rw [Slot.release_of_highest_lt hbreak.1]
      exact ⟨nonce, lost_of_settle hbreak.2⟩
    · exact absurd hs nofun
  | settle nonce =>
    rw [step] at hs
    split at hs
    · obtain rfl := Option.some.inj hs
      exact ⟨nonce, lost_of_settle hbreak⟩
    · exact absurd hs nofun
  | purge planId =>
    obtain rfl := Option.some.inj hs
    simp only [KeepsNonces, MayPurge, not_forall] at hbreak
    obtain ⟨blob, _, h⟩ := hbreak
    exact ⟨blob.nonce, lost_of_not_mayLose h rfl rfl id⟩
  | _ => exact absurd trivial hbreak

/-- **Pre-signing strands no nonce, as long as no step loses one.**  What is stored then
starts at the pending nonce and has no gap, exactly when no stored blob has been overtaken
and no free nonce below one waits to be used. -/
theorem presign_strands_none
    (h : Reach (step config) KeepsNonces (start walletAddress pending) d) :
    (d.Quiescent → d.world.Accounted ∧
      ∀ pending', d.world.OffWire pending' → (d.world.Contiguous pending' ↔ d.world.Filled)) ∧
      ∀ l d', step config d l = some d' → ¬ d.KeepsNonces l →
        ∃ n, d.Remembered n ∧ ¬ d'.Kept n := by
  have htidy := tidy_of_reach h
  have hinf := informed_of_reachable h.reachable
  refine ⟨fun hq => ?_, fun l d' => lost_of_breaks hinf⟩
  have hkept : ∀ n, d.Remembered n →
      d.world.Stored n ∨ n ∈ d.world.used ∨ n ∈ d.world.slot.freed := by
    intro n hn
    rcases htidy n hn with hn | hn | hn
    · exact Or.inr (Or.inl hn)
    · exact Or.inl ((hinf.live_iff hq n).mp hn)
    · exact Or.inr (Or.inr hn)
  refine ⟨fun g hg hle => hkept g.1 (Or.inl ⟨g, hg, hle, rfl⟩), fun pending' hoff => ?_⟩
  constructor
  · intro hc
    refine ⟨fun n hn hused => ?_, fun p _ hp ⟨n, hn, hlt⟩ => ?_⟩
    · exact absurd ((hoff n).mp hused) (not_lt.mpr (hc n hn).1)
    · exact (hc n hn).2 p (not_lt.mp fun hlt => hp ((hoff p).mpr hlt)) hlt
  · rintro ⟨hfresh, hfilled⟩ n hn
    refine ⟨not_lt.mp fun hlt => hfresh n hn ((hoff n).mpr hlt), fun m hle hlt => ?_⟩
    have hunused : m ∉ d.world.used := fun hused => absurd ((hoff m).mp hused) (not_lt.mpr hle)
    have habove : d.LiveAbove m := liveAbove_iff.mpr ⟨n, Or.inl hn, hlt⟩
    rcases hkept m (Or.inr (Or.inr (Or.inr habove))) with hm | hm | hm
    · exact hm
    · exact absurd hm hunused
    · exact hfilled m hm hunused ⟨n, hn, hlt⟩

end PresignRun

/-! ### A wallet with one plan -/

namespace Sample

/-- The row of the plan, with what is stored of its blob. -/
def candidate (blob : Option Blob) : PresignCandidate :=
  { planId := "p", walletId := "w", walletAddress := "0xab", stageStartMs := 40000
    presignedAt := blob.map Blob.presignedAt, presignedNonce := blob.map Blob.nonce
    cachedTx := none, cachedTxAt := none, perPlanCeilingWei := 10, quantity := 1
    stagePriceWei := none, stageCurrency := none }

/-- What a pass is answered when the row carries `blob`, the pending nonce is `pending` and
the allocator hands out `nonce`. -/
def presignAnswer (blob : Option Blob) (pending nonce : ℕ) :
    (c : Cmd) → Except Thrown c.Resp
  | .armedManagedPlansForPresign _ => .ok [candidate blob]
  | .fetchFeeContext .. => .ok ⟨pending, 2, 1⟩
  | .reserveNonce .. => .ok nonce
  | c => answer c

/-- The next `k` commands of the `i`-th pass. -/
def commands (k i : ℕ) (blob : Option Blob) (pending nonce : ℕ) : List PresignStep :=
  List.replicate k (.advance i (presignAnswer blob pending nonce))

end Sample

namespace PresignRun

/-- The fire pass gives the plan's blob up, reserves its nonce again for a live transaction
and sends that; the blob is then signed at the next nonce. -/
theorem presign_strands_none_advanced :
    ∃ d, Reach (step Sample.config) KeepsNonces (start "0xab" 5) d ∧
      (d.Quiescent ∧ d.world.Stored 6 ∧ d.world.handed.length = 2) ∧
      (d.Quiescent → d.world.Accounted ∧
        ∀ pending, d.world.OffWire pending → (d.world.Contiguous pending ↔ d.world.Filled)) ∧
      ∀ l d', step Sample.config d l = some d' → ¬ d.KeepsNonces l →
        ∃ n, d.Remembered n ∧ ¬ d'.Kept n := by
  obtain ⟨d, hr, hp⟩ := exists_reach_of_run (step Sample.config) KeepsNonces (start "0xab" 5)
    ([.start 0 0] ++ Sample.commands 15 0 none 5 5 ++
      [.readBlob "p", .purge "p", .releaseNonce 5, .reserveNonce 5, .broadcast 5, .settle 5,
        .tick 1000, .start 1000 0] ++ Sample.commands 15 1 none 6 6)
    (fun d => decide (d.Quiescent ∧ d.world.Stored 6 ∧ d.world.handed.length = 2))
    (by decide) (by decide)
  exact ⟨d, hr, of_decide_eq_true hp, presign_strands_none hr⟩

/-- **Overlapping passes strand the wallet.**  Two passes have read the plan's row before
either stores a blob.  One stores the blob at nonce 5, the other replaces it by one at
nonce 6, and nothing is left of nonce 5. -/
theorem overlap_strands :
    ¬ ∀ config walletAddress pending d,
      Reachable (step config) (start walletAddress pending) d → d.Quiescent →
        d.world.StrandsNone := by
  intro hclaim
  obtain ⟨d, hr, hp⟩ := exists_reachable_of_run (step Sample.config) (start "0xab" 5)
    ([.start 0 0, .start 0 0] ++ Sample.commands 1 1 none 5 6 ++ Sample.commands 15 0 none 5 5 ++
      Sample.commands 14 1 none 5 6)
    (fun d => decide (d.Quiescent ∧ ¬ d.world.Accounted)) (by decide)
  obtain ⟨hq, hlost⟩ := of_decide_eq_true hp
  exact hlost (hclaim _ _ _ _ hr hq).1

end PresignRun

end MintWorker
