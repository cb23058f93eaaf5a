/-
The fallback from a stale blob.

Fix a stored blob, every endpoint's rejection of it, what the endpoints answer for its
hash, the wallet's slot in the nonce allocator and the pending nonce reported to the live
path (`StaleWorld`).  A fire may then sign a second transaction; at the blob's own nonce it
replaces the blob, at another one both can mine.

* `resigns_iff` — while the blob may still mine, a fire that has raced it signs at its
  nonce only, exactly when the live path does not get to sign, or the allocator hands the
  blob's nonce out again;
* `stale_doubles` — a blob that is pending in a node's pool, so that the pending nonce lies
  above its own: the fire signs at the next nonce.
-/
import HoodMint.NonceAllocator
import HoodMint.SignerFrame

namespace MintWorker

open Effect NonceAllocator

/-! ### What is known of the blob -/

/-- The blob of a plan, how each endpoint rejects it, and what its fate depends on.
`superseded` says that another transaction has mined at its nonce; `meanwhile` is what the
wallet's other fires make of the slot between the fire's own release and reservation. -/
structure StaleWorld where
  rawTx : String
  txHash : String
  nonce : ℕ
  rawTx_ne : rawTx ≠ ""
  errors : List Thrown
  superseded : Bool
  receipt : Receipts
  slot : Slot
  meanwhile : Slot → Slot
  pending : ℕ
  nowMs : ℕ

namespace StaleWorld

variable (w : StaleWorld)

/-- The stored row. -/
def row : Presigned := ⟨some w.rawTx, some w.txHash, some w.nonce⟩

/-- The blob may still mine, or has mined, successfully: no endpoint reports it reverted,
and its nonce is not taken, or some endpoint holds it in its pool. -/
def MayMine : Prop :=
  (∀ url, w.receipt url w.txHash ≠ .ok (some .reverted)) ∧
    (w.superseded = false ∨ ∃ e ∈ w.errors, mentions "already known" e.message = true)

/-- The slot as the live path finds it: the blob's nonce has been given back. -/
def found : Slot := w.meanwhile (w.slot.release w.nonce)

end StaleWorld

/-- The nonce the live path starts from: the prefetched one, else the pending nonce, when
there is an endpoint to ask. -/
def FireMode.reported (mode : FireMode) (pending : ℕ) : Option ℕ :=
  match mode.feesPrefetch with
  | some (.ok fees) => some fees.nonce
  | _ => if mode.fireUrls = [] then none else some pending

/-- The wallet's slot, and whether the blob has been raced. -/
structure StaleState where
  slot : Slot
  raced : Bool

/-- After the blob has been raced, transactions are signed at its nonce only, in a world
that answers as `w` says. -/
def staleFallback (w : StaleWorld) : Monitor signature Thrown StaleState where
  guard s c :=
    match c with
    | .signManagedMintTransaction managed _ => s.raced = true → managed.nonce = w.nonce
    | _ => True
  allowed s c x :=
    match c, x with
    | .selectPresigned _, .ok row => row = some w.row
    | .raceRawTransaction .., answer =>
      s.raced = false → answer = .ok (.error w.errors) ∨ ∃ txHash, answer = .ok (.ok txHash)
    | .getTransactionReceipt url txHash, answer => txHash = w.txHash → answer = w.receipt url txHash
    | .fetchFeeContext .., .ok fees => fees.nonce = w.pending
    | .reserveNonce _ rpcNonce, .ok nonce =>
      nonce = ((w.meanwhile s.slot).reserve rpcNonce w.nowMs).1
    | _, _ => True
  next s c x :=
    match c, x with
    | .raceRawTransaction .., _ => { s with raced := true }
    | .releaseNonce _ nonce, .ok _ => { s with slot := s.slot.release nonce }
    | .reserveNonce _ rpcNonce, .ok _ =>
      { s with slot := ((w.meanwhile s.slot).reserve rpcNonce w.nowMs).2 }
    | _, _ => s

/-- Every run of the fire signs at the blob's nonce only, once it has raced the blob. -/
def ResignsAtNonce (config : Config) (plan : Plan) (tx : Tx) (wallet : Wallet) (rpcUrl : String)
    (mode : FireMode) (w : StaleWorld) : Prop :=
  ∀ tr en, (runManagedFire config plan tx wallet rpcUrl mode).Runs tr en →
    (staleFallback w).Admits ⟨w.slot, false⟩ tr → (staleFallback w).Keeps ⟨w.slot, false⟩ tr en

/-- The fire does not get to sign: it has no key, it does not use the blob, the rejection
is not about nonce or fee, an endpoint reads the blob's own success, or there is no
endpoint to ask for fees. -/
def NeverResigns (wallet : Wallet) (mode : FireMode) (w : StaleWorld) : Prop :=
  wallet.encryptedSigningKey = none ∨ mode.nearFire = true ∨
    isStalePresignError (pickBroadcastError w.errors).text = false ∨
    (∃ url ∈ mode.fireUrls, w.receipt url w.txHash = .ok (some .success)) ∨
    mode.reported w.pending = none

section

variable {config : Config} {plan : Plan} {tx : Tx} {wallet : Wallet} {rpcUrl : String}
  {mode : FireMode} {w : StaleWorld} {α : Type} {s : StaleState}

/-! ### The parts that do not sign -/

/-- Quiet commands leave the monitor's state alone. -/
theorem quiet_still {p : Worker α} (h : Quiet p) :
    p.wp (staleFallback w) (fun _ s' => s' = s) s := by
  refine Prog.Only.wp (I := fun s' => s' = s) h ?_ ?_ rfl
  · rintro s' c hc rfl
    cases c <;> first | exact trivial | exact absurd hc id
  · rintro s' c x hc rfl _
    cases c <;> first | rfl | exact absurd hc id

/-- What does not sign meets the monitor. -/
theorem clerical_still {p : Worker α} (h : Clerical p) :
    p.wp (staleFallback w) (fun _ _ => True) s := by
  refine Prog.Only.wp (I := fun _ => True) h (fun s' c hc _ => ?_) (fun _ _ _ _ _ _ => trivial) trivial
  cases c <;> first | exact trivial | exact absurd hc id

theorem raceBroadcast_still {urls : List String} {rawTx : String} :
    (raceBroadcast urls rawTx).wp (staleFallback w) (fun _ _ => True) s := by
  refine Prog.wp_bind.mpr (Prog.wp_issue.mpr ⟨trivial, fun x _ => ?_⟩)
  rcases x with e | errors | txHash
  · trivial
  · trivial
  · trivial

theorem failover_still (urls : List String) (last : Thrown) :
    (failover (fun url => ask (.fetchFeeContext url wallet.address)) last urls).wp
      (staleFallback w) (fun r s' => s' = s ∧ ∀ fees, r = .ok fees → fees.nonce = w.pending) s := by
  induction urls generalizing last with
  | nil => exact ⟨rfl, fun _ h => nomatch h⟩
  | cons url urls ih =>
    refine Prog.wp_bind.mpr (Prog.wp_attempt.mpr (Prog.wp_issue.mpr ⟨trivial, fun x hx => ?_⟩))
    rcases x with e | fees
    · exact ih e
    · refine ⟨rfl, ?_⟩
      rintro _ ⟨⟩
      exact hx

/-- The nonce of the live path is the prefetched one, or the pending one. -/
theorem feesLive_still : (feesLive wallet mode).wp (staleFallback w)
    (fun r s' => s' = s ∧ ∀ fees, r = .ok fees → mode.reported w.pending = some fees.nonce) s := by
  have hask : (∀ fees, mode.feesPrefetch ≠ some (.ok fees)) →
      (withRpcFailover mode.fireUrls fun url => ask (.fetchFeeContext url wallet.address)).wp
        (staleFallback w) (fun r s' => s' = s ∧
          ∀ fees, r = .ok fees → mode.reported w.pending = some fees.nonce) s := by
    intro hpre
    have hreported : mode.reported w.pending = if mode.fireUrls = [] then none else some w.pending := by
      rw [FireMode.reported]
      split
      · next fees h => exact absurd h (hpre fees)
      · rfl
    rw [hreported]
    cases mode.fireUrls with
    | nil => exact ⟨rfl, fun _ h => nomatch h⟩
    | cons url urls =>
      refine Prog.wp_mono (failover_still (url :: urls) _) ?_
      rintro r s' ⟨hs, h⟩
      exact ⟨hs, fun fees hr => by rw [if_neg (List.cons_ne_nil _ _), h fees hr]⟩
  rw [feesLive]
  split
  · next fees hpre =>
    refine ⟨rfl, ?_⟩
    rintro _ ⟨⟩
    rw [FireMode.reported, hpre]
  · next hpre => exact hask hpre

theorem prepareLive_still : (prepareLive config plan tx wallet rpcUrl mode).wp (staleFallback w)
    (fun r s' => s' = s ∧ ∀ gasEstimate fees, r = .ok (some (gasEstimate, fees)) →
      mode.reported w.pending = some fees.nonce) s := by
  refine Prog.wp_bind_of (quiet_still idle_simulateLive.quiet.attempt) ?_ fun _ _ h => ⟨h, fun _ _ h => nomatch h⟩
  rintro sim _ rfl
  refine Prog.wp_bind.mpr (Prog.wp_attempt.mpr (Prog.wp_mono feesLive_still ?_))
  rintro fees _ ⟨rfl, hfees⟩
  dsimp only
  split
  · exact ⟨rfl, fun _ _ h => nomatch h⟩
  · exact ⟨rfl, fun _ _ h => nomatch h⟩
  · refine Prog.wp_bind_of (quiet_still (quiet_record nofun)) ?_
      fun _ _ h => ⟨h, fun _ _ h => nomatch h⟩
    rintro _ _ rfl
    refine Prog.wp_bind_of (quiet_still quiet_releaseMintPlanToArmed) ?_
      fun _ _ h => ⟨h, fun _ _ h => nomatch h⟩
    rintro _ _ rfl
    exact ⟨rfl, fun _ _ h => nomatch h⟩
  · refine ⟨rfl, ?_⟩
    rintro _ _ ⟨⟩
    exact hfees _ rfl

/-- The live path, where the allocator hands out the blob's nonce once that has been
raced. -/
theorem fireLive_still {key : String}
    (h : s.raced = true → ∀ rpcNonce ∈ mode.reported w.pending,
      (w.meanwhile s.slot).Hands rpcNonce w.nowMs w.nonce) :
    (fireLive config plan tx wallet key rpcUrl mode).wp (staleFallback w) (fun _ _ => True) s := by
  refine Prog.wp_bind.mpr (Prog.wp_attempt.mpr (Prog.wp_mono prepareLive_still ?_))
  rintro (e | _ | ⟨gasEstimate, fees⟩) s₁ ⟨rfl, hfees⟩
  · exact clerical_still clerical_rescueLive
  · trivial
  · refine Prog.wp_bind.mpr (Prog.wp_attempt.mpr (Prog.wp_issue.mpr ⟨trivial, fun x hx => ?_⟩))
    rcases x with e | nonce
    · exact clerical_still clerical_rescueLive
    · have hsign : (signLive tx key mode nonce gasEstimate fees).wp (staleFallback w)
          (fun _ _ => True)
          ((staleFallback w).next s₁ (.reserveNonce wallet.address fees.nonce) (.ok nonce)) := by
        refine Prog.wp_bind_of (R := fun _ _ => True) ?_ ?_ fun _ _ _ => trivial
        · refine Prog.wp_tryCatch.mpr (Prog.wp_issue.mpr ⟨fun hraced => ?_, fun x _ => ?_⟩)
          · exact (show nonce = _ from hx).trans
              (Slot.reserve_eq_iff.mpr (h hraced _ (hfees _ _ rfl)))
          rcases x with e | signed
          · trivial
          · trivial
        · intro signed s₁ _
          exact Prog.wp_bind_of (clerical_still (idle_holdForOpen _).quiet.clerical)
            (fun _ _ _ => trivial) fun _ _ _ => trivial
      refine Prog.wp_bind.mpr (Prog.wp_attempt.mpr (Prog.wp_mono hsign ?_))
      rintro (e | signed) s₂ _
      · exact clerical_still clerical_rescueLive
      · have hsend : (sendLive config plan rpcUrl mode signed).wp (staleFallback w)
            (fun _ _ => True) s₂ := by
          refine Prog.wp_bind_of (clerical_still (clerical_ask trivial)) ?_ fun _ _ _ => trivial
          intro _ s₃ _
          refine Prog.wp_bind_of (clerical_still idle_liveUrls.quiet.clerical) ?_ fun _ _ _ => trivial
          intro urls s₄ _
          exact raceBroadcast_still
        refine Prog.wp_bind.mpr (Prog.wp_attempt.mpr (Prog.wp_mono hsend ?_))
        rintro (e | txHash) s₃ _
        · exact clerical_still clerical_rescueLive
        · exact clerical_still (quiet_settleLive.clerical.tryCatch fun _ =>
            (quiet_ignoreErrors quiet_markMintPlanExecuted).clerical)

/-! ### What discarding the blob comes to -/

theorem staleFallback_receipts (url : String) :
    (staleFallback w).guard s (.getTransactionReceipt url w.txHash) ∧
      ∀ x, (staleFallback w).allowed s (.getTransactionReceipt url w.txHash) x →
        x = w.receipt url w.txHash ∧
          (staleFallback w).next s (.getTransactionReceipt url w.txHash) x = s :=
  ⟨trivial, fun _ hx => ⟨hx rfl, rfl⟩⟩

/-- A fire goes on after discarding the blob only when the rejection was about nonce or
fee and no endpoint has read a success; it has given the blob's nonce back. -/
theorem discardBlob_still {error : Thrown}
    (hr : ∀ url, w.receipt url w.txHash ≠ .ok (some .reverted)) :
    (discardBlob plan wallet mode w.row error).wp (staleFallback w)
      (fun r s' => r = .ok false → isStalePresignError error.text = true ∧
        (∀ url ∈ mode.fireUrls, w.receipt url w.txHash ≠ .ok (some .success)) ∧
        s' = ⟨s.slot.release w.nonce, s.raced⟩) s := by
  refine Prog.wp_bind_of (quiet_still quiet_clearPresignedTx) ?_ fun _ _ _ h => nomatch h
  rintro _ _ rfl
  split
  · -- nothing of this branch returns `false`
    have hend : ∀ {p : Worker Unit} {s' : StaleState}, Quiet p →
        (do p; return true : Worker Bool).wp (staleFallback w) (fun r _ => r ≠ .ok false) s' :=
      fun hp => Prog.wp_bind_of (quiet_still hp) (fun _ _ _ h => nomatch h) fun _ _ _ h => nomatch h
    refine Prog.wp_bind_of (quiet_still (quiet_record nofun)) ?_ fun _ _ _ h => nomatch h
    rintro _ _ _
    split
    · exact Prog.wp_mono (hend quiet_failPlanAndNotify) fun _ _ h hf => absurd hf h
    · exact Prog.wp_mono (hend quiet_releaseMintPlanToArmed) fun _ _ h hf => absurd hf h
  · next hstale =>
    rw [Bool.not_eq_false] at hstale
    refine Prog.wp_bind_of (resolveTxOutcome_wp staleFallback_receipts mode.fireUrls) ?_
      fun _ _ _ h => nomatch h
    rintro _ _ ⟨⟨⟩, rfl⟩
    rw [Receipts.outcome_of_not_reverted hr]
    by_cases hsuccess : ∃ url ∈ mode.fireUrls, w.receipt url w.txHash = .ok (some .success)
    · rw [if_pos hsuccess]
      refine Prog.wp_bind_of (clerical_still (clerical_ask trivial)) ?_ fun _ _ _ h => nomatch h
      intro _ s₁ _
      exact Prog.wp_bind_of (quiet_still quiet_markMintPlanExecuted) (fun _ _ _ h => nomatch h)
        fun _ _ _ h => nomatch h
    · rw [if_neg hsuccess]
      push Not at hsuccess
      refine Prog.wp_bind.mpr (Prog.wp_issue.mpr ⟨trivial, fun x _ => ?_⟩)
      rcases x with e | _
      · exact fun h => nomatch h
      · exact fun _ => ⟨hstale, hsuccess, rfl⟩

/-- A race of the blob is rejected as the world says. -/
theorem raceBlob_still (hs : s.raced = false) :
    (raceBlob config rpcUrl w.rawTx).wp (staleFallback w)
      (fun r s' => s'.slot = s.slot ∧
        ∀ e, r = .error e → s'.raced = true → e = pickBroadcastError w.errors) s := by
  refine Prog.wp_bind_of (quiet_still idle_resolveBroadcastRpcUrls.quiet) ?_ ?_
  · rintro urls _ rfl
    refine Prog.wp_bind.mpr (Prog.wp_issue.mpr ⟨trivial, fun x hx => ?_⟩)
    rcases hx hs with rfl | ⟨txHash, rfl⟩
    · refine ⟨rfl, ?_⟩
      rintro _ ⟨⟩ _
      rfl
    · exact ⟨rfl, fun _ h => nomatch h⟩
  · rintro e _ rfl
    refine ⟨rfl, ?_⟩
    intro _ _ hraced
    exact absurd (hs.symm.trans hraced) Bool.noConfusion

/-- A fire goes on after racing the blob only when it does get to sign; it has given the
blob's nonce back. -/
theorem fireFast_still (hr : ∀ url, w.receipt url w.txHash ≠ .ok (some .reverted))
    (hs : s.raced = false) :
    (fireFast config plan wallet rpcUrl mode w.row w.rawTx).wp (staleFallback w)
      (fun r s' => r = .ok false → s'.raced = true →
        isStalePresignError (pickBroadcastError w.errors).text = true ∧
        (∀ url ∈ mode.fireUrls, w.receipt url w.txHash ≠ .ok (some .success)) ∧
        s'.slot = s.slot.release w.nonce) s := by
  refine Prog.wp_bind.mpr (Prog.wp_attempt.mpr (Prog.wp_mono (raceBlob_still hs) ?_))
  rintro (e | txHash) s₁ ⟨hslot, he⟩
  · refine Prog.wp_mono (discardBlob_still hr) fun r s₂ h hf hraced => ?_
    obtain ⟨hstale, hnone, rfl⟩ := h hf
    obtain rfl := he e rfl hraced
    exact ⟨hstale, hnone, by rw [hslot]⟩
  · refine Prog.wp_bind_of (clerical_still (clerical_settleFast.tryCatch fun _ =>
      quiet_rescueFast.clerical)) (fun _ _ _ h => nomatch h) fun _ _ _ h => nomatch h

theorem blobToFire_row (h : mode.nearFire = false) :
    blobToFire mode (some w.row) = some (w.row, w.rawTx) := by
  rw [blobToFire, h]
  exact if_neg w.rawTx_ne

/-- Every run of the fire signs at the blob's nonce only, when it does not get to sign or
is handed that nonce. -/
theorem resignsAtNonce_of (hmine : w.MayMine)
    (h : NeverResigns wallet mode w ∨
      ∀ rpcNonce ∈ mode.reported w.pending, w.found.Hands rpcNonce w.nowMs w.nonce) :
    ResignsAtNonce config plan tx wallet rpcUrl mode w := by
  intro tr en hrun ha
  suffices hw : (runManagedFire config plan tx wallet rpcUrl mode).wp (staleFallback w)
      (fun _ _ => True) ⟨w.slot, false⟩ from (Prog.sound hw hrun ha).1
  rw [runManagedFire]
  cases hkey : wallet.encryptedSigningKey with
  | none =>
    exact clerical_still (.bind (clerical_ask trivial) fun _ => quiet_failPlanAndNotify.clerical)
  | some key =>
    refine Prog.wp_bind.mpr (Prog.wp_issue.mpr ⟨trivial, fun x hx => ?_⟩)
    rcases x with e | row
    · trivial
    · obtain rfl : row = some w.row := hx
      dsimp only
      rcases Bool.eq_false_or_eq_true mode.nearFire with hnear | hnear
      · rw [blobToFire, hnear]
        exact fireLive_still fun hraced => absurd hraced Bool.false_ne_true
      · rw [blobToFire_row hnear]
        refine Prog.wp_bind_of (fireFast_still hmine.1 rfl) ?_ fun _ _ _ => trivial
        rintro (_ | _) s₁ h₁
        · refine fireLive_still fun hraced rpcNonce hreported => ?_
          obtain ⟨hstale, hnone, hslot⟩ := h₁ rfl hraced
          rw [hslot]
          rcases h with (hk | hn | hf | ⟨url, hurl, hs⟩ | hrep) | hhands
          · exact absurd (hkey.symm.trans hk) (Option.some_ne_none key)
          · exact absurd (hnear.symm.trans hn) Bool.noConfusion
          · exact absurd (hstale.symm.trans hf) Bool.noConfusion
          · exact absurd hs (hnone url hurl)
          · rw [hrep] at hreported
            exact absurd hreported (Option.not_mem_none _)
          · exact hhands rpcNonce hreported
        · trivial

/-! ### A fire that signs at another nonce -/

theorem staleFallback_answers (s : StaleState) (c : Cmd) :
    ∃ x, (staleFallback w).allowed s c x := by
  cases c with
  | raceRawTransaction => exact ⟨.ok (.error w.errors), fun _ => Or.inl rfl⟩
  | getTransactionReceipt url txHash => exact ⟨w.receipt url txHash, fun _ => rfl⟩
  | _ => exact ⟨.error (.error ""), trivial⟩

/-- The fast path can go on to the live path, the blob's nonce given back. -/
theorem fireFast_may (hr : ∀ url, w.receipt url w.txHash ≠ .ok (some .reverted))
    (hstale : isStalePresignError (pickBroadcastError w.errors).text = true)
    (hnone : ∀ url ∈ mode.fireUrls, w.receipt url w.txHash ≠ .ok (some .success)) :
    (fireFast config plan wallet rpcUrl mode w.row w.rawTx).may (staleFallback w)
      (fun r s' => r = .ok false ∧ s' = ⟨s.slot.release w.nonce, true⟩) s := by
  have hdiscard : (discardBlob plan wallet mode w.row (pickBroadcastError w.errors)).may
      (staleFallback w) (fun r s' => r = .ok false ∧ s' = ⟨s.slot.release w.nonce, true⟩)
      ⟨s.slot, true⟩ := by
    refine Prog.may_bind () (Prog.may_bind true (Prog.may_issue (.ok true) trivial ⟨rfl, rfl, ?_⟩))
    rw [if_neg (by rw [hstale]; exact Bool.noConfusion)]
    refine Prog.may_bind .unknown (Prog.may_mono (Prog.may_of_wp staleFallback_answers
      (resolveTxOutcome_wp staleFallback_receipts mode.fireUrls)) ?_)
    rintro _ _ ⟨rfl, rfl⟩
    rw [Receipts.outcome_of_not_reverted hr, if_neg (by push Not; exact hnone)]
    refine ⟨rfl, Prog.may_bind () (Prog.may_issue (.ok ()) trivial ⟨rfl, rfl, rfl⟩)⟩
  refine Prog.may_bind (.error (pickBroadcastError w.errors)) (Prog.may_attempt.mpr ?_)
  refine Prog.may_bind (broadcastRpcUrls [] config.robinhoodChainId (some rpcUrl))
    (Prog.may_bind [] (Prog.may_issue (.ok []) trivial ⟨rfl, rfl, ?_⟩))
  exact Prog.may_bind (.error w.errors)
    (Prog.may_issue (.ok (.error w.errors)) (fun _ => Or.inl rfl) ⟨rfl, rfl, hdiscard⟩)

theorem prepareLive_may {rpcNonce : ℕ} (hnear : mode.nearFire = false)
    (hreported : mode.reported w.pending = some rpcNonce) :
    ∃ gasEstimate fees, fees.nonce = rpcNonce ∧
      (prepareLive config plan tx wallet rpcUrl mode).may (staleFallback w)
        (fun r s' => r = .ok (some (gasEstimate, fees)) ∧ s' = s) s := by
  have hsim : (simulateLive config tx wallet rpcUrl mode).may (staleFallback w)
      (fun r s' => r = .ok (.ok (0 : ℕ)) ∧ s' = s) s := by
    rw [simulateLive, hnear, Bool.false_and, if_neg Bool.false_ne_true]
    exact Prog.may_issue (.ok (.ok (0 : ℕ))) trivial ⟨rfl, rfl⟩
  obtain ⟨fees, hnonce, hfees⟩ : ∃ fees, fees.nonce = rpcNonce ∧
      (feesLive wallet mode).may (staleFallback w) (fun r s' => r = .ok fees ∧ s' = s) s := by
    have hask : (if mode.fireUrls = [] then none else some w.pending) = some rpcNonce →
        ∃ fees, fees.nonce = rpcNonce ∧
          (withRpcFailover mode.fireUrls fun url => ask (.fetchFeeContext url wallet.address)).may
            (staleFallback w) (fun r s' => r = .ok fees ∧ s' = s) s := by
      intro hpending
      split at hpending
      · exact absurd hpending.symm (Option.some_ne_none _)
      · next hurls =>
        obtain ⟨url, urls, hurls⟩ := List.exists_cons_of_ne_nil hurls
        have hfees : (staleFallback w).allowed s (.fetchFeeContext url wallet.address)
            (.ok ⟨w.pending, 0, 0⟩) := rfl
        refine ⟨⟨w.pending, 0, 0⟩, Option.some.inj hpending, ?_⟩
        rw [hurls]
        exact Prog.may_bind (.ok ⟨w.pending, 0, 0⟩)
          (Prog.may_attempt.mpr (Prog.may_issue _ hfees ⟨rfl, rfl, rfl⟩))
    rw [FireMode.reported] at hreported
    rw [feesLive]
    rcases hpre : mode.feesPrefetch with _ | e | fees
    · rw [hpre] at hreported
      exact hask hreported
    · rw [hpre] at hreported
      exact hask hreported
    · rw [hpre] at hreported
      exact ⟨fees, Option.some.inj hreported, rfl, rfl⟩
  refine ⟨0, fees, hnonce, Prog.may_bind (.ok (.ok (0 : ℕ))) (Prog.may_attempt.mpr
    (Prog.may_mono hsim ?_))⟩
  rintro _ _ ⟨rfl, rfl⟩
  refine ⟨rfl, Prog.may_bind (.ok fees) (Prog.may_attempt.mpr (Prog.may_mono hfees ?_))⟩
  rintro _ _ ⟨rfl, rfl⟩
  exact ⟨rfl, rfl, rfl⟩

/-- The allocator hands out another nonce: the live path signs at it. -/
theorem fireLive_breaks {key : String} {rpcNonce : ℕ} (hnear : mode.nearFire = false)
    (hreported : mode.reported w.pending = some rpcNonce) (hraced : s.raced = true)
    (h : ¬ (w.meanwhile s.slot).Hands rpcNonce w.nowMs w.nonce) :
    (fireLive config plan tx wallet key rpcUrl mode).Breaks (staleFallback w) s := by
  obtain ⟨gasEstimate, fees, rfl, hprepare⟩ : ∃ gasEstimate fees, fees.nonce = rpcNonce ∧
      (prepareLive config plan tx wallet rpcUrl mode).may (staleFallback w)
        (fun r s' => r = .ok (some (gasEstimate, fees)) ∧ s' = s) s :=
    prepareLive_may hnear hreported
  refine .bind (.ok (some (gasEstimate, fees))) (Prog.may_attempt.mpr (Prog.may_mono hprepare ?_))
  rintro _ _ ⟨rfl, rfl⟩
  refine ⟨rfl, .bind (.ok _) (Prog.may_attempt.mpr (Prog.may_issue (.ok _) rfl ⟨rfl, ?_⟩))⟩
  refine .bind_left (.attempt (.bind_left (.tryCatch (.issue fun hguard => h ?_))))
  exact Slot.reserve_eq_iff.mp (hguard hraced)

/-- A fire that does get to sign, and is handed another nonce. -/
theorem runManagedFire_breaks {rpcNonce : ℕ} (hmine : w.MayMine)
    (hsigns : ¬ NeverResigns wallet mode w) (hreported : mode.reported w.pending = some rpcNonce)
    (h : ¬ w.found.Hands rpcNonce w.nowMs w.nonce) :
    (runManagedFire config plan tx wallet rpcUrl mode).Breaks (staleFallback w)
      ⟨w.slot, false⟩ := by
  rw [NeverResigns] at hsigns
  push Not at hsigns
  obtain ⟨hkey, hnear, hstale, hnone, _⟩ := hsigns
  obtain ⟨key, hkey⟩ := Option.ne_none_iff_exists'.mp hkey
  have hnear := Bool.eq_false_iff.mpr hnear
  have hstale := Bool.ne_false_iff.mp hstale
  rw [runManagedFire, hkey]
  refine .bind (some w.row) (Prog.may_issue (.ok (some w.row)) rfl ⟨rfl, ?_⟩)
  rw [blobToFire_row hnear]
  refine .bind false (Prog.may_mono (fireFast_may hmine.1 hstale hnone) ?_)
  rintro _ _ ⟨rfl, rfl⟩
  exact ⟨rfl, fireLive_breaks hnear hreported rfl h⟩

/-- **The fallback from a stale blob.**  While the blob may still mine, every run of a
fire that has raced it signs at its nonce only, if and only if the fire does not get to
sign, or the live path finds the blob's nonce next in line at the allocator. -/
theorem resigns_iff (config : Config) (plan : Plan) (tx : Tx) (wallet : Wallet) (rpcUrl : String)
    (mode : FireMode) (w : StaleWorld) :
    (w.MayMine → ResignsAtNonce config plan tx wallet rpcUrl mode w) ↔
      ¬ w.MayMine ∨ NeverResigns wallet mode w ∨
        ∀ rpcNonce ∈ mode.reported w.pending, w.found.Hands rpcNonce w.nowMs w.nonce := by
  constructor
  · intro h
    by_contra hne
    push Not at hne
    obtain ⟨hmine, hsigns, rpcNonce, hreported, hhands⟩ := hne
    obtain ⟨tr, en, hr, ha, hk⟩ := (runManagedFire_breaks hmine hsigns hreported hhands).exists_run
    exact hk (h hmine tr en hr ha)
  · rintro (hne | h) hmine
    · exact absurd hmine hne
    · exact resignsAtNonce_of hmine h

end

/-- The sample's blob at nonce 5: it is known to a node, so that the pending nonce is 6,
and it has no receipt yet. -/
def Sample.pendingWorld : StaleWorld where
  rawTx := "raw"
  txHash := "hash"
  nonce := 5
  rawTx_ne := by decide
  errors := [.error "already known"]
  superseded := false
  receipt _ _ := .ok none
  slot := ⟨some ⟨5, 0⟩, [], List.nodup_nil⟩
  meanwhile := id
  pending := 6
  nowMs := 0

/-- **A pending mint is doubled.**  The identical transaction sits in a node's pool and
has no receipt; the fire signs a second one at the next nonce. -/
theorem stale_doubles :
    (∃ e ∈ Sample.pendingWorld.errors, mentions "already known" e.message = true) ∧
      (∀ url, Sample.pendingWorld.receipt url "hash" = .ok none) ∧
      ∃ tr en, (runManagedFire Sample.config Sample.plan Sample.tx Sample.wallet "rpc"
          Sample.fire.mode).Runs tr en ∧
        (staleFallback Sample.pendingWorld).Admits ⟨Sample.pendingWorld.slot, false⟩ tr ∧
        ¬ (staleFallback Sample.pendingWorld).Keeps ⟨Sample.pendingWorld.slot, false⟩ tr en := by
  have hreported : Sample.fire.mode.reported Sample.pendingWorld.pending = some 6 := rfl
  refine ⟨by decide, fun _ => rfl, (runManagedFire_breaks ?_ ?_ hreported ?_).exists_run⟩
  · exact ⟨fun _ => nofun, Or.inl rfl⟩
  · rw [NeverResigns]
    decide
  · rintro ⟨hle, _⟩
    exact absurd hle (by decide)

end MintWorker
