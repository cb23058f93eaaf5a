/-
Write-ahead of every send.

The monitor `writeAhead` follows a server-side fire and demands, whenever a signed
transaction is handed to an endpoint, that its hash is already stored as a broadcast
attempt of the plan, or the plan can no longer be claimed.  It constrains no endpoint's
answer, and a run may break off at any point.

* `writesAhead_iff` — which fires meet it: the live managed-key path does; the pre-signed
  path only when the blob's hash has been recorded before; the delegated path does not;
* `fast_sends_first` — a pre-signed fire that sends, hears of no acceptance and re-arms the
  plan with nothing recorded.
-/
import HoodMint.SignerFrame

namespace MintWorker

open Effect

/-- The hashes stored as broadcast attempts of the plan, and whether the plan can still
be claimed. -/
structure AheadState where
  recorded : List String
  claimable : Bool

/-- Every transaction handed to an endpoint has its hash recorded.  `keccak` is the hash of
a raw transaction, which the signing package computes; `fresh` is the blob stored for the
plan. -/
def writeAhead (keccak : String → String) (fresh : Option Presigned) :
    Monitor signature Thrown AheadState where
  guard s c :=
    match c with
    | .raceRawTransaction _ rawTx => keccak rawTx ∈ s.recorded ∨ s.claimable = false
    | .broadcastRawTransaction _ rawTx => keccak rawTx ∈ s.recorded ∨ s.claimable = false
    | _ => True
  allowed _ c x :=
    match c, x with
    | .signManagedMintTransaction .., .ok signed => signed.txHash = keccak signed.rawTx
    | .signExecutorTransaction .., .ok signed => signed.txHash = keccak signed.rawTx
    | .selectPresigned _, .ok row => row = fresh
    | _, _ => True
  next s c x :=
    match c, x with
    | .recordExecutionAttempt _ attempt, .ok _ =>
      if attempt.status = .broadcast then { s with recorded := attempt.txHash.toList ++ s.recorded }
      else s
    | .markMintPlanExecuted _, .ok true => { s with claimable := false }
    | .failMintPlanExecution _, .ok true => { s with claimable := false }
    | _, _ => s

/-- Every run of the fire keeps to `writeAhead`, from the recorded hashes on. -/
def WritesAhead (keccak : String → String) (recorded : List String) (fresh : Option Presigned)
    (config : Config) (plan : Plan) (fire : Fire) (tx : Tx) : Prop :=
  ∀ tr en, (runServerFire config plan fire tx).Runs tr en →
    (writeAhead keccak fresh).Admits ⟨recorded, true⟩ tr →
    (writeAhead keccak fresh).Keeps ⟨recorded, true⟩ tr en

/-- The delegated signer is set up. -/
def Signer.Usable (signer : Signer) : Prop :=
  signer.delegateContractAddress.isSome ∧ signer.sessionKeyCredentialId.isSome

/-- The fire goes down the live managed-key path, or sends a blob whose hash has been
recorded before; a fire that has no key to sign with sends nothing. -/
def SendsLive (keccak : String → String) (recorded : List String) (fresh : Option Presigned)
    (fire : Fire) : Prop :=
  if fire.signer.scheme = .managedWalletKey then
    fire.wallet.encryptedSigningKey.isSome →
      ∀ blob ∈ blobToFire fire.mode fresh, keccak blob.2 ∈ recorded
  else ∀ signer ∈ fire.signer.delegated, ¬ signer.Usable

section

variable {keccak : String → String} {fresh : Option Presigned} {config : Config} {plan : Plan}
  {fire : Fire} {tx : Tx} {wallet : Wallet} {mode : FireMode} {rpcUrl : String} {α : Type}
  {s : AheadState}

/-! ### Fires that send live -/

/-- A silent program meets the monitor and forgets no recorded hash. -/
theorem silent_wp {p : Worker α} (h : Silent p) (known : List String) (hs : known ⊆ s.recorded) :
    p.wp (writeAhead keccak fresh) (fun _ s' => known ⊆ s'.recorded) s := by
  refine h.wp (fun s c hc _ => ?_) (fun s c x hc hs _ => ?_) hs
  · cases c <;> first | exact trivial | exact absurd hc id
  · cases c with
    | recordExecutionAttempt planId attempt =>
      rcases x with e | a
      · exact hs
      · simp only [writeAhead]
        split
        · exact fun h hh => List.mem_append_right _ (hs hh)
        · exact hs
    | markMintPlanExecuted => rcases x with e | _ | _ <;> exact hs
    | failMintPlanExecution => rcases x with e | _ | _ <;> exact hs
    | _ => exact hs

/-- A signature carries the hash of its raw transaction. -/
theorem signWithManagedKeySealed_wp {managed : ManagedTx} {key : String} :
    (signWithManagedKeySealed managed key).wp (writeAhead keccak fresh)
      (fun r _ => ∀ signed, r = .ok signed → signed.txHash = keccak signed.rawTx) s := by
  refine Prog.wp_tryCatch.mpr (Prog.wp_issue.mpr ⟨trivial, fun x hx => ?_⟩)
  rcases x with e | signed
  · exact fun _ h => nomatch h
  · rintro _ ⟨⟩
    exact hx

theorem signLive_wp {key : String} {nonce gasEstimate : ℕ} {fees : FeeContext} :
    (signLive tx key mode nonce gasEstimate fees).wp (writeAhead keccak fresh)
      (fun r _ => ∀ signed, r = .ok signed → signed.txHash = keccak signed.rawTx) s := by
  refine Prog.wp_bind_of signWithManagedKeySealed_wp ?_ fun _ _ _ _ h => nomatch h
  intro signed s₁ hsigned
  refine Prog.wp_bind_of (silent_wp (idle_holdForOpen _).quiet.silent [] (List.nil_subset _)) ?_
    fun _ _ _ _ h => nomatch h
  rintro _ s₂ _ _ ⟨⟩
  exact hsigned signed rfl

/-- A race whose transaction's hash has been recorded. -/
theorem raceBroadcast_wp {urls : List String} {rawTx : String} (h : keccak rawTx ∈ s.recorded) :
    (raceBroadcast urls rawTx).wp (writeAhead keccak fresh) (fun _ _ => True) s := by
  refine Prog.wp_bind.mpr (Prog.wp_issue.mpr ⟨Or.inl h, fun x _ => ?_⟩)
  rcases x with e | errors | txHash
  · trivial
  · trivial
  · trivial

/-- The live path records the hash, then races. -/
theorem sendLive_wp {signed : Signed} (h : signed.txHash = keccak signed.rawTx) :
    (sendLive config plan rpcUrl mode signed).wp (writeAhead keccak fresh) (fun _ _ => True) s := by
  refine Prog.wp_bind.mpr (Prog.wp_issue.mpr ⟨trivial, fun x _ => ?_⟩)
  rcases x with e | _
  · trivial
  · refine Prog.wp_bind_of (silent_wp idle_liveUrls.quiet.silent [signed.txHash] ?_) ?_
      fun _ _ _ => trivial
    · exact List.cons_subset.mpr ⟨List.mem_cons_self, List.nil_subset _⟩
    · intro urls s₁ h₁
      exact raceBroadcast_wp (h ▸ h₁ List.mem_cons_self)

theorem silent_wp_true {p : Worker α} (h : Silent p) :
    p.wp (writeAhead keccak fresh) (fun _ _ => True) s :=
  Prog.wp_mono (silent_wp h [] (List.nil_subset _)) fun _ _ _ => trivial

theorem fireLive_wp {key : String} :
    (fireLive config plan tx wallet key rpcUrl mode).wp (writeAhead keccak fresh)
      (fun _ _ => True) s := by
  refine Prog.wp_bind_of (silent_wp_true quiet_prepareLive.silent.attempt) ?_ fun _ _ _ => trivial
  rintro (e | _ | ⟨gasEstimate, fees⟩) s₁ _
  · exact silent_wp_true clerical_rescueLive.silent
  · trivial
  · refine Prog.wp_bind_of (silent_wp_true
      (silent_ask (c := .reserveNonce wallet.address fees.nonce) trivial).attempt) ?_
      fun _ _ _ => trivial
    rintro (e | nonce) s₂ _
    · exact silent_wp_true clerical_rescueLive.silent
    · refine Prog.wp_bind.mpr (Prog.wp_attempt.mpr (Prog.wp_mono signLive_wp ?_))
      rintro (e | signed) s₃ hsigned
      · exact silent_wp_true clerical_rescueLive.silent
      · refine Prog.wp_bind.mpr (Prog.wp_attempt.mpr
          (Prog.wp_mono (sendLive_wp (hsigned signed rfl)) ?_))
        rintro (e | txHash) s₄ _
        · exact silent_wp_true clerical_rescueLive.silent
        · exact silent_wp_true (quiet_settleLive.silent.tryCatch fun _ =>
            (quiet_ignoreErrors quiet_markMintPlanExecuted).silent)

/-- The pre-signed path, when the blob's hash has been recorded before. -/
theorem fireFast_wp {row : Presigned} {rawTx : String} (h : keccak rawTx ∈ s.recorded) :
    (fireFast config plan wallet rpcUrl mode row rawTx).wp (writeAhead keccak fresh)
      (fun _ _ => True) s := by
  have hrace : (raceBlob config rpcUrl rawTx).wp (writeAhead keccak fresh) (fun _ _ => True) s := by
    refine Prog.wp_bind_of (silent_wp idle_resolveBroadcastRpcUrls.quiet.silent
      s.recorded (List.Subset.refl _)) ?_ fun _ _ _ => trivial
    intro urls s₁ h₁
    exact raceBroadcast_wp (h₁ h)
  refine Prog.wp_bind.mpr (Prog.wp_attempt.mpr (Prog.wp_mono hrace ?_))
  rintro (e | txHash) s₁ _
  · exact silent_wp_true clerical_discardBlob.silent
  · exact silent_wp_true (.bind (clerical_settleFast.silent.tryCatch fun _ =>
      quiet_rescueFast.silent) fun _ => .pure _)

/-- A managed-key fire that goes live, or whose blob has been recorded before. -/
theorem runManagedFire_wp
    (h : wallet.encryptedSigningKey.isSome →
      ∀ blob ∈ blobToFire mode fresh, keccak blob.2 ∈ s.recorded) :
    (runManagedFire config plan tx wallet rpcUrl mode).wp (writeAhead keccak fresh)
      (fun _ _ => True) s := by
  rw [runManagedFire]
  cases hkey : wallet.encryptedSigningKey with
  | none =>
    exact silent_wp_true (.bind (silent_ask trivial) fun _ =>
      quiet_failPlanAndNotify.silent)
  | some key =>
    refine Prog.wp_bind.mpr (Prog.wp_issue.mpr ⟨trivial, fun x hx => ?_⟩)
    rcases x with e | row
    · trivial
    · obtain rfl : row = fresh := hx
      dsimp only
      cases hblob : blobToFire mode row with
      | none => exact fireLive_wp
      | some blob =>
        have hrec := h (by rw [hkey]; rfl) blob hblob
        refine Prog.wp_bind_of (fireFast_wp hrec) ?_ fun _ _ _ => trivial
        rintro (_ | _) s₁ _
        · exact fireLive_wp
        · trivial

theorem runDelegatedFire_wp {signer : Option Signer} (h : ∀ row ∈ signer, ¬ row.Usable) :
    (runDelegatedFire plan tx signer rpcUrl).wp (writeAhead keccak fresh) (fun _ _ => True) s := by
  refine runDelegatedFire_cases
    (P := fun p => p.wp (writeAhead keccak fresh) (fun _ _ => True) s) ?_ ?_
  · exact silent_wp_true clerical_failed.silent
  · intro row executorAddress credentialId hrow haddress hcredential
    refine absurd ?_ (h row hrow)
    exact ⟨by rw [haddress]; rfl, by rw [hcredential]; rfl⟩

/-- Every run of a fire that goes live, or whose blob has been recorded before, records
first. -/
theorem runServerFire_wp (h : SendsLive keccak s.recorded fresh fire) :
    (runServerFire config plan fire tx).wp (writeAhead keccak fresh) (fun _ _ => True) s := by
  rw [SendsLive] at h
  rw [runServerFire]
  split at h
  · next hscheme =>
    rw [if_pos hscheme]
    exact runManagedFire_wp h
  · next hscheme =>
    rw [if_neg hscheme]
    exact runDelegatedFire_wp h

/-! ### Fires that send first -/

/-- The fast path hands the blob to the endpoints before it records anything. -/
theorem fireFast_breaks {row : Presigned} {rawTx : String} (h : keccak rawTx ∉ s.recorded)
    (hc : s.claimable = true) :
    (fireFast config plan wallet rpcUrl mode row rawTx).Breaks (writeAhead keccak fresh) s := by
  refine .bind_left (.attempt (.bind (broadcastRpcUrls [] config.robinhoodChainId (some rpcUrl)) ?_))
  refine Prog.may_bind [] (Prog.may_issue (.ok []) trivial ⟨rfl, rfl, .bind_left (.issue ?_)⟩)
  exact not_or.mpr ⟨h, fun hclaim => Bool.noConfusion (hc.symm.trans hclaim)⟩

/-- The delegated path sends, then records. -/
theorem runDelegatedFire_breaks {signer : Signer} {rawTx : String} (hu : signer.Usable)
    (h : keccak rawTx ∉ s.recorded) (hc : s.claimable = true) :
    (runDelegatedFire plan tx (some signer) rpcUrl).Breaks (writeAhead keccak fresh) s := by
  obtain ⟨id, status, scheme, ceiling, address, credential⟩ := signer
  obtain ⟨executorAddress, rfl⟩ := Option.isSome_iff_exists.mp hu.1
  obtain ⟨credentialId, rfl⟩ := Option.isSome_iff_exists.mp hu.2
  refine Prog.Breaks.tryCatch ?_
  refine .bind (some "") (Prog.may_issue (.ok (some "")) trivial ⟨rfl, ?_⟩)
  refine .bind "" (Prog.may_issue (.ok "") trivial ⟨rfl, ?_⟩)
  refine .bind (.ok 0) (Prog.may_issue (.ok (.ok 0)) trivial ⟨rfl, ?_⟩)
  refine .bind ⟨0, 0, 0⟩ (Prog.may_issue (.ok ⟨0, 0, 0⟩) trivial ⟨rfl, ?_⟩)
  refine .bind ⟨rawTx, keccak rawTx⟩
    (Prog.may_issue (.ok ⟨rawTx, keccak rawTx⟩) rfl ⟨rfl, .bind_left (.issue ?_)⟩)
  exact not_or.mpr ⟨h, fun hclaim => Bool.noConfusion (hc.symm.trans hclaim)⟩

/-- **Write-ahead.**  Whatever is recorded of the plan, and whatever blob is stored for it,
every run of a server-side fire records a transaction's hash before it hands the
transaction to an endpoint if and only if the fire goes down the live managed-key path,
or sends a blob whose hash has been recorded before.  (Some raw transaction is not
recorded yet.) -/
theorem writesAhead_iff (keccak : String → String) (recorded : List String)
    (fresh : Option Presigned) (config : Config) (plan : Plan) (fire : Fire) (tx : Tx)
    (hnew : ∃ rawTx, keccak rawTx ∉ recorded) :
    WritesAhead keccak recorded fresh config plan fire tx ↔
      SendsLive keccak recorded fresh fire := by
  constructor
  · intro h
    by_contra hne
    suffices hb : (runServerFire config plan fire tx).Breaks (writeAhead keccak fresh)
        ⟨recorded, true⟩ by
      obtain ⟨tr, en, hr, ha, hk⟩ := hb.exists_run
      exact hk (h tr en hr ha)
    rw [SendsLive] at hne
    rw [runServerFire]
    split at hne
    · next hscheme =>
      rw [if_pos hscheme]
      push Not at hne
      obtain ⟨hkey, ⟨row, rawTx⟩, hblob, hmem⟩ := hne
      obtain ⟨key, hkey⟩ := Option.isSome_iff_exists.mp hkey
      rw [runManagedFire, hkey]
      refine .bind fresh (Prog.may_issue (.ok fresh) rfl ⟨rfl, ?_⟩)
      rw [Option.mem_def.mp hblob]
      exact .bind_left (fireFast_breaks hmem rfl)
    · next hscheme =>
      rw [if_neg hscheme]
      push Not at hne
      obtain ⟨signer, hsigner, hu⟩ := hne
      obtain ⟨rawTx, hraw⟩ := hnew
      rw [Option.mem_def.mp hsigner]
      exact runDelegatedFire_breaks hu hraw rfl
  · intro h tr en hr ha
    exact (Prog.sound (runServerFire_wp (s := ⟨recorded, true⟩) h) hr ha).1

/-- At the fire instant the stored blob is not used, and the fire records first. -/
theorem writesAhead_nearFire :
    WritesAhead ("0x" ++ ·) [] (some Sample.blob) Sample.config Sample.plan
      { Sample.fire with nearFire := true } Sample.tx :=
  (writesAhead_iff _ [] _ Sample.config Sample.plan _ Sample.tx ⟨"raw", List.not_mem_nil⟩).mpr
    fun _ _ h => nomatch h

/-- The sample environment with a stored blob, and a race in which every local request
times out. -/
def Sample.timedOut : ℕ → (c : Cmd) → Except Thrown c.Resp
  | _, .selectPresigned _ => .ok (some blob)
  | _, .raceRawTransaction .. => .ok (.error [.error "The request took too long to respond."])
  | _, .signManagedMintTransaction .. => .ok ⟨"raw2", "0xraw2"⟩
  | _, .signExecutorTransaction .. => .ok ⟨"raw2", "0xraw2"⟩
  | _, c => answer c

instance (keccak : String → String) (fresh : Option Presigned) (s : AheadState) (c : Cmd) :
    Decidable ((writeAhead keccak fresh).guard s c) := by
  induction c using Cmd.casesOn <;>
    first | exact isTrue trivial | exact inferInstanceAs (Decidable (_ ∨ _))

/-- **The fast path sends first.**  The blob has been handed to an endpoint, which may
have accepted it; the run ends with the plan armed again and no hash recorded. -/
theorem fast_sends_first :
    ∃ tr, (runServerFire Sample.config Sample.plan Sample.fire Sample.tx).Runs tr
        (.finished (.ok ())) ∧
      (writeAhead ("0x" ++ ·) (some Sample.blob)).Admits ⟨[], true⟩ tr ∧
      ¬ (writeAhead ("0x" ++ ·) (some Sample.blob)).Keeps ⟨[], true⟩ tr
        (.finished (.ok ()) : Ending signature Thrown Unit) ∧
      ((writeAhead ("0x" ++ ·) (some Sample.blob)).after ⟨[], true⟩ tr).recorded = [] ∧
      ((writeAhead ("0x" ++ ·) (some Sample.blob)).after ⟨[], true⟩ tr).claimable = true := by
  have hr := Prog.exec_runs Sample.timedOut
    (runServerFire Sample.config Sample.plan Sample.fire Sample.tx) 0
  have hdone : ((runServerFire Sample.config Sample.plan Sample.fire Sample.tx).exec
      Sample.timedOut 0).2 = .ok () := rfl
  rw [hdone] at hr
  refine ⟨_, hr, Prog.exec_admits (fun s n c => ?_) _ 0 _, by decide, by decide, by decide⟩
  cases c with
  | selectPresigned => exact rfl
  | signManagedMintTransaction => exact (by decide : "0xraw2" = "0x" ++ "raw2")
  | signExecutorTransaction => exact (by decide : "0xraw2" = "0x" ++ "raw2")
  | _ => exact trivial

end

end MintWorker
