/-
What the words of the mint provider can do to a plan.

* `moot_wp` — what never asks the endpoint leaves it silent;
* `buildDescending_provider` — the loop over ever smaller quantities ends with calldata or with
  the last refusal;
* `rescuePass_provider` — the `catch` block lets the refusal pass exactly when it is spared;
* `firePipeline_provider` — what is made of calldata;
* `survives_iff_spared` — a pass that has asked leaves the plan armed, or has sent a transaction,
  exactly when the last refusal is spared.
-/
import HoodMint.ProviderTalk

namespace MintWorker

open Effect

/-! ### What is moot stays so -/

section

variable {α : Type} {p : Worker α} {config : Config} {plan : Plan} {wallet : Wallet}
  {signer : Option Signer} {w : Word} {s : Talk} {H : Prop}

theorem Cmd.Wordless.step_word {c : Cmd} (h : c.Wordless) (s : Talk) (x : Except Thrown c.Resp) :
    (s.step c x).word = s.word := by
  cases c with
  | buildOpenSeaMintTx => exact absurd h id
  | burstBuildOpenSeaMintTx => exact absurd h id
  | readMintStats =>
    rcases x with e | stats
    · rfl
    · rw [Talk.step]
      split
      · rfl
      · rfl
  | raceRawTransaction => rcases x with e | errors | txHash <;> rfl
  | _ => rcases x with e | a <;> rfl

/-- Once calldata is there, nothing more is heard or seen. -/
theorem Talk.Built.step_kept (h : s.Built) (c : Cmd) (x : Except Thrown c.Resp) :
    (s.step c x).word = s.word ∧ (s.step c x).seen = s.seen := by
  cases c with
  | buildOpenSeaMintTx =>
    show (s.hear x).word = s.word ∧ (s.hear x).seen = s.seen
    rw [Talk.hear_of_built h]
    exact ⟨rfl, rfl⟩
  | burstBuildOpenSeaMintTx =>
    show (s.hear x).word = s.word ∧ (s.hear x).seen = s.seen
    rw [Talk.hear_of_built h]
    exact ⟨rfl, rfl⟩
  | readMintStats =>
    rcases x with e | stats
    · exact ⟨rfl, rfl⟩
    · exact ⟨by rw [Talk.step, if_pos h], by rw [Talk.step, if_pos h]⟩
  | raceRawTransaction => rcases x with e | errors | txHash <;> exact ⟨rfl, rfl⟩
  | _ => rcases x with e | a <;> exact ⟨rfl, rfl⟩

theorem moot_wp (hp : Wordless p) (hs : s.Moot) : p.wp provider (fun _ s' => s'.Moot) s := by
  refine hp.wp_of (P := Talk.Moot) (fun s c hc hs => ⟨trivial, fun x _ => ?_⟩) hs
  rcases hs with hsilent | ⟨hbuilt, hunseen⟩
  · exact Or.inl ((Cmd.Wordless.step_word hc s x).trans hsilent)
  · obtain ⟨hword, hseen⟩ := hbuilt.step_kept c x
    refine Or.inr ⟨?_, hseen.trans hunseen⟩
    rw [Talk.Built] at hbuilt ⊢
    exact hword ▸ hbuilt

theorem Talk.Moot.of_silent (h : s.word = .silent) : s.Moot := Or.inl h

/-! ### Before the endpoint is asked -/

/-- A pass over the plan, with nothing done to it yet. -/
structure Talk.Stands (plan : Plan) (signer : Option Signer) (H : Prop) (w : Word) (s : Talk) :
    Prop where
  plan : s.plan = some plan
  signer : s.signer = signer
  word : s.word = w
  seen : s.seen = true → H
  failed : s.failed = false
  rearmed : s.rearmed = false
  sent : s.sent = false

/-- The refusal is under way to the `catch` block. -/
structure Talk.Refused (plan : Plan) (error : Thrown) (s : Talk) : Prop where
  plan : s.plan = some plan
  word : s.word = .refused error
  reread : s.reread = false
  clock : s.clock = none
  failed : s.failed = false
  rearmed : s.rearmed = false
  sent : s.sent = false

/-- What the `try` block leaves. -/
def Talk.Leaves (plan : Plan) : Except Thrown α → Talk → Prop
  | .ok _, s => s.Ended
  | .error error, s => s.Moot ∨ s.Refused plan error

/-- Tells nothing of the contract, and does nothing to the plan. -/
def Cmd.Mute : Cmd → Prop
  | .claimArmedMintPlan .. | .selectSigner _ | .readMintStats .. | .buildOpenSeaMintTx _
  | .burstBuildOpenSeaMintTx .. | .failMintPlanExecution _ | .releaseMintPlanToArmed ..
  | .broadcastRawTransaction .. | .raceRawTransaction .. => False
  | _ => True

abbrev Mute (p : Worker α) : Prop := p.Only (S := signature) Cmd.Mute

theorem mute_ask {c : Cmd} (h : c.Mute) : Mute (ask c) := Prog.Only.issue h

theorem Talk.Stands.step {c : Cmd} (h : s.Stands plan signer H w) (hc : c.Mute)
    (x : Except Thrown c.Resp) : (s.step c x).Stands plan signer H w := by
  obtain ⟨hplan, hsigner, hword, hseen, hfailed, hrearmed, hsent⟩ := h
  cases c <;> first
    | exact absurd hc id
    | (rcases x with e | a <;> exact ⟨hplan, hsigner, hword, hseen, hfailed, hrearmed, hsent⟩)

theorem mute_wp (hp : Mute p) (hs : s.Stands plan signer H w) :
    p.wp provider (fun _ s' => s'.Stands plan signer H w) s :=
  hp.wp_of (P := Talk.Stands plan signer H w)
    (fun _ _ hc hs => ⟨trivial, fun x _ => hs.step hc x⟩) hs

theorem moot_leaves (hp : Wordless p) (hs : s.Moot) : p.wp provider (Talk.Leaves plan) s := by
  refine Prog.wp_mono (moot_wp hp hs) fun r s' hs' => ?_
  cases r with
  | ok => exact hs'.ended
  | error => exact Or.inl hs'

/-- A mute part, and the rest. -/
theorem mute_bind {β : Type} {f : α → Worker β} (hp : Mute p)
    (hs : s.Stands plan signer H .silent)
    (hf : ∀ a s', s'.Stands plan signer H .silent → (f a).wp provider (Talk.Leaves plan) s') :
    (p >>= f).wp provider (Talk.Leaves plan) s :=
  Prog.wp_bind_of (mute_wp hp hs) hf fun _ _ hs' => Or.inl (.of_silent hs'.word)

/-! ### The endpoint is asked -/

/-- What one question leaves, or a sequence of them. -/
def Talk.Heard (plan : Plan) (signer : Option Signer) (H : Prop) : Except Thrown Tx → Talk → Prop
  | .ok tx, s => s.Stands plan signer H (.built tx) ∧ tx.Affordable plan signer
  | .error error, s => s.Stands plan signer H (.refused error) ∧ s.Refused plan error

theorem Talk.Stands.heard {x : Except Thrown Tx} (h : s.Stands plan signer H w) (hw : ¬ s.Built)
    (hx : ∀ tx, x = .ok tx → ∀ plan ∈ s.plan, tx.Affordable plan s.signer) :
    Talk.Heard plan signer H x (s.hear x) := by
  obtain ⟨hplan, hsigner, -, hseen, hfailed, hrearmed, hsent⟩ := h
  cases x with
  | ok tx =>
    rw [Talk.hear_ok hw]
    exact ⟨⟨hplan, hsigner, rfl, hseen, hfailed, hrearmed, hsent⟩, hsigner ▸ hx tx rfl plan hplan⟩
  | error e =>
    rw [Talk.hear_error hw]
    exact ⟨⟨hplan, hsigner, rfl, hseen, hfailed, hrearmed, hsent⟩,
      ⟨hplan, rfl, rfl, rfl, hfailed, hrearmed, hsent⟩⟩

theorem buildMintTx_provider {nearFire : Bool} {deadline : ℤ} {target : MintTarget}
    (hs : s.Stands plan signer H w) (hw : ¬ ∃ tx, w = .built tx) :
    (buildMintTx config nearFire deadline target).wp provider (Talk.Heard plan signer H) s := by
  have hopen : ∀ s' : Talk, s'.Stands plan signer H w → ¬ s'.Built := fun s' hs' hbuilt =>
    hw (hs'.word ▸ hbuilt)
  rw [buildMintTx]
  split
  · refine Prog.wp_issue_bind trivial (fun nowMs _ => ?_) fun e he => absurd he id
    have hs₁ := hs.step (c := .now) trivial (.ok nowMs)
    refine Prog.wp_issue.mpr ⟨trivial, fun x hx => hs₁.heard (hopen _ hs₁) ?_⟩
    rintro tx rfl
    exact hx
  · refine Prog.wp_issue.mpr ⟨trivial, fun x hx => hs.heard (hopen s hs) ?_⟩
    rintro tx rfl
    exact hx

/-- **The loop over ever smaller quantities** ends with calldata, or with the endpoint's last
refusal. -/
theorem buildDescending_provider {build : ℕ → Worker Tx}
    (hbuild : ∀ n w s, s.Stands plan signer H w → (¬ ∃ tx, w = .built tx) →
      (build n).wp provider (Talk.Heard plan signer H) s)
    (quantity : ℕ) (hs : s.Stands plan signer H w) (hw : ¬ ∃ tx, w = .built tx) :
    (buildDescending build (quantity + 1)).wp provider (Talk.Heard plan signer H) s := by
  induction quantity generalizing w s with
  | zero =>
    refine Prog.wp_bind.mpr (Prog.wp_attempt.mpr (Prog.wp_mono (hbuild _ w s hs hw) ?_))
    rintro (e | tx) s₁ h₁
    · dsimp only
      rw [if_pos (Or.inr rfl)]
      exact h₁
    · exact h₁
  | succ quantity ih =>
    refine Prog.wp_bind.mpr (Prog.wp_attempt.mpr (Prog.wp_mono (hbuild _ w s hs hw) ?_))
    rintro (e | tx) s₁ h₁
    · dsimp only
      split
      · exact h₁
      · refine ih h₁.1 ?_
        rintro ⟨tx, htx⟩
        simp at htx
    · exact h₁

/-! ### Once the endpoint has spoken -/

/-- A command that cannot fail any more once the endpoint has spoken. -/
def Cmd.Firm : Cmd → Prop
  | .now | .buildSelfServedPublicMint .. | .readMintStats .. | .buildOpenSeaMintTx _
  | .burstBuildOpenSeaMintTx .. | .getTransactionReceipt .. => False
  | _ => True

theorem firm_issue {c : Cmd} {Q : Except Thrown c.Resp → Talk → Prop} (hc : c.Firm)
    (hword : s.word ≠ .silent) (hok : ∀ a, c.Works (.ok a) → Q (.ok a) (s.step c (.ok a))) :
    (ask c).wp provider Q s := by
  have hworks : ∀ x, s.Expects c x → c.Works x := by
    intro x hx
    cases c <;> first | exact absurd hc id | exact hx hword
  refine Prog.wp_issue.mpr ⟨trivial, ?_⟩
  rintro (e | a) hx
  · have hfails := hworks _ hx
    cases c <;> first | exact absurd hc id | exact absurd hfails id
  · exact hok a (hworks _ hx)

theorem firm_bind {β : Type} {c : Cmd} {f : c.Resp → Worker β} {Q : Except Thrown β → Talk → Prop}
    (hc : c.Firm) (hword : s.word ≠ .silent)
    (hok : ∀ a, c.Works (.ok a) → (f a).wp provider Q (s.step c (.ok a))) :
    (ask c >>= f).wp provider Q s :=
  Prog.wp_bind.mpr (firm_issue hc hword hok)

theorem now_bind {β : Type} {f : ℤ → Worker β} {Q : Except Thrown β → Talk → Prop}
    (hok : ∀ nowMs, s.Expects .now (.ok nowMs) →
      (f nowMs).wp provider Q { s with clock := s.clock.or (some nowMs) }) :
    (ask .now >>= f).wp provider Q s :=
  Prog.wp_issue_bind trivial hok fun _ he => absurd he id

theorem failPlan_provider (hword : s.word ≠ .silent) :
    (failPlanAndNotify plan).wp provider (fun r s' => r = .ok () ∧ s' = { s with failed := true })
      s := by
  refine firm_bind trivial hword fun found hfound => ?_
  obtain rfl : found = true := hfound
  exact firm_issue trivial hword fun _ _ => ⟨rfl, rfl⟩

theorem failPass_provider {errorCode outcome : String} (hword : s.word ≠ .silent) :
    (failPass plan errorCode outcome).wp provider (fun _ s' => s' = { s with failed := true })
      s := by
  refine firm_bind trivial hword fun _ _ => ?_
  refine Prog.wp_bind_of (failPlan_provider hword) (fun _ _ h => h.2) fun _ _ h => h.2

theorem release_provider (hword : s.word ≠ .silent) :
    (releaseMintPlanToArmed plan).wp provider (fun r s' => r = .ok () ∧
      ∃ nowMs, s' = { s with clock := s.clock.or (some nowMs), rearmed := true }) s := by
  refine now_bind fun nowMs _ => firm_bind trivial hword fun found hfound => ?_
  obtain rfl : found = true := hfound
  exact ⟨rfl, nowMs, rfl⟩

/-! ### The refusal is caught -/

theorem fireTargetMs_provider (hplan : s.plan = some plan) (hword : s.word ≠ .silent) :
    (fireTargetMs plan).wp provider (fun r s' => r = .ok s'.targetMs ∧
      ∃ stageStart, s' = { s with stageStart }) s := by
  rw [fireTargetMs]
  cases hfireAt : plan.fireAt with
  | some fireAt =>
    refine ⟨?_, s.stageStart, rfl⟩
    rw [Talk.targetMs, hplan, Option.bind_some, hfireAt]
  | none =>
    cases hstage : plan.stageId with
    | none =>
      refine ⟨?_, s.stageStart, rfl⟩
      rw [Talk.targetMs, hplan, Option.bind_some, hfireAt, hstage]
    | some stageId =>
      refine firm_issue trivial hword fun stageStart _ => ⟨?_, stageStart, rfl⟩
      show _ = Except.ok (Talk.targetMs { s with stageStart })
      rw [Talk.targetMs, hplan, Option.bind_some, hfireAt, hstage]

/-- A reading that is obtained shows supply left. -/
def Talk.Read (s : Talk) (supply : Option MintStats) (s' : Talk) : Prop :=
  supply = none ∧ s' = s ∨ ∃ stats, supply = some stats ∧
    stats.currentTotalSupply < stats.maxSupply ∧ s' = { s with seen := true, reread := true }

theorem readStats_provider {urls : List String} {contract minter : String} (hopen : ¬ s.Built) :
    (readStats urls contract minter).wp provider
      (fun r s' => ∃ supply, r = .ok supply ∧ s.Read supply s') s := by
  have hfailover : ∀ last, (failover (fun url => ask (.readMintStats url contract minter)) last
      urls).wp provider (fun r s' => ((∃ e, r = .error e) ∧ s' = s) ∨
        ∃ stats, r = .ok stats ∧ s.Read (some stats) s') s := by
    induction urls with
    | nil => exact fun last => Or.inl ⟨⟨_, rfl⟩, rfl⟩
    | cons url urls ih =>
      intro last
      refine Prog.wp_bind.mpr (Prog.wp_attempt.mpr (Prog.wp_issue.mpr ⟨trivial, ?_⟩))
      rintro (e | stats) hx
      · exact ih e
      · exact Or.inr ⟨stats, rfl, Or.inr ⟨stats, rfl, hx, if_neg hopen⟩⟩
  refine Prog.wp_bind.mpr (Prog.wp_attempt.mpr (Prog.wp_mono (hfailover _) ?_))
  rintro _ s' (⟨⟨e, rfl⟩, h⟩ | ⟨stats, rfl, h⟩)
  · exact ⟨none, rfl, Or.inl ⟨rfl, h⟩⟩
  · exact ⟨some stats, rfl, h⟩

/-- The verdict on a "minted out", at the time the clock was first read. -/
theorem mintedOutIsTerminal_iff {nowMs : ℤ} {supply : Option MintStats}
    (hclock : s.clock = some nowMs)
    (hsupply : supply = none ∧ s.reread = false ∨ ∃ stats, supply = some stats ∧
      stats.currentTotalSupply < stats.maxSupply ∧ s.reread = true) :
    mintedOutIsTerminal nowMs s.targetMs supply = false ↔ s.reread = true ∨ s.Early := by
  rcases hsupply with ⟨rfl, hunread⟩ | ⟨stats, rfl, hleft, hread⟩
  · rw [hunread, Talk.Early, hclock]
    cases s.targetMs with
    | none => simp [mintedOutIsTerminal]
    | some target => simp [mintedOutIsTerminal]
  · have hpos : 0 < stats.maxSupply := Nat.zero_lt_of_lt hleft
    simp [mintedOutIsTerminal, Option.filter, hpos, hread, hleft]

theorem ended_of_failed {error : Thrown} (hword : s.word = .refused error)
    (h : ¬ s.Spares error) : Talk.Ended { s with failed := true } := by
  intro _
  refine ⟨fun hsurvives => absurd hsurvives.1.symm Bool.false_ne_true, fun hspared => ?_⟩
  exact absurd (hspared error hword) h

theorem ended_of_rearmed {error : Thrown} (hword : s.word = .refused error)
    (hfailed : s.failed = false) (hrearmed : s.rearmed = true) (h : s.Spares error) : s.Ended := by
  intro _
  refine ⟨fun _ error' hword' => ?_, fun _ => ⟨hfailed, Or.inl hrearmed⟩⟩
  obtain rfl : error = error' := Word.refused.inj (hword.symm.trans hword')
  exact h

theorem not_built_of_refused {error : Thrown} (hword : s.word = .refused error) : ¬ s.Built := by
  rintro ⟨tx, htx⟩
  exact absurd (hword.symm.trans htx) (by simp)

theorem isTerminalMintBuildError_cases {message : String} (h : isTerminalMintBuildError message) :
    isMintedOutError message ∨ isInsufficientFundsError message := by
  simp only [isTerminalMintBuildError, isMintedOutError, isInsufficientFundsError,
    Bool.or_eq_true] at h ⊢
  tauto

theorem rescueMintedOut_provider {urls : List String} {target : StatsTarget} {error : Thrown}
    (hs : s.Refused plan error) (hmessage : isMintedOutError error.passMessage) :
    (rescueMintedOut plan urls target error.passMessage).wp provider (fun _ s' => s'.Ended) s := by
  obtain ⟨hplan, hword, hreread, hclock, hfailed, -, -⟩ := hs
  have hspoken : s.word ≠ .silent := by
    rw [hword]
    simp
  refine Prog.wp_bind_of (fireTargetMs_provider hplan hspoken) ?_ fun _ _ h => by simp at h
  rintro targetMs _ ⟨htarget, stageStart, rfl⟩
  obtain rfl := Except.ok.inj htarget
  -- how it ends, once the contract has been read or not
  have hsettle : ∀ supply s', Talk.Read { s with stageStart } supply s' → (do
      let nowMs ← ask .now
      if mintedOutIsTerminal nowMs (Talk.targetMs { s with stageStart }) supply then
        failPass plan (slice200 ("minted_out: " ++ error.passMessage)) "minted_out"
      else
        record plan
          { status := .failed
            errorCode := some (slice200 ("minted_out_pre_open: " ++ error.passMessage)) }
        releaseMintPlanToArmed plan
        return "minted_out_pre_open" : Worker String).wp provider (fun _ s'' => s''.Ended) s' := by
    intro supply s' hread
    obtain ⟨hsupply, hsame⟩ : (supply = none ∧ s'.reread = false ∨ ∃ stats, supply = some stats ∧
        stats.currentTotalSupply < stats.maxSupply ∧ s'.reread = true) ∧
        s'.word = .refused error ∧ s'.clock = none ∧ s'.failed = false ∧
        s'.targetMs = Talk.targetMs { s with stageStart } := by
      rcases hread with ⟨rfl, rfl⟩ | ⟨stats, rfl, hleft, rfl⟩
      · exact ⟨Or.inl ⟨rfl, hreread⟩, hword, hclock, hfailed, rfl⟩
      · exact ⟨Or.inr ⟨stats, rfl, hleft, rfl⟩, hword, hclock, hfailed, rfl⟩
    obtain ⟨hword', hclock', hfailed', htarget'⟩ := hsame
    have hspoken' : s'.word ≠ .silent := by
      rw [hword']
      simp
    refine now_bind fun nowMs _ => ?_
    rw [hclock', Option.none_or, ← htarget']
    have hverdict : mintedOutIsTerminal nowMs s'.targetMs supply = false ↔
        Talk.Spares { s' with clock := some nowMs } error := by
      rw [Talk.Spares, if_pos hmessage]
      exact mintedOutIsTerminal_iff (s := { s' with clock := some nowMs }) rfl hsupply
    split
    · next hterminal =>
      refine Prog.wp_mono (failPass_provider hspoken') ?_
      rintro _ _ rfl
      refine ended_of_failed (s := { s' with clock := some nowMs }) hword' fun h => ?_
      exact Bool.false_ne_true ((hverdict.mpr h).symm.trans hterminal)
    · next hterminal =>
      have hspared := hverdict.mp (Bool.eq_false_iff.mpr hterminal)
      refine firm_bind trivial hspoken' fun _ _ => ?_
      refine Prog.wp_bind_of (release_provider hspoken') ?_ fun _ _ h => by simp at h
      rintro _ _ ⟨-, _, rfl⟩
      exact ended_of_rearmed (s := { s' with clock := some nowMs, rearmed := true }) hword'
        hfailed' rfl hspared
  rcases target with _ | ⟨contract, minter⟩
  · exact hsettle none _ (Or.inl ⟨rfl, rfl⟩)
  · dsimp only
    split
    · exact hsettle none _ (Or.inl ⟨rfl, rfl⟩)
    · have hopen := not_built_of_refused (s := { s with stageStart }) hword
      refine Prog.wp_bind_of (readStats_provider hopen) ?_ ?_
      · rintro supply s' ⟨_, ⟨⟩, hread⟩
        exact hsettle supply s' hread
      · rintro _ _ ⟨_, h, _⟩
        simp at h

/-- **The `catch` block** lets a refusal pass exactly when it is spared. -/
theorem rescuePass_provider {urls : List String} {target : StatsTarget} {error : Thrown}
    (hs : s.Refused plan error) :
    (rescuePass plan urls target error).wp provider (fun _ s' => s'.Ended) s := by
  have hmintedOut : isMintedOutError error.passMessage →
      (rescueMintedOut plan urls target error.passMessage).wp provider (fun _ s' => s'.Ended) s :=
    rescueMintedOut_provider hs
  obtain ⟨-, hword, -, -, hfailed, -, -⟩ := hs
  have hspoken : s.word ≠ .silent := by
    rw [hword]
    simp
  have hfail : ¬ s.Spares error → ∀ errorCode outcome,
      (failPass plan errorCode outcome).wp provider (fun _ s' => s'.Ended) s := by
    intro h errorCode outcome
    refine Prog.wp_mono (failPass_provider hspoken) ?_
    rintro _ _ rfl
    exact ended_of_failed hword h
  rw [rescuePass]
  rw [← Thrown.passMessage]
  split
  · next hmessage => exact hmintedOut hmessage
  · next hmessage =>
    have hspares : s.Spares error ↔ isInsufficientFundsError error.passMessage = false ∧
        ¬ (isProvider4xx error.passMessage ∧ isPerWalletLimitError error.passMessage) := by
      rw [Talk.Spares, if_neg hmessage]
    split
    · next hfunds =>
      exact hfail (fun h => Bool.false_ne_true ((hspares.mp h).1.symm.trans hfunds)) _ _
    · next hfunds =>
      split
      · next hlimit => exact hfail (fun h => (hspares.mp h).2 (Bool.and_eq_true_iff.mp hlimit)) _ _
      · next hlimit =>
        split
        · next hterminal =>
          have hcases := isTerminalMintBuildError_cases (Bool.and_eq_true_iff.mp hterminal).2
          exact absurd hcases (not_or.mpr ⟨hmessage, hfunds⟩)
        · have hspared := hspares.mpr ⟨Bool.eq_false_iff.mpr hfunds, fun h =>
            hlimit (Bool.and_eq_true_iff.mpr h)⟩
          refine firm_bind trivial hspoken fun _ _ => ?_
          refine Prog.wp_bind.mpr (Prog.wp_bind.mpr (Prog.wp_attempt.mpr
            (Prog.wp_mono (release_provider hspoken) ?_)))
          rintro _ _ ⟨rfl, nowMs, rfl⟩
          refine ended_of_rearmed
            (s := { s with clock := s.clock.or (some nowMs), rearmed := true }) hword hfailed rfl ?_
          rw [Talk.Spares, if_neg hmessage]
          exact hspares.mp hspared

/-! ### What is made of calldata -/

theorem spoken_of_built (h : s.Built) : s.word ≠ .silent := by
  obtain ⟨tx, htx⟩ := h
  rw [htx]
  simp

/-- Calldata is there, and the plan is not failed. -/
structure Talk.Alive (s : Talk) : Prop where
  built : s.Built
  failed : s.failed = false

/-- The fire has returned, and the plan survives. -/
def Talk.Done (r : Except Thrown α) (s : Talk) : Prop := (∃ a, r = .ok a) ∧ s.Built ∧ s.Survives

theorem Talk.Alive.done (h : s.Alive) (hs : s.rearmed = true ∨ s.sent = true) (a : α) :
    Talk.Done (.ok a : Except Thrown α) s :=
  ⟨⟨a, rfl⟩, h.built, h.failed, hs⟩

/-- The plan is armed again, and that is all. -/
theorem Talk.Alive.release (h : s.Alive) :
    (releaseMintPlanToArmed plan).wp provider Talk.Done s := by
  refine Prog.wp_mono (release_provider (spoken_of_built h.built)) ?_
  rintro _ _ ⟨rfl, nowMs, rfl⟩
  exact Talk.Alive.done (s := { s with clock := s.clock.or (some nowMs), rearmed := true })
    ⟨h.built, h.failed⟩ (Or.inl rfl) ()

theorem Talk.Alive.noted (h : s.Alive) {attempt : Attempt} :
    (do record plan attempt; releaseMintPlanToArmed plan).wp provider Talk.Done s :=
  firm_bind trivial (spoken_of_built h.built) fun _ _ => h.release

/-- What has been sent stays sent. -/
def Talk.Away (s : Talk) : Prop := s.Alive ∧ s.sent = true

theorem runDelegatedFire_provider {tx : Tx} {rpcUrl executorAddress credentialId : String}
    {row : Signer} (hexecutor : row.delegateContractAddress = some executorAddress)
    (hcredential : row.sessionKeyCredentialId = some credentialId) (hs : s.Alive) :
    (runDelegatedFire plan tx (some row) rpcUrl).wp provider Talk.Done s := by
  have hspoken := spoken_of_built hs.built
  obtain ⟨id, status, scheme, ceiling, _, _⟩ := row
  obtain rfl := hexecutor
  obtain rfl := hcredential
  refine Prog.wp_tryCatch_of (R := Talk.Done) ?_ (fun _ _ h => h) fun _ _ h => by
    obtain ⟨⟨_, h⟩, -⟩ := h
    simp at h
  refine firm_bind trivial hspoken ?_
  rintro (_ | sessionKeyHex) hsecret
  · exact absurd hsecret Bool.false_ne_true
  · refine firm_bind trivial hspoken fun operator _ => firm_bind trivial hspoken ?_
    rintro (revertReason | gasEstimate) _
    · exact hs.noted
    · refine firm_bind trivial hspoken fun fees _ => firm_bind trivial hspoken fun signed _ => ?_
      refine firm_bind trivial hspoken fun txHash _ => firm_bind trivial hspoken fun _ _ => ?_
      refine Prog.wp_bind_of (R := fun r s' => r = .ok () ∧ s'.Away) ?_ ?_ fun _ _ h => by simp at h
      · exact firm_bind trivial hspoken fun _ _ => ⟨rfl, ⟨hs.built, hs.failed⟩, rfl⟩
      · rintro _ s' ⟨-, halive, hsent⟩
        exact firm_issue trivial (spoken_of_built halive.built) fun _ _ =>
          halive.done (Or.inr hsent) _

/-- A sent transaction that does not revert settles the plan. -/
theorem settleLive_provider {rpcUrl txHash : String} {mode : FireMode} (hs : s.Away) :
    (settleLive plan rpcUrl mode txHash).wp provider Talk.Done s := by
  have hpoll : ∀ deadline polls (s' : Talk), s'.Away →
      (pollMintReceipt rpcUrl txHash deadline polls).wp provider
        (fun r s'' => (∃ outcome, r = .ok outcome ∧ outcome ≠ .reverted) ∧ s''.Away) s' := by
    intro deadline polls
    induction polls with
    | zero => exact fun s' hs' => ⟨⟨_, rfl, by simp⟩, hs'⟩
    | succ polls ih =>
      intro s' hs'
      have hspoken := spoken_of_built hs'.1.built
      have hwait : (do
          let nowMs ← ask .now
          if nowMs ≥ deadline then return .unknown
          ask (.sleep receiptPollMs)
          pollMintReceipt rpcUrl txHash deadline polls : Worker ReceiptOutcome).wp provider
            (fun r s'' => (∃ outcome, r = .ok outcome ∧ outcome ≠ .reverted) ∧ s''.Away) s' := by
        refine now_bind fun nowMs _ => ?_
        split
        · exact ⟨⟨_, rfl, by simp⟩, ⟨hs'.1.built, hs'.1.failed⟩, hs'.2⟩
        · exact firm_bind trivial hspoken fun _ _ => ih _ ⟨⟨hs'.1.built, hs'.1.failed⟩, hs'.2⟩
      refine Prog.wp_bind.mpr (Prog.wp_attempt.mpr (Prog.wp_issue.mpr ⟨trivial, ?_⟩))
      rintro (e | _ | _ | _) hx
      · exact hwait
      · exact hwait
      · exact ⟨⟨_, rfl, by simp [ReceiptStatus.outcome]⟩, hs'⟩
      · exact absurd rfl (hx hspoken)
  refine Prog.wp_bind_of (R := fun r s' => (∃ outcome, r = .ok outcome ∧ outcome ≠ .reverted) ∧
    s'.Away) ?_ ?_ fun _ _ h => by
      obtain ⟨⟨_, h, -⟩, -⟩ := h
      simp at h
  · exact now_bind fun nowMs _ => hpoll _ _ _ ⟨⟨hs.1.built, hs.1.failed⟩, hs.2⟩
  · rintro outcome s' ⟨⟨_, ⟨⟩, hne⟩, halive, hsent⟩
    have hspoken := spoken_of_built halive.built
    have hexecuted : (settleExecuted plan).wp provider Talk.Done s' := by
      refine Prog.wp_bind_of (R := fun r s'' => r = .ok () ∧ s''.Away) ?_ ?_ fun _ _ h => by
        simp at h
      · exact firm_bind trivial hspoken fun _ _ => ⟨rfl, ⟨halive.built, halive.failed⟩, hsent⟩
      · rintro _ s'' ⟨-, halive', hsent'⟩
        exact firm_issue trivial (spoken_of_built halive'.built) fun _ _ =>
          halive'.done (Or.inr hsent') _
    cases outcome with
    | reverted => exact absurd rfl hne
    | success => exact hexecuted
    | unknown => exact hexecuted

/-- Simulation and fees: the simulation has reverted, and the plan is armed again, or the fire
goes on. -/
theorem prepareLive_provider {tx : Tx} {rpcUrl : String} {mode : FireMode}
    (hurls : mode.fireUrls ≠ []) (hs : s.Alive) :
    (prepareLive config plan tx wallet rpcUrl mode).wp provider
      (fun r s' => (r = .ok none ∧ s'.Built ∧ s'.Survives) ∨ ∃ a, r = .ok (some a) ∧ s'.Alive)
      s := by
  have hspoken := spoken_of_built hs.built
  have hsimulate : (simulateLive config tx wallet rpcUrl mode).wp provider
      (fun r s' => (∃ sim, r = .ok sim) ∧ s'.Alive) s := by
    rw [simulateLive]
    split
    · exact ⟨⟨_, rfl⟩, hs⟩
    · exact firm_issue trivial hspoken fun sim _ => ⟨⟨sim, rfl⟩, hs.built, hs.failed⟩
  have hfees : ∀ s' : Talk, s'.Alive → (feesLive wallet mode).wp provider
      (fun r s'' => (∃ fees, r = .ok fees) ∧ s''.Alive) s' := by
    intro s' hs'
    rw [feesLive]
    split
    · exact ⟨⟨_, rfl⟩, hs'⟩
    · obtain ⟨url, urls, hcons⟩ := List.exists_cons_of_ne_nil hurls
      rw [hcons, withRpcFailover, failover]
      refine Prog.wp_bind.mpr (Prog.wp_attempt.mpr ?_)
      exact firm_issue trivial (spoken_of_built hs'.built) fun fees _ =>
        ⟨⟨fees, rfl⟩, hs'.built, hs'.failed⟩
  refine Prog.wp_bind.mpr (Prog.wp_attempt.mpr (Prog.wp_mono hsimulate ?_))
  rintro _ s₁ ⟨⟨sim, rfl⟩, h₁⟩
  refine Prog.wp_bind.mpr (Prog.wp_attempt.mpr (Prog.wp_mono (hfees s₁ h₁) ?_))
  rintro _ s₂ ⟨⟨fees, rfl⟩, h₂⟩
  rcases sim with revertReason | gasEstimate
  · refine firm_bind trivial (spoken_of_built h₂.built) fun _ _ => ?_
    refine Prog.wp_bind_of h₂.release (fun _ s₃ h => Or.inl ⟨rfl, h.2⟩) fun _ _ h => ?_
    obtain ⟨⟨_, h⟩, -⟩ := h
    simp at h
  · exact Or.inr ⟨_, rfl, h₂⟩

theorem fireLive_provider {tx : Tx} {key rpcUrl : String} {mode : FireMode}
    (hurls : mode.fireUrls ≠ []) (hhold : mode.holdUntilMs = none) (hs : s.Alive) :
    (fireLive config plan tx wallet key rpcUrl mode).wp provider Talk.Done s := by
  refine Prog.wp_bind.mpr (Prog.wp_attempt.mpr (Prog.wp_mono (prepareLive_provider hurls hs) ?_))
  rintro _ s₁ (⟨rfl, hdone⟩ | ⟨⟨gasEstimate, fees⟩, rfl, h₁⟩)
  · exact ⟨⟨(), rfl⟩, hdone⟩
  · have hspoken := spoken_of_built h₁.built
    refine Prog.wp_bind.mpr (Prog.wp_attempt.mpr (firm_issue trivial hspoken fun nonce _ => ?_))
    -- sign
    have hsign : (signLive tx key mode nonce gasEstimate fees).wp provider
        (fun r s' => (∃ signed, r = .ok signed) ∧ s' = s₁) s₁ := by
      refine Prog.wp_bind_of (R := fun r s' => (∃ signed, r = .ok signed) ∧ s' = s₁) ?_ ?_
        fun _ _ h => by
          obtain ⟨⟨_, h⟩, -⟩ := h
          simp at h
      · exact Prog.wp_tryCatch.mpr (firm_issue trivial hspoken fun signed _ => ⟨⟨signed, rfl⟩, rfl⟩)
      · rintro signed _ ⟨-, rfl⟩
        rw [hhold]
        exact ⟨⟨signed, rfl⟩, rfl⟩
    refine Prog.wp_bind.mpr (Prog.wp_attempt.mpr (Prog.wp_mono hsign ?_))
    rintro _ s₂ ⟨⟨signed, rfl⟩, rfl⟩
    -- send
    have hsend : (sendLive config plan rpcUrl mode signed).wp provider
        (fun r s' => (∃ txHash, r = .ok txHash) ∧ s'.Away) s₂ := by
      refine firm_bind trivial hspoken fun _ _ => ?_
      rw [liveUrls, if_pos hurls]
      refine firm_bind trivial hspoken ?_
      rintro _ ⟨txHash, rfl⟩
      exact ⟨⟨txHash, rfl⟩, ⟨h₁.built, h₁.failed⟩, rfl⟩
    refine Prog.wp_bind.mpr (Prog.wp_attempt.mpr (Prog.wp_mono hsend ?_))
    rintro _ s₃ ⟨⟨txHash, rfl⟩, h₃⟩
    refine Prog.wp_tryCatch_of (settleLive_provider h₃) (fun _ _ h => h) fun _ _ h => ?_
    obtain ⟨⟨_, h⟩, -⟩ := h
    simp at h

theorem runManagedFire_provider {tx : Tx} {rpcUrl : String} {mode : FireMode}
    (hkey : wallet.encryptedSigningKey.isSome) (hnear : mode.nearFire = true)
    (hurls : mode.fireUrls ≠ []) (hhold : mode.holdUntilMs = none) (hs : s.Alive) :
    (runManagedFire config plan tx wallet rpcUrl mode).wp provider Talk.Done s := by
  obtain ⟨key, hkey⟩ := Option.isSome_iff_exists.mp hkey
  rw [runManagedFire, hkey]
  refine firm_bind trivial (spoken_of_built hs.built) fun fresh _ => ?_
  rw [blobToFire, hnear]
  exact fireLive_provider hurls hhold hs

/-! ### The pipeline -/

/-- What the policy and the server-side signers need of a signer. -/
structure SignerChoice.CanFire (plan : Plan) (choice : SignerChoice) : Prop where
  ceiling : plan.perPlanCeilingWei ≤ choice.ceilingWei
  server : choice.scheme = .managedWalletKey ∨ choice.scheme = .customExecutor ∧
    ∃ row, choice.delegated = some row ∧ row.delegateContractAddress.isSome ∧
      row.sessionKeyCredentialId.isSome

/-- A wallet whose key is sealed here fires on the server, whatever signer is named. -/
theorem signerChoice_canFire {row : Option Signer} (hkey : wallet.encryptedSigningKey.isSome)
    (hrow : ∀ r ∈ row, r.status = .active → r.CanFire plan) :
    (signerChoice plan wallet row).CanFire plan := by
  have hsealed : wallet.encryptedSigningKey ≠ none := Option.isSome_iff_ne_none.mp hkey
  rw [signerChoice]
  cases hactive : row.filter fun s => s.status = .active with
  | none =>
    rw [if_pos ⟨rfl, hsealed⟩]
    exact ⟨le_rfl, Or.inl rfl⟩
  | some r =>
    obtain ⟨hr, hstatus⟩ := Option.filter_eq_some_iff.mp hactive
    have hcan := hrow r hr (of_decide_eq_true hstatus)
    have hceiling :
        plan.perPlanCeilingWei ≤ r.onchainSpendCeilingWei.getD plan.perPlanCeilingWei := by
      cases hwei : r.onchainSpendCeilingWei with
      | none => exact le_rfl
      | some ceilingWei => exact hcan.ceiling ceilingWei hwei
    dsimp only
    split
    · exact ⟨hceiling, Or.inl rfl⟩
    · next hscheme =>
      refine ⟨hceiling, ?_⟩
      cases hs : r.scheme with
      | browserWallet => exact absurd ⟨hs, hsealed⟩ hscheme
      | eip7702SafeZodiac => exact absurd hs hcan.scheme
      | customExecutor => exact Or.inr ⟨rfl, r, rfl, hcan.executor hs⟩
      | managedWalletKey => exact Or.inl rfl

theorem canFireMintPlan_ok {signer : Option Signer} {tx : Tx} {choice : SignerChoice} {nowMs : ℤ}
    (htx : tx.Affordable plan signer) (hchoice : choice.CanFire plan)
    (hnow : ∀ armedUntil ∈ plan.armedUntil, nowMs < armedUntil) :
    canFireMintPlan
      { status := .armed, armedUntil := plan.armedUntil, signerCeilingWei := choice.ceilingWei
        perPlanCeilingWei := plan.perPlanCeilingWei, spentWei := 0, txValueWei := tx.valueWei }
      nowMs = .ok () := by
  obtain ⟨armedUntil, hwindow⟩ := Option.isSome_iff_exists.mp htx.window
  have hopen : ¬ armedUntil ≤ nowMs := not_le.mpr (hnow armedUntil hwindow)
  have hpositive : plan.perPlanCeilingWei ≠ 0 := Nat.pos_iff_ne_zero.mp htx.ceiling
  rw [canFireMintPlan, if_neg (not_not.mpr rfl)]
  simp only [hwindow]
  rw [if_neg hopen, if_neg hpositive, if_neg (not_lt.mpr hchoice.ceiling),
    if_neg (not_le.mpr htx.ceiling), Nat.zero_add, if_neg (not_lt.mpr htx.value)]

theorem firePipeline_provider {signer : Option Signer} {fire : Fire} {tx : Tx}
    (hplan : s.plan = some plan) (htx : tx.Affordable plan signer)
    (hchoice : fire.signer.CanFire plan) (hkey : fire.wallet.encryptedSigningKey.isSome)
    (hnear : fire.nearFire = true) (hurls : fire.fireUrls ≠ []) (hself : fire.selfServed = none)
    (hs : s.Alive) : (firePipeline config plan fire tx).wp provider Talk.Done s := by
  have hspoken := spoken_of_built hs.built
  have hsettle : ∀ {p : Worker Unit} {outcome : String} {s' : Talk}, p.wp provider Talk.Done s' →
      (do p; return outcome : Worker String).wp provider Talk.Done s' := by
    intro p outcome s' hp
    refine Prog.wp_bind_of hp (fun _ _ h => ⟨⟨outcome, rfl⟩, h.2⟩) fun _ _ h => ?_
    obtain ⟨⟨_, h⟩, -⟩ := h
    simp at h
  refine Prog.wp_bind_of (R := fun r s' => s'.Alive ∧
    ((∃ reason, r = .ok (.blockedSimulation reason)) ∨ (∃ gas, r = .ok (.shadowWouldFire gas)) ∨
      ∃ gas, r = .ok (.readyForDelegatedSignature tx gas))) ?_ ?_ fun _ _ h => by simp at h
  · refine now_bind fun nowMs hnow => ?_
    rw [canFireMintPlan_ok htx hchoice (hnow hs.built plan hplan)]
    refine Prog.wp_bind_of (R := fun r s' => (∃ sim, r = .ok sim) ∧ s'.Alive) ?_ ?_ fun _ _ h => by
      simp at h
    · rw [pipelineSimulate]
      split
      · exact ⟨⟨_, rfl⟩, hs.built, hs.failed⟩
      · exact firm_issue trivial hspoken fun sim _ => ⟨⟨sim, rfl⟩, hs.built, hs.failed⟩
    · rintro (reason | gas) s₁ ⟨-, h₁⟩
      · exact ⟨h₁, Or.inl ⟨reason, rfl⟩⟩
      · dsimp only
        split
        · exact ⟨h₁, Or.inr (Or.inl ⟨gas, rfl⟩)⟩
        · rcases hchoice.server with hscheme | ⟨hscheme, -⟩
          · rw [hscheme]
            exact ⟨h₁, Or.inr (Or.inr ⟨gas, rfl⟩)⟩
          · rw [hscheme]
            exact ⟨h₁, Or.inr (Or.inr ⟨gas, rfl⟩)⟩
  · rintro outcome s₁ ⟨h₁, hout⟩
    refine hsettle ?_
    rcases hout with ⟨_, ⟨⟩⟩ | ⟨_, ⟨⟩⟩ | ⟨_, ⟨⟩⟩
    · exact h₁.noted
    · exact h₁.noted
    · rw [settleOutcome, runServerFire]
      split
      · refine runManagedFire_provider hkey hnear hurls ?_ h₁
        show fire.selfServed.bind SelfServedFire.holdUntilMs = none
        rw [hself]
        rfl
      · next hother =>
        rcases hchoice.server with hscheme | ⟨-, row, hrow, hexecutor, hcredential⟩
        · exact absurd hscheme hother
        · obtain ⟨executorAddress, hexecutor⟩ := Option.isSome_iff_exists.mp hexecutor
          obtain ⟨credentialId, hcredential⟩ := Option.isSome_iff_exists.mp hcredential
          rw [hrow]
          exact runDelegatedFire_provider hexecutor hcredential h₁

/-! ### The gates -/

/-- A reading obtained before the endpoint is asked was prefetched: the fire instant is near, and
the wallet's key is sealed here. -/
def Prefetched (nearFire : Bool) (wallet : Option Wallet) : Prop :=
  nearFire = true ∧ ∀ w ∈ wallet, w.encryptedSigningKey.isSome

theorem prefetch_provider {fireUrls : List String} {nearFire : Bool} {wallet : Option Wallet}
    {target : StatsTarget} (hs : s.Stands plan none False .silent) :
    (prefetch fireUrls nearFire wallet target).wp provider (fun r s' =>
      (∃ pre, r = .ok pre) ∧ s'.Stands plan none (Prefetched nearFire wallet) .silent) s := by
  have hweak : ∀ s' : Talk, s'.Stands plan none False .silent →
      s'.Stands plan none (Prefetched nearFire wallet) .silent := fun s' h =>
    ⟨h.plan, h.signer, h.word, fun hseen => absurd (h.seen hseen) id, h.failed, h.rearmed, h.sent⟩
  rcases wallet with _ | ⟨walletId, address, _ | key⟩
  · exact ⟨⟨_, rfl⟩, hweak s hs⟩
  · exact ⟨⟨_, rfl⟩, hweak s hs⟩
  · rw [prefetch]
    split
    · next hnear =>
      have hfees : Mute (withRpcFailover fireUrls fun url => ask (.fetchFeeContext url address)) :=
        only_failover (fun url => mute_ask (c := .fetchFeeContext url address) trivial) _ _
      refine Prog.wp_bind.mpr (Prog.wp_attempt.mpr (Prog.wp_mono (mute_wp hfees hs) ?_))
      intro fees s₁ h₁
      rcases target with _ | ⟨contract, minter⟩
      · exact ⟨⟨_, rfl⟩, hweak s₁ h₁⟩
      · have hopen : ¬ s₁.Built := by
          rintro ⟨tx, htx⟩
          exact absurd (h₁.word.symm.trans htx) (by simp)
        refine Prog.wp_bind_of (readStats_provider hopen) ?_ fun _ _ h => by
          obtain ⟨_, h, -⟩ := h
          simp at h
        rintro stats s₂ ⟨_, -, ⟨-, rfl⟩ | ⟨_, -, -, rfl⟩⟩
        · exact ⟨⟨_, rfl⟩, hweak _ h₁⟩
        · refine ⟨⟨_, rfl⟩, h₁.plan, h₁.signer, h₁.word, fun _ => ⟨hnear, fun w hw => ?_⟩,
            h₁.failed, h₁.rearmed, h₁.sent⟩
          obtain rfl := Option.mem_some_iff.mp hw
          rfl
    · exact ⟨⟨_, rfl⟩, hweak s hs⟩

/-- The signer is chosen by the row that was read, if one was. -/
def Talk.Chosen (plan : Plan) (wallet : Wallet) (H : Prop) : Except Thrown SignerChoice → Talk → Prop
  | .ok choice, s => ∃ signer, choice = signerChoice plan wallet signer ∧
      s.Stands plan signer H .silent
  | .error _, s => s.Moot

theorem resolveSigner_provider (hs : s.Stands plan none H .silent) :
    (resolveSigner plan wallet).wp provider (Talk.Chosen plan wallet H) s := by
  obtain ⟨hplan, hsigner, hword, hseen, hfailed, hrearmed, hsent⟩ := hs
  rw [resolveSigner]
  split
  · exact ⟨none, rfl, hplan, hsigner, hword, hseen, hfailed, hrearmed, hsent⟩
  · refine Prog.wp_bind.mpr (Prog.wp_issue.mpr ⟨trivial, ?_⟩)
    rintro (e | row) _
    · exact .of_silent hword
    · exact ⟨row, rfl, hplan, rfl, hword, hseen, hfailed, hrearmed, hsent⟩

/-- What is known once calldata has been looked for: a cached transaction leaves the endpoint
silent. -/
def Talk.Supplied (plan : Plan) (signer : Option Signer) (H : Prop) : Except Thrown Tx → Talk → Prop
  | .ok tx, s => s.word = .silent ∨ s.Stands plan signer H (.built tx) ∧ tx.Affordable plan signer
  | .error error, s => s.Moot ∨ s.Refused plan error

/-- Calldata, and the fire with it. -/
theorem calldata_provider (fire : Fire) {slug : String} {chainId quantity : ℕ}
    (hchoice : fire.signer = signerChoice plan fire.wallet signer) (hurls : fire.fireUrls ≠ [])
    (hself : fire.selfServed = none)
    (hs : s.Stands plan signer (Prefetched fire.nearFire (some fire.wallet)) .silent) :
    (do
      let tx ← calldata config plan fire.nearFire slug chainId fire.wallet none quantity
      firePipeline config plan fire tx : Worker String).wp provider (Talk.Leaves plan) s := by
  have hfire : ∀ tx (s' : Talk),
      s'.Stands plan signer (Prefetched fire.nearFire (some fire.wallet)) (.built tx) →
      tx.Affordable plan signer →
      (firePipeline config plan fire tx).wp provider (Talk.Leaves plan) s' := by
    intro tx s' hs' htx
    have hbuilt : s'.Built := ⟨tx, hs'.word⟩
    cases hseen : s'.seen with
    | false => exact moot_leaves wordless_firePipeline (Or.inr ⟨hbuilt, hseen⟩)
    | true =>
      obtain ⟨hnear, hkeys⟩ := hs'.seen hseen
      have hkey := hkeys fire.wallet rfl
      refine Prog.wp_mono (firePipeline_provider hs'.plan htx ?_ hkey hnear hurls hself
        ⟨hbuilt, hs'.failed⟩) ?_
      · rw [hchoice]
        exact signerChoice_canFire hkey htx.signer
      · rintro _ s'' ⟨⟨a, rfl⟩, ⟨tx', htx'⟩, hsurvives⟩ _
        refine ⟨fun _ error herror => ?_, fun _ => hsurvives⟩
        exact absurd (htx'.symm.trans herror) (by simp)
  have hcached : ∀ tx (s' : Talk), s'.word = .silent →
      (firePipeline config plan fire tx).wp provider (Talk.Leaves plan) s' :=
    fun tx s' hword => moot_leaves wordless_firePipeline (.of_silent hword)
  refine Prog.wp_bind_of
    (R := Talk.Supplied plan signer (Prefetched fire.nearFire (some fire.wallet))) ?_ ?_
    fun _ _ h => h
  · refine now_bind fun nowMs _ => ?_
    have hs₁ := hs.step (c := .now) trivial (.ok nowMs)
    dsimp only
    split
    · exact Or.inl hs.word
    · refine now_bind fun startMs _ => ?_
      have hs₂ := hs₁.step (c := .now) trivial (.ok startMs)
      cases quantity with
      | zero => exact Or.inl (.of_silent hs.word)
      | succ quantity =>
        refine Prog.wp_mono (buildDescending_provider (fun n w s' hs' hw => buildMintTx_provider
          hs' hw) quantity hs₂ ?_) ?_
        · rintro ⟨tx, htx⟩
          simp at htx
        rintro (e | tx) s' hs'
        · exact Or.inr hs'.2
        · exact Or.inr hs'
  · rintro tx s' (hsilent | ⟨hbuilt, htx⟩)
    · exact hcached tx s' hsilent
    · exact hfire tx s' hbuilt htx

/-- The precheck lets the pass go on, or ends it before the endpoint is asked. -/
theorem precheckGate_provider {stats : Option (Option MintStats)} {rest : ℕ → Worker String}
    (hrest : ∀ quantity (s' : Talk), s'.Stands plan signer H .silent →
      (rest quantity).wp provider (Talk.Leaves plan) s')
    (hs : s.Stands plan signer H .silent) :
    (precheckGate plan none stats rest).wp provider (Talk.Leaves plan) s := by
  rcases stats with _ | _ | stats
  · exact hrest _ s hs
  · exact hrest _ s hs
  · rw [precheckGate]
    split
    -- no stage, no caps to ask for
    all_goals
      refine mute_bind (by first | exact .pure _ | exact mute_ask trivial) hs fun caps s' hs' => ?_
      dsimp only
      split
      · exact moot_leaves wordless_failPass (.of_silent hs'.word)
      · exact moot_leaves wordless_failPass (.of_silent hs'.word)
      · exact hrest _ s' hs'

theorem fireClaimed_provider {fireUrls : List String} {rpcUrl : String} {nearFire : Bool}
    {pre : Prefetch} {project : Option Project} {wallet : Option Wallet} (hurls : fireUrls ≠ [])
    (hs : s.Stands plan none (Prefetched nearFire wallet) .silent) :
    (fireClaimed config plan fireUrls rpcUrl nearFire pre project wallet).wp provider
      (Talk.Leaves plan) s := by
  have hrecord : ∀ outcome, (recordPass plan outcome).wp provider (Talk.Leaves plan) s :=
    fun outcome => moot_leaves (.bind (wordless_ask trivial) fun _ => .pure _)
      (.of_silent hs.word)
  rcases project with _ | project
  · exact hrecord _
  · rcases wallet with _ | wallet
    · exact hrecord _
    · rw [fireClaimed]
      split
      · exact hrecord _
      · next slug _ =>
        refine Prog.wp_bind_of (resolveSigner_provider hs) ?_ fun _ _ h => Or.inl h
        rintro choice s₁ ⟨signer, hchoice, h₁⟩
        -- an allowlist stage is not self-served
        refine Prog.wp_issue_bind trivial (fun answer hanswer => ?_) fun e _ =>
          Or.inl (.of_silent h₁.word)
        obtain rfl : answer = .notSelfServable := hanswer
        have hrest : ∀ quantity (s' : Talk),
            s'.Stands plan signer (Prefetched nearFire (some wallet)) .silent →
            (do
              let tx ← calldata config plan nearFire slug project.chainId wallet none quantity
              firePipeline config plan ⟨wallet, rpcUrl, fireUrls, nearFire, pre.fees, choice, none⟩
                tx : Worker String).wp provider (Talk.Leaves plan) s' := fun quantity s' hs' =>
          calldata_provider ⟨wallet, rpcUrl, fireUrls, nearFire, pre.fees, choice, none⟩ hchoice
            hurls rfl hs'
        exact precheckGate_provider hrest h₁

/-! ### The pass -/

theorem passBody_provider {fireUrls : List String} {rpcUrl : String} {project : Option Project}
    {wallet : Option Wallet} (hurls : fireUrls ≠ []) (hs : s.Stands plan none False .silent) :
    (passBody config plan fireUrls rpcUrl project wallet).wp provider (Talk.Leaves plan) s := by
  have hnear : Mute (isNearFireInstant plan) := by
    refine .bind ?_ ?_
    · rw [fireTargetMs]
      split
      · exact .pure _
      · exact .pure _
      · exact mute_ask trivial
    · rintro (_ | target)
      · exact .pure _
      · exact .bind (mute_ask trivial) fun _ => .pure _
  refine mute_bind hnear hs fun nearFire s₁ h₁ => ?_
  refine Prog.wp_bind_of (prefetch_provider h₁) ?_ fun _ _ h => by
    obtain ⟨⟨_, h⟩, -⟩ := h
    simp at h
  rintro pre s₂ ⟨-, h₂⟩
  have hlatest : Mute (latestBroadcastAttempt plan) := by
    refine .bind (mute_ask trivial) fun row => ?_
    split
    · exact .pure _
    · exact .pure _
  refine mute_bind hlatest h₂ fun latest s₃ h₃ => ?_
  rcases latest with _ | ⟨txHash, attemptAt⟩
  · exact fireClaimed_provider hurls h₃
  · refine mute_bind (only_resolveTxOutcome (fun _ => trivial) _) h₃ fun outcome s₄ h₄ => ?_
    cases outcome with
    | success =>
      exact moot_leaves (.bind wordless_markMintPlanExecuted fun _ => .pure _) (.of_silent h₄.word)
    | reverted => exact fireClaimed_provider hurls h₄
    | unknown =>
      refine mute_bind (mute_ask trivial) h₄ fun nowMs s₅ h₅ => ?_
      split
      · exact moot_leaves (.bind wordless_releaseMintPlanToArmed fun _ => .pure _)
          (.of_silent h₅.word)
      · exact fireClaimed_provider hurls h₅

theorem firePlan_provider (hs : s.Stands plan none False .silent) :
    (firePlan config plan).wp provider (fun _ s' => s'.Ended) s := by
  have hmoot : ∀ {p : Worker String} (s' : Talk), Wordless p → s'.word = .silent →
      p.wp provider (fun _ s'' => s''.Ended) s' := fun s' hp hword =>
    Prog.wp_mono (moot_wp hp (.of_silent hword)) fun _ _ h => h.ended
  have hresolve : Mute (resolveBroadcastRpcUrls config.robinhoodChainId config.rpcUrl) :=
    .bind (mute_ask trivial) fun _ => .pure _
  have hload : Mute (loadPlan plan) :=
    .bind (mute_ask trivial) fun _ => .bind (mute_ask trivial) fun _ => .pure _
  refine Prog.wp_bind.mpr (Prog.wp_attempt.mpr (Prog.wp_mono (mute_wp hresolve hs) ?_))
  rintro (e | registryUrls) s₁ h₁
  · exact hmoot s₁ wordless_rescuePass h₁.word
  · dsimp only
    split
    · refine hmoot s₁ (Prog.Only.tryCatch ?_ fun _ => wordless_rescuePass) h₁.word
      exact .bind (wordless_ask trivial) fun _ => .pure _
    · refine Prog.wp_bind.mpr (Prog.wp_attempt.mpr (Prog.wp_mono (mute_wp hload h₁) ?_))
      rintro (e | ⟨project, wallet⟩) s₂ h₂
      · exact hmoot s₂ wordless_rescuePass h₂.word
      · refine Prog.wp_tryCatch_of (passBody_provider (List.cons_ne_nil _ _) h₂)
          (fun _ _ h => h) ?_
        rintro e s₃ (hmoot₃ | hrefused)
        · exact Prog.wp_mono (moot_wp wordless_rescuePass hmoot₃) fun _ _ h => h.ended
        · exact rescuePass_provider hrefused

theorem runMintExecutionPass_provider :
    (runMintExecutionPass config).wp provider (fun _ s' => s'.Ended) .start := by
  have hmoot : ∀ s' : Talk, s'.word = .silent → s'.Ended := fun _ h => (Talk.Moot.of_silent h).ended
  refine now_bind fun nowMs _ => Prog.wp_issue_bind trivial (fun expired _ => ?_) fun _ _ =>
    hmoot _ rfl
  refine Prog.wp_issue_bind trivial (fun claimed _ => ?_) fun _ _ => hmoot _ rfl
  cases claimed with
  | none => exact hmoot _ rfl
  | some plan =>
    refine Prog.wp_bind_of (R := fun _ s' => s'.Ended) (firePlan_provider ?_) (fun _ _ h => h)
      fun _ _ h => h
    exact ⟨rfl, rfl, rfl, fun h => absurd h Bool.false_ne_true, rfl, rfl, rfl⟩

end

/-- **What words can do.**  In every pass that has asked the mint endpoint, whatever it has
answered at whatever quantity, and in which a reading of the contract has shown supply left, the
plan is not failed, and is armed again or has sent a transaction, if and only if the last refusal
is spared. -/
theorem survives_iff_spared (config : Config) (tr : List (Event signature Thrown))
    (r : Except Thrown MintExecutionSummary)
    (hr : (runMintExecutionPass config).Runs tr (.finished r))
    (ha : provider.Admits .start tr) (hasked : (provider.after .start tr).Asked) :
    (provider.after .start tr).Survives ↔ (provider.after .start tr).Spared :=
  (Prog.sound runMintExecutionPass_provider hr ha).2 r rfl hasked

/-- The sample environment at the fire instant: nine tenths of the supply are left, the stage is
no public one, and the mint endpoint refuses. -/
def Sample.refusing (message : String) : ℕ → (c : Cmd) → Except Thrown c.Resp
  | _, .now => .ok (60000 : ℤ)
  | _, .selectProject _ => .ok (some ⟨some "contract", some "slug", 4663⟩)
  | _, .readMintStats .. => .ok ⟨0, 10, 100⟩
  | _, .buildSelfServedPublicMint .. => .ok .notSelfServable
  | _, .buildOpenSeaMintTx _ => .error (.error message)
  | _, .burstBuildOpenSeaMintTx .. => .error (.error message)
  | _, c => answer c

theorem Sample.refusing_admits (message : String) :
    provider.Admits .start
      ((runMintExecutionPass Sample.config).exec (Sample.refusing message) 0).1 := by
  refine Prog.exec_admits_of (I := fun s => ¬ s.Built) (fun s n c hs => ?_) _ 0 (by decide)
  have hkept : c.Wordless → ¬ (provider.next s c (Sample.refusing message n c)).Built :=
    fun hc ⟨tx, htx⟩ => hs ⟨tx, (Cmd.Wordless.step_word hc s _).symm.trans htx⟩
  have hheard : ¬ (s.hear (.error (.error message))).Built := by
    rintro ⟨tx, htx⟩
    rw [Talk.hear_error hs] at htx
    simp at htx
  cases c with
  | now => exact ⟨fun hbuilt => absurd hbuilt hs, hkept trivial⟩
  | buildOpenSeaMintTx => exact ⟨fun _ => trivial, hheard⟩
  | burstBuildOpenSeaMintTx => exact ⟨fun _ => trivial, hheard⟩
  | readMintStats => exact ⟨(by decide : 10 < 100), hkept trivial⟩
  | buildSelfServedPublicMint => exact ⟨rfl, hkept trivial⟩
  | failMintPlanExecution => exact ⟨fun _ => rfl, hkept trivial⟩
  | releaseMintPlanToArmed => exact ⟨fun _ => rfl, hkept trivial⟩
  | getCredentialSecret => exact ⟨fun _ => rfl, hkept trivial⟩
  | raceRawTransaction => exact ⟨fun _ => ⟨"hash", rfl⟩, hkept trivial⟩
  | getTransactionReceipt =>
    exact ⟨fun _ => (by decide : (none : Option ReceiptStatus) ≠ some .reverted), hkept trivial⟩
  | _ => exact ⟨fun _ => trivial, hkept trivial⟩

/-- "Minted out", while nine tenths of the supply are left: the plan is armed again. -/
theorem survives_iff_spared_mintedOut :
    (provider.after .start ((runMintExecutionPass Sample.config).exec
      (Sample.refusing "provider returned 422: drop is minted out") 0).1).Survives := by
  refine (survives_iff_spared Sample.config _ _ (Prog.exec_runs _ _ 0) (Sample.refusing_admits _)
    (by decide)).mpr fun error herror => ?_
  have hword : (provider.after .start ((runMintExecutionPass Sample.config).exec
      (Sample.refusing "provider returned 422: drop is minted out") 0).1).word =
      .refused (.error "provider returned 422: drop is minted out") := by decide
  obtain rfl := Word.refused.inj (hword.symm.trans herror)
  rw [Talk.Spares, if_pos (by decide)]
  exact Or.inl (by decide)

/-- **A word that kills.**  Nine tenths of the supply are left and the wallet has minted nothing;
the endpoint says that a quantity of one exceeds the limit, and the plan is failed. -/
theorem not_survives_limit :
    ∃ tr r, (runMintExecutionPass Sample.config).Runs tr (.finished r) ∧
      provider.Admits .start tr ∧ (provider.after .start tr).Asked ∧
      (provider.after .start tr).failed = true ∧ ¬ (provider.after .start tr).Survives := by
  refine ⟨_, _, Prog.exec_runs
    (Sample.refusing "provider returned 422: exceeds max per wallet") _ 0,
    Sample.refusing_admits _, ?_, ?_, ?_⟩
  · decide
  · decide
  · exact fun h => absurd h.1 (by decide)

end MintWorker
