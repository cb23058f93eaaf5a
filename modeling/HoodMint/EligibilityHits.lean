/-
What a pass of the eligibility engine may claim to be a whitelist hit.

* `Here` — what a pass has been told: the pairs it has not asked about, the last answer, and the
  stages it is about to call hits;
* `reads` — these, as a monitor: a pass calls nothing else a hit;
* `judgePair_wp`, `recover_wp` — one pair, answered and failed;
* `runEligibilityPass_safe` — so does the whole pass.

A hit is claimed in two ways: `told` are the stages that the last answer calls eligible, `kept` the
hits that are written again when a transient failure leaves the stored verdicts alone.
-/
import HoodMint.EligibilityTables

namespace EligibilityEngine

open Effect Eligibility Projects

/-! ### What a pass has been told -/

/-- The rows that an answer makes hits of, in its order. -/
def hitRows (speaks : Bool) (rows : List StageRow) (stages : List EligibilityStage) :
    List StageRow :=
  stages.filterMap fun stage =>
    (stageRow? rows stage).filter fun row => row.type ≠ .publicSale && stage.isEligible && speaks

section

variable {speaks : Bool} {rows : List StageRow} {stage : EligibilityStage}
  {stages : List EligibilityStage} {row : StageRow}

theorem hitRows_cons_none (hrow : stageRow? rows stage = none) :
    hitRows speaks rows (stage :: stages) = hitRows speaks rows stages :=
  List.filterMap_cons_none (by rw [hrow]; rfl)

theorem hitRows_cons_pos (hrow : stageRow? rows stage = some row)
    (hhit : (row.type ≠ .publicSale && stage.isEligible && speaks) = true) :
    hitRows speaks rows (stage :: stages) = row :: hitRows speaks rows stages :=
  List.filterMap_cons_some (by rw [hrow, Option.filter_some, if_pos hhit])

theorem hitRows_cons_neg (hrow : stageRow? rows stage = some row)
    (hhit : ¬ (row.type ≠ .publicSale && stage.isEligible && speaks) = true) :
    hitRows speaks rows (stage :: stages) = hitRows speaks rows stages :=
  List.filterMap_cons_none (by rw [hrow, Option.filter_some, if_neg hhit])

/-- A hit is a row read that is not public. -/
theorem mem_hitRows (h : row ∈ hitRows speaks rows stages) :
    row ∈ rows ∧ row.type ≠ .publicSale := by
  obtain ⟨stage, _, hstage⟩ := List.mem_filterMap.mp h
  obtain ⟨hrow, hhit⟩ := Option.filter_eq_some_iff.mp hstage
  simp only [Bool.and_eq_true, decide_eq_true_iff] at hhit
  exact ⟨List.mem_reverse.mp (List.mem_of_find?_eq_some hrow), hhit.1.1⟩

end

/-- The hits among the due checks. -/
def keptHits (checks : List DueCheck) : List String :=
  (checks.filter DueCheck.currentlyEligible).map (·.stageId)

/-- A pair is skipped when its project has no slug. -/
def hasSlug (checks : List DueCheck) : Bool := (checks.head?.bind (·.projectSlug)).isSome

/-- What a pass knows. -/
structure Here where
  config : Config
  wallets : List TrackedWallet
  /-- The pairs it has not asked about. -/
  rest : List (List DueCheck)
  pair : List DueCheck
  answered : List EligibilityStage
  told : List String
  kept : List String

namespace Here

variable (h : Here)

/-- The stages it is about to call hits. -/
def pending : List String := h.told ++ h.kept

def speaks : Bool :=
  h.pair.head?.elim false fun first =>
    speaksForThisWallet h.config (h.wallets.reverse.find? fun w => w.id = first.walletId)

/-- The rows that the last answer makes hits of. -/
def hitRows (rows : List StageRow) : List StageRow :=
  EligibilityEngine.hitRows h.speaks rows h.answered

/-- An eligibility call is about the next pair. -/
def calls : Cmd → Here
  | .getEligibility .. => { h with pair := h.rest.headD [], rest := h.rest.tail }
  | _ => h

/-- A failure leaves nothing to claim but what a transient one keeps. -/
def failed (e : Thrown) : Here :=
  { h with told := [], kept := if e.treatment.stops then keptHits h.pair else [] }

/-- An answer. -/
def hears : (c : Cmd) → c.Resp → Here
  | .dueEligibilityChecks .., due => { h with rest := (byPair due).filter hasSlug }
  | .listWallets, wallets => { h with wallets }
  | .getEligibility slug jwt, answered => { h.calls (.getEligibility slug jwt) with answered }
  | .stagesOf _, rows => { h with told := (h.hitRows rows).map (·.id) }
  | .upsertEligibilityCheck input, _ =>
    if input.status = .eligibleRestricted then { h with kept := h.kept.tail } else h
  | .enqueueAlert _, _ => { h with told := h.told.tail }
  | _, _ => h

/-- What it knows when it starts. -/
def start (config : Config) : Here := ⟨config, [], [], [], [], [], []⟩

end Here

/-- Nothing is called a hit but what has been told to be one. -/
def reads : Monitor signature Thrown Here where
  guard h c :=
    match c with
    | .upsertEligibilityCheck input =>
      input.status = .eligibleRestricted → input.stageId ∈ h.pending
    | .enqueueAlert input => input.stageId ∈ h.pending
    | _ => True
  allowed _ _ _ := True
  next h c x :=
    match x with
    | .ok a => h.hears c a
    | .error e => (h.calls c).failed e

/-! ### One command -/

section

variable {h : Here} {α : Type} {Q : Except Thrown α → Here → Prop}

theorem now_wp {f : ℤ → Engine α} (hok : ∀ now, (f now).wp reads Q h)
    (herr : ∀ e, Q (.error e) (h.failed e)) : (ask .now >>= f).wp reads Q h :=
  Prog.wp_issue_bind trivial (fun now _ => hok now) fun e _ => herr e

/-- A hit is written. -/
theorem upsert_hit_wp {input : EligibilityUpsert} {f : Unit → Engine α}
    (hstatus : input.status = .eligibleRestricted) (hpending : input.stageId ∈ h.pending)
    (hok : (f ()).wp reads Q { h with kept := h.kept.tail })
    (herr : ∀ e, Q (.error e) (h.failed e)) :
    (ask (.upsertEligibilityCheck input) >>= f).wp reads Q h := by
  refine Prog.wp_issue_bind (fun _ => hpending) (fun _ _ => ?_) fun e _ => herr e
  show (f ()).wp reads Q (if input.status = .eligibleRestricted then _ else _)
  rw [if_pos hstatus]
  exact hok

/-- Another verdict is written. -/
theorem upsert_wp {input : EligibilityUpsert} {f : Unit → Engine α}
    (hstatus : input.status ≠ .eligibleRestricted) (hok : (f ()).wp reads Q h)
    (herr : ∀ e, Q (.error e) (h.failed e)) :
    (ask (.upsertEligibilityCheck input) >>= f).wp reads Q h := by
  refine Prog.wp_issue_bind (fun heq => absurd heq hstatus) (fun _ _ => ?_) fun e _ => herr e
  show (f ()).wp reads Q (if input.status = .eligibleRestricted then _ else _)
  rw [if_neg hstatus]
  exact hok

end

/-! ### One returned stage -/

section

variable {h : Here} {j : Judgement}

/-- Where a part of a pass that catches nothing ends. -/
def Ends (h : Here) (h' : Here) : Except Thrown Unit → Here → Prop
  | .ok _, s => s = h'
  | .error e, s => s = h.failed e

theorem stageVerdict_eq_eligible {kind : StageKind} {speaks eligible : Bool} :
    stageVerdict kind speaks eligible = .eligibleRestricted ↔
      (kind ≠ .publicSale && eligible && speaks) = true := by
  rw [stageVerdict]
  cases speaks <;> cases eligible <;> by_cases hkind : kind = .publicSale <;> simp [hkind]

theorem alertHit_wp {stage : EligibilityStage} {row : StageRow} {told : List String}
    (htold : h.told = row.id :: told) :
    (alertHit j stage row).wp reads (Ends h { h with told }) h := by
  refine now_wp (fun now => ?_) fun e => rfl
  have hguard : row.id ∈ h.pending := List.mem_append_left _ (htold ▸ List.mem_cons_self)
  refine Prog.wp_issue.mpr ⟨hguard, fun x _ => ?_⟩
  cases x with
  | error e => rfl
  | ok a =>
    show { h with told := h.told.tail } = { h with told }
    rw [htold]
    rfl

/-- A returned stage is written, and alerted when it is a hit. -/
theorem judgeStage_wp {stage : EligibilityStage} {stages : List EligibilityStage}
    (htold : h.told = (hitRows j.speaks j.rows (stage :: stages)).map (·.id))
    (hkept : h.kept = []) :
    (judgeStage j stage).wp reads
      (Ends h { h with told := (hitRows j.speaks j.rows stages).map (·.id) }) h := by
  rw [judgeStage]
  cases hrow : stageRow? j.rows stage with
  | none =>
    rw [hitRows_cons_none hrow] at htold
    show h = { h with told := _ }
    rw [← htold]
  | some row =>
    refine now_wp (fun checkedAt => now_wp (fun base => now_wp (fun isoNow => ?_) ?_) ?_) ?_
    · by_cases hhit : isHit j stage row = true
      · -- the row is the next that has been told to be a hit
        rw [hitRows_cons_pos hrow hhit, List.map_cons] at htold
        have hverdict : stageVerdict row.type j.speaks stage.isEligible = .eligibleRestricted :=
          stageVerdict_eq_eligible.mpr hhit
        have hmem : row.id ∈ h.pending := List.mem_append_left _ (htold ▸ List.mem_cons_self)
        have hsame : { h with kept := h.kept.tail } = h := by rw [hkept, List.tail_nil, ← hkept]
        refine upsert_hit_wp hverdict hmem ?_ fun e => rfl
        rw [hsame, if_pos hhit]
        exact alertHit_wp htold
      · rw [hitRows_cons_neg hrow hhit] at htold
        have hverdict : stageVerdict row.type j.speaks stage.isEligible ≠ .eligibleRestricted :=
          fun heq => hhit (stageVerdict_eq_eligible.mp heq)
        refine upsert_wp hverdict ?_ fun e => rfl
        rw [if_neg hhit]
        show h = { h with told := _ }
        rw [← htold]
    all_goals exact fun e => rfl

theorem judgeStages_wp {stages : List EligibilityStage}
    (htold : h.told = (hitRows j.speaks j.rows stages).map (·.id)) (hkept : h.kept = []) :
    (judgeStages j stages).wp reads (Ends h { h with told := [] }) h := by
  induction stages generalizing h with
  | nil =>
    show h = { h with told := [] }
    rw [← show h.told = [] from htold]
  | cons stage stages ih =>
    refine Prog.wp_bind_of (judgeStage_wp htold hkept) ?_ fun e s hs => hs
    intro _ s hs
    obtain rfl : s = _ := hs
    exact ih (h := { h with told := _ }) rfl hkept

end

/-! ### Checks written again -/

section

variable {h : Here}

/-- The hits among what is written again have been kept. -/
theorem rewriteAll_wp {w : Rewrite} {checks : List DueCheck} {kept : List String}
    (hkept : h.kept = (checks.filter fun c => w.status c = .eligibleRestricted).map (·.stageId) ++
      kept) :
    (rewriteAll w checks).wp reads (Ends h { h with kept }) h := by
  induction checks generalizing h with
  | nil =>
    show h = { h with kept }
    rw [← show h.kept = kept from hkept]
  | cons check checks ih =>
    rw [rewriteAll]
    refine now_wp (fun checkedAt => now_wp (fun base => ?_) fun e => rfl) fun e => rfl
    by_cases hhit : w.status check = .eligibleRestricted
    · rw [List.filter_cons_of_pos (by exact decide_eq_true hhit), List.map_cons,
        List.cons_append] at hkept
      have hmem : check.stageId ∈ h.pending :=
        List.mem_append_right _ (hkept ▸ List.mem_cons_self)
      refine upsert_hit_wp hhit hmem ?_ fun e => rfl
      exact ih (h := { h with kept := h.kept.tail }) (by rw [hkept]; rfl)
    · rw [List.filter_cons_of_neg (by simpa using hhit)] at hkept
      exact upsert_wp hhit (ih hkept) fun e => rfl

theorem filter_hits_nil {w : Rewrite} (hne : ∀ c, w.status c ≠ .eligibleRestricted)
    (checks : List DueCheck) : (checks.filter fun c => w.status c = .eligibleRestricted) = [] :=
  List.filter_eq_nil_iff.mpr fun c _ heq => hne c (of_decide_eq_true heq)

/-- Where no hit is among them, nothing changes. -/
theorem rewriteAll_wp_of_ne {w : Rewrite} {checks : List DueCheck}
    (hne : ∀ c, w.status c ≠ .eligibleRestricted) :
    (rewriteAll w checks).wp reads (Ends h h) h := by
  refine @rewriteAll_wp h w checks h.kept ?_
  rw [filter_hits_nil hne]
  rfl

/-- A transient failure writes the kept hits again, and no others. -/
theorem transient_eligible {ms : ℤ} {check : DueCheck} :
    (Treatment.transient ms).rewrite.status check = .eligibleRestricted ↔
      check.currentlyEligible = true := by
  rw [DueCheck.currentlyEligible, decide_eq_true_iff]
  show (if isResolved check.currentStatus then check.currentStatus else .authRequired) = _ ↔ _
  cases check.currentStatus <;> decide

/-- **A failure.**  The pass stops, or goes on with nothing to claim. -/
theorem recover_wp {checks : List DueCheck} {e : Thrown} (hpair : h.pair = checks) :
    (recover checks e).wp reads
      (Prog.onReturn fun _ s => s = { h with told := [], kept := [] }) (h.failed e) := by
  have hkept : (h.failed e).kept =
      (checks.filter fun c => e.treatment.rewrite.status c = .eligibleRestricted).map
        (·.stageId) ++ [] := by
    rw [List.append_nil]
    show (if e.treatment.stops then keptHits h.pair else []) = _
    rw [hpair]
    cases e.treatment with
    | transient ms =>
      refine congrArg (List.map _) (List.filter_congr fun c _ => ?_)
      simp only [transient_eligible, Bool.decide_eq_true]
    | notFound => rw [filter_hits_nil (by simp [Treatment.rewrite])]; rfl
    | failed code => rw [filter_hits_nil (by simp [Treatment.rewrite])]; rfl
  rw [recover]
  refine Prog.wp_bind_of (rewriteAll_wp hkept) (fun _ s hs => ?_) fun _ _ _ => trivial
  obtain rfl : s = _ := hs
  exact Prog.wp_ite (fun _ => trivial) fun _ => rfl

end

/-! ### One pair -/

section

variable {h : Here} {config : Config} {jwt : String} {wallets : List TrackedWallet}

/-- Between two pairs nothing is left to claim. -/
structure Between (config : Config) (wallets : List TrackedWallet) (rest : List (List DueCheck))
    (h : Here) : Prop where
  config : h.config = config
  wallets : h.wallets = wallets
  rest : h.rest = rest
  told : h.told = []
  kept : h.kept = []

/-- The pair a call is about, and what is left after it. -/
def asked (h : Here) (checks : List DueCheck) (pairs : List (List DueCheck)) : Here :=
  { h with pair := checks, rest := pairs }

/-- Where a call and all that follows from it ends. -/
def Judged (config : Config) (wallets : List TrackedWallet) (h : Here) (checks : List DueCheck)
    (pairs : List (List DueCheck)) : Except Thrown Unit → Here → Prop
  | .ok _, s => Between config wallets pairs s
  | .error e, s => ∃ answered, s = { asked h checks pairs with answered }.failed e

/-- **An answer.**  What it makes hits of is written and alerted, in its order. -/
theorem judgePair_wp {slug : String} {first : DueCheck} {others : List DueCheck}
    {pairs : List (List DueCheck)}
    (hbetween : Between config wallets ((first :: others) :: pairs) h) :
    (judgePair config jwt wallets slug first (first :: others)).wp reads
      (Judged config wallets h (first :: others) pairs) h := by
  have hcalls : h.calls (.getEligibility slug jwt) = asked h (first :: others) pairs := by
    rw [Here.calls, hbetween.rest]
    rfl
  refine Prog.wp_issue_bind trivial (fun parsed _ => ?_) fun e _ => ⟨h.answered, ?_⟩
  · show Prog.wp reads _ _ { h.calls (.getEligibility slug jwt) with answered := parsed }
    rw [hcalls]
    refine Prog.wp_issue_bind trivial (fun rows _ => ?_) fun e _ => ⟨parsed, rfl⟩
    have hspeaks : Here.speaks { asked h (first :: others) pairs with answered := parsed } =
        speaksForThisWallet config (wallets.reverse.find? fun w => w.id = first.walletId) := by
      rw [← hbetween.config, ← hbetween.wallets]
      rfl
    refine Prog.wp_bind_of (judgeStages_wp ?_ ?_) ?_ ?_
    · show (Here.hitRows _ rows).map _ = _
      rw [Here.hitRows, hspeaks]
    · exact hbetween.kept
    · intro _ s hs
      obtain rfl : s = _ := hs
      have hne : ∀ c, parked.status c ≠ .eligibleRestricted := by simp [parked]
      refine Prog.wp_bind_of (rewriteAll_wp_of_ne hne) ?_ ?_
      · intro _ s hs
        obtain rfl : s = _ := hs
        refine now_wp (fun nowMs => Prog.wp_issue.mpr ⟨trivial, fun x _ => ?_⟩) ?_
        · cases x with
          | ok a => exact ⟨hbetween.config, hbetween.wallets, rfl, rfl, hbetween.kept⟩
          | error e => exact ⟨parsed, rfl⟩
        · exact fun e => ⟨parsed, rfl⟩
      · exact fun e s hs => ⟨parsed, hs⟩
    · exact fun e s hs => ⟨parsed, hs⟩
  · show (h.calls (.getEligibility slug jwt)).failed e = _
    rw [hcalls]
    rfl

theorem checkPair_wp {checks : List DueCheck} {pairs : List (List DueCheck)}
    (hbetween : Between config wallets ((checks :: pairs).filter hasSlug) h) :
    (checkPair config jwt wallets checks).wp reads
      (Prog.onReturn fun _ => Between config wallets (pairs.filter hasSlug)) h := by
  cases checks with
  | nil => exact hbetween
  | cons first others =>
    cases hslug : first.projectSlug with
    | none =>
      rw [List.filter_cons_of_neg (by simp [hasSlug, hslug])] at hbetween
      rw [checkPair, hslug]
      exact hbetween
    | some slug =>
      rw [List.filter_cons_of_pos (by simp [hasSlug, hslug])] at hbetween
      rw [checkPair, hslug]
      refine Prog.wp_tryCatch_of (judgePair_wp hbetween) (fun _ s hs => hs) ?_
      rintro e s ⟨answered, rfl⟩
      refine Prog.wp_mono (recover_wp rfl) fun r s hs => ?_
      cases r with
      | error e => trivial
      | ok a =>
        obtain rfl : s = _ := hs
        exact ⟨hbetween.config, hbetween.wallets, rfl, rfl, rfl⟩

theorem checkPairs_wp {pairs : List (List DueCheck)}
    (hbetween : Between config wallets (pairs.filter hasSlug) h) :
    (checkPairs config jwt wallets pairs).wp reads (fun _ _ => True) h := by
  induction pairs generalizing h with
  | nil => exact trivial
  | cons checks pairs ih =>
    refine Prog.wp_bind_of (checkPair_wp hbetween) (fun _ s hs => ih hs) fun _ _ _ => trivial

end

/-! ### The pass -/

/-- **The pass** claims no hit but what it has been told is one, or keeps. -/
theorem runEligibilityPass_safe (config : Config) (limit : Option ℕ) :
    (runEligibilityPass config limit).wp reads (fun _ _ => True) (.start config) := by
  refine Prog.wp_issue_bind trivial (fun apiKeys _ => ?_) fun _ _ => trivial
  refine Prog.wp_issue_bind trivial (fun nowMs _ => ?_) fun _ _ => trivial
  refine Prog.wp_issue_bind trivial (fun due _ => ?_) fun _ _ => trivial
  refine Prog.wp_ite (fun _ => trivial) fun _ => ?_
  refine Prog.wp_issue_bind trivial (fun jwt _ => ?_) fun _ _ => trivial
  cases jwt with
  | none =>
    refine Prog.wp_mono (rewriteAll_wp_of_ne ?_) fun _ _ _ => trivial
    simp [unauthorised]
  | some jwt =>
    refine Prog.wp_issue_bind trivial (fun wallets _ => ?_) fun _ _ => trivial
    exact checkPairs_wp ⟨rfl, rfl, rfl, rfl, rfl⟩

end EligibilityEngine
