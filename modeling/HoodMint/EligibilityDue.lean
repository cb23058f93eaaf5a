/-
Which of the checks that a pass picks it leaves due.

* `World`, `passes` — what a pass reads and is answered, as a monitor over the table of checks;
* `World.Settles` — every check it picked is due later only, once the pass has returned;
* `World.Reached` — the project of a check has a slug, and no other of its stages takes the place
  of the check's when that is returned;
* `settles_iff_reached` — the one holds exactly when the other does of every check that is picked.
-/
import HoodMint.EligibilityHits

namespace EligibilityEngine

open Effect Eligibility Projects Relational

/-! ### When a check is made again -/

theorem recheckDelay_pos (start now : ℤ) (eligible : Bool) : 0 < recheckDelay start now eligible := by
  simp only [recheckDelay, ScheduleIntervals.near, ScheduleIntervals.imminent,
    ScheduleIntervals.far]
  split_ifs <;> omega

theorem retryDelayMs_pos (check : DueCheck) (verdict : EligibilityState) (now : ℤ) :
    0 < retryDelayMs check verdict now := by
  rw [retryDelayMs_eq]
  exact recheckDelay_pos _ _ _

/-- What a failure writes is due later, too. -/
theorem delayMs_pos (error : Thrown) : 0 < error.treatment.rewrite.delayMs := by
  have hwait : ∀ retryAfterSeconds : Option ℤ, (0 : ℤ) <
      retryAfterSeconds.elim (5 * 60 * 1000) fun s => max (5 * 60 * 1000) (s * 1000) := by
    intro retryAfterSeconds
    cases retryAfterSeconds with
    | none => show (0 : ℤ) < 5 * 60 * 1000; omega
    | some s => show (0 : ℤ) < max (5 * 60 * 1000) (s * 1000); omega
  have hhours : (0 : ℤ) < 6 * 60 * 60 * 1000 := by omega
  have hminutes : (0 : ℤ) < 30 * 60 * 1000 := by omega
  cases error with
  | other => exact hminutes
  | app category retryAfterSeconds =>
    cases category with
    | notFound => exact hhours
    | rateLimited => exact hwait retryAfterSeconds
    | authRequired => exact hwait retryAfterSeconds
    | _ => exact hminutes

/-! ### What a pass reads, and is answered -/

/-- The key of the row of a due check. -/
def DueCheck.key (check : DueCheck) : String × String × String :=
  (check.walletId, check.projectId, check.stageId)

/-- The tables, the checks that are picked of them, and the answers of OpenSea.  Ids are uuids. -/
structure World where
  checks : CheckTable
  stages : StageRows
  slugs : String → Option String
  start : ℤ
  due : List DueCheck
  jwt : Option String
  answers : String → String → List EligibilityStage
  isDue : ∀ check ∈ due, ∃ row ∈ checks, row.key = check.key ∧ ∃ t ≤ start, row.nextDueAt = some t
  slug_eq : ∀ check ∈ due, check.projectSlug = slugs check.projectId
  uuid : ∀ check ∈ due, ':' ∉ check.walletId.toList ∧ ':' ∉ check.projectId.toList

/-- The stages of a project. -/
def World.rowsOf (w : World) (projectId : String) : List StageRow :=
  w.stages.rows.filter fun s => s.projectId = projectId

/-- How far a pass has come. -/
structure Passing where
  checks : CheckTable
  clock : ℤ
  /-- The pairs it has not asked about. -/
  rest : List (List DueCheck)

/-- A pass over the tables, the clock running on. -/
def passes (w : World) : Monitor signature Thrown Passing where
  guard _ _ := True
  allowed s c x :=
    match c, x with
    | .now, .ok t => s.clock ≤ t
    | .dueEligibilityChecks .., .ok due => due = w.due
    | .getWalletJwt, .ok jwt => jwt = w.jwt
    | .getEligibility .., .ok parsed =>
      ∀ first ∈ s.rest.head?.bind List.head?, parsed = w.answers first.walletId first.projectId
    | .stagesOf projectId, .ok rows => rows = w.rowsOf projectId
    | _, _ => True
  next s c x :=
    match c, x with
    | .now, .ok t => { s with clock := t }
    | .dueEligibilityChecks .., .ok due => { s with rest := (byPair due).filter hasSlug }
    | .getEligibility .., _ => { s with rest := s.rest.tail }
    | .upsertEligibilityCheck input, .ok _ =>
      { s with checks := upsertEligibilityCheck s.checks input }
    | _, _ => s

namespace World

variable (w : World)

def initial : Passing := ⟨w.checks, w.start, []⟩

/-- The row of the key has been written in the pass, and is due only after that. -/
def Later (s : Passing) (k : String × String × String) : Prop :=
  ∃ row t, s.checks.get? k = some row ∧ row.nextDueAt = some t ∧
    w.start ≤ row.checkedAt ∧ row.checkedAt < t

/-- **Nothing it picked is still due** when the pass returns. -/
def Settles (config : Config) (limit : Option ℕ) : Prop :=
  ∀ tr, (runEligibilityPass config limit).Runs tr (.finished (.ok ())) →
    (passes w).Admits w.initial tr →
      ∀ check ∈ w.due, w.Later ((passes w).after w.initial tr) check.key

/-- A pass gets to the check: its project has a slug, and its stage, when it is returned, is the
last of the project's in its spelling. -/
structure Reached (check : DueCheck) : Prop where
  slug : (w.slugs check.projectId).isSome
  stage : ∃ row ∈ w.stages, row.id = check.stageId ∧ row.projectId = check.projectId ∧
    (isReturned (w.answers check.walletId check.projectId) row →
      (w.rowsOf check.projectId).reverse.find? (fun s =>
        normalizeStageId s.providerStageId = normalizeStageId row.providerStageId) = some row)

end World

/-! ### Rows due later -/

section

variable {w : World} {s s' : Passing} {k : String × String × String} {K K' : String × String × String → Prop}

/-- The clock has run on, and what was due later still is. -/
structure Moved (w : World) (s s' : Passing) : Prop where
  clock : s.clock ≤ s'.clock
  rest : s'.rest = s.rest
  later : ∀ k, w.Later s k → w.Later s' k

theorem Moved.refl (s : Passing) : Moved w s s := ⟨le_rfl, rfl, fun _ h => h⟩

theorem Moved.trans {s₁ s₂ s₃ : Passing} (h : Moved w s₁ s₂) (h' : Moved w s₂ s₃) :
    Moved w s₁ s₃ :=
  ⟨h.clock.trans h'.clock, h'.rest.trans h.rest, fun k hk => h'.later k (h.later k hk)⟩

/-- A part of the pass moves on and, when it returns, leaves the rows of the keys due later. -/
def Defers (w : World) (s : Passing) (K : String × String × String → Prop) :
    Except Thrown Unit → Passing → Prop
  | .ok _, s' => Moved w s s' ∧ ∀ k, K k → w.Later s' k
  | .error _, s' => Moved w s s'

theorem Defers.mono {r : Except Thrown Unit} (h : Defers w s K r s') (hK : ∀ k, K' k → K k) :
    Defers w s K' r s' := by
  cases r with
  | ok => exact ⟨h.1, fun k hk => h.2 k (hK k hk)⟩
  | error e => exact h

theorem Defers.from {s₀ : Passing} {r : Except Thrown Unit} (h₀ : Moved w s₀ s)
    (h : Defers w s K r s') : Defers w s₀ K r s' := by
  cases r with
  | ok => exact ⟨h₀.trans h.1, h.2⟩
  | error e => exact h₀.trans h

theorem defers_mono {p : Engine Unit} (hK : ∀ k, K' k → K k)
    (h : p.wp (passes w) (Defers w s K) s) : p.wp (passes w) (Defers w s K') s :=
  Prog.wp_mono h fun _ _ h => h.mono hK

/-- One part after the other. -/
theorem defers_bind {p q : Engine Unit} (hp : p.wp (passes w) (Defers w s K) s)
    (hq : ∀ s', Moved w s s' → q.wp (passes w) (Defers w s' K') s') :
    (p >>= fun _ => q).wp (passes w) (Defers w s fun k => K k ∨ K' k) s := by
  refine Prog.wp_bind_of hp (fun _ s' h => ?_) fun _ _ h => h
  refine Prog.wp_mono (hq s' h.1) fun r s'' h' => ?_
  cases r with
  | error e => exact h.1.trans h'
  | ok =>
    refine ⟨h.1.trans h'.1, fun k hk => ?_⟩
    rcases hk with hk | hk
    · exact h'.1.later k (h.2 k hk)
    · exact h'.2 k hk

/-- A reading of the clock. -/
theorem defers_now {f : ℤ → Engine Unit}
    (hf : ∀ now, s.clock ≤ now →
      (f now).wp (passes w) (Defers w { s with clock := now } K) { s with clock := now }) :
    (ask .now >>= f).wp (passes w) (Defers w s K) s := by
  refine Prog.wp_issue_bind trivial (fun now hnow => ?_) fun _ _ => Moved.refl s
  have hmoved : Moved w s { s with clock := now } := ⟨hnow, rfl, fun _ h => h⟩
  exact Prog.wp_mono (hf now hnow) fun r s' h => h.from hmoved

/-- A row that is written to be due later, is. -/
theorem moved_upsert {input : EligibilityUpsert} (hstart : w.start ≤ input.checkedAt)
    (hdue : input.checkedAt < input.nextDueAt) :
    Moved w s { s with checks := upsertEligibilityCheck s.checks input } ∧
      w.Later { s with checks := upsertEligibilityCheck s.checks input } input.key := by
  have hwritten :
      w.Later { s with checks := upsertEligibilityCheck s.checks input } input.key :=
    ⟨_, _, by rw [upsertEligibilityCheck, Table.get?_upsert, EligibilityUpsert.key_row,
      if_pos rfl], rfl, hstart, hdue⟩
  refine ⟨⟨le_rfl, rfl, ?_⟩, hwritten⟩
  rintro k ⟨row, t, hrow, hlater⟩
  by_cases hk : input.key = k
  · exact hk ▸ hwritten
  · refine ⟨row, t, ?_, hlater⟩
    rw [upsertEligibilityCheck, Table.get?_upsert, EligibilityUpsert.key_row, if_neg hk]
    exact hrow

theorem defers_upsert {input : EligibilityUpsert} (hstart : w.start ≤ input.checkedAt)
    (hdue : input.checkedAt < input.nextDueAt) (hK : ∀ k, K k → k = input.key) :
    (ask (.upsertEligibilityCheck input)).wp (passes w) (Defers w s K) s := by
  obtain ⟨hmoved, hwritten⟩ := moved_upsert (s := s) hstart hdue
  refine Prog.wp_issue.mpr ⟨trivial, fun x _ => ?_⟩
  cases x with
  | error e => exact Moved.refl s
  | ok a => exact ⟨hmoved, fun k hk => hK k hk ▸ hwritten⟩

/-! ### One pair -/

/-- The rows that an answer is about. -/
def Told (j : Judgement) (stages : List EligibilityStage) (k : String × String × String) : Prop :=
  ∃ stage ∈ stages, ∃ row, stageRow? j.rows stage = some row ∧
    k = (j.first.walletId, j.first.projectId, row.id)

theorem alertHit_defers {j : Judgement} {stage : EligibilityStage} {row : StageRow} :
    (alertHit j stage row).wp (passes w) (Defers w s fun _ => False) s := by
  refine defers_now fun now _ => Prog.wp_issue.mpr ⟨trivial, fun x _ => ?_⟩
  cases x with
  | error e => exact Moved.refl _
  | ok a => exact ⟨Moved.refl _, fun k hk => hk.elim⟩

theorem judgeStage_defers {j : Judgement} {stage : EligibilityStage}
    (hclock : w.start ≤ s.clock) :
    (judgeStage j stage).wp (passes w) (Defers w s (Told j [stage])) s := by
  rw [judgeStage]
  cases hrow : stageRow? j.rows stage with
  | none =>
    refine ⟨Moved.refl s, ?_⟩
    rintro k ⟨stage', hstage', row, hrow', -⟩
    rw [List.mem_singleton.mp hstage', hrow] at hrow'
    cases hrow'
  | some row =>
    refine defers_now fun checkedAt hchecked => defers_now fun base hbase =>
      defers_now fun isoNow _ => ?_
    have hpos := retryDelayMs_pos j.first j.verdict isoNow
    have hsplit : ∀ k, Told j [stage] k →
        k = (j.first.walletId, j.first.projectId, row.id) ∨ False := by
      rintro k ⟨stage', hstage', row', hrow', rfl⟩
      rw [List.mem_singleton.mp hstage', hrow] at hrow'
      cases hrow'
      exact Or.inl rfl
    refine defers_mono hsplit ?_
    refine defers_bind (defers_upsert (hclock.trans hchecked) ?_ fun k hk => hk) fun s' _ => ?_
    · show checkedAt < base + retryDelayMs j.first j.verdict isoNow
      have hbase' : checkedAt ≤ base := hbase
      omega
    · exact Prog.wp_ite (fun _ => alertHit_defers) fun _ => ⟨Moved.refl s', fun k hk => hk.elim⟩

theorem judgeStages_defers {j : Judgement} {stages : List EligibilityStage}
    (hclock : w.start ≤ s.clock) :
    (judgeStages j stages).wp (passes w) (Defers w s (Told j stages)) s := by
  induction stages generalizing s with
  | nil =>
    refine ⟨Moved.refl s, ?_⟩
    rintro k ⟨stage, hstage, -⟩
    exact absurd hstage List.not_mem_nil
  | cons stage stages ih =>
    refine defers_mono ?_ (defers_bind (judgeStage_defers hclock)
      fun s' hmoved => ih (hclock.trans hmoved.clock))
    rintro k ⟨stage', hstage', htold⟩
    rcases List.mem_cons.mp hstage' with rfl | hstage'
    · exact Or.inl ⟨stage', List.mem_singleton_self _, htold⟩
    · exact Or.inr ⟨stage', hstage', htold⟩

/-- What is written again is due later. -/
theorem rewriteAll_defers {wr : Rewrite} {checks : List DueCheck} (hclock : w.start ≤ s.clock)
    (hpos : 0 < wr.delayMs) :
    (rewriteAll wr checks).wp (passes w)
      (Defers w s fun k => ∃ check ∈ checks, k = check.key) s := by
  induction checks generalizing s with
  | nil =>
    refine ⟨Moved.refl s, ?_⟩
    rintro k ⟨check, hcheck, -⟩
    exact absurd hcheck List.not_mem_nil
  | cons check checks ih =>
    rw [rewriteAll]
    refine defers_now fun checkedAt hchecked => defers_now fun base hbase => ?_
    have hsplit : ∀ k, (∃ check' ∈ check :: checks, k = check'.key) →
        k = check.key ∨ ∃ check' ∈ checks, k = check'.key := by
      rintro k ⟨check', hcheck', rfl⟩
      rcases List.mem_cons.mp hcheck' with rfl | hcheck'
      · exact Or.inl rfl
      · exact Or.inr ⟨check', hcheck', rfl⟩
    refine defers_mono hsplit ?_
    refine defers_bind (defers_upsert (hclock.trans hchecked) ?_ fun k hk => hk) fun s' h => ?_
    · show checkedAt < base + wr.delayMs
      have hbase' : checkedAt ≤ base := hbase
      omega
    · exact ih (hclock.trans (hchecked.trans (hbase.trans h.clock)))

/-- **A failure** that the pass goes on after leaves nothing of the pair due. -/
theorem recover_defers {checks : List DueCheck} {error : Thrown} (hclock : w.start ≤ s.clock) :
    (recover checks error).wp (passes w)
      (Defers w s fun k => ∃ check ∈ checks, k = check.key) s := by
  refine Prog.wp_bind_of (rewriteAll_defers hclock (delayMs_pos error)) (fun _ s' h => ?_)
    fun _ _ h => h
  exact Prog.wp_ite (fun _ => h.1) fun _ => h

/-- The checks of a wallet and a project. -/
structure OfPair (w : World) (first : DueCheck) (checks : List DueCheck) : Prop where
  due : ∀ check ∈ checks, check ∈ w.due
  wallet : ∀ check ∈ checks, check.walletId = first.walletId
  project : ∀ check ∈ checks, check.projectId = first.projectId

/-- The stage of a check is among its project's, under its own id only. -/
theorem find?_rowsOf {row : StageRow} {projectId : String} (hrow : row ∈ w.stages)
    (hproject : row.projectId = projectId) :
    (w.rowsOf projectId).find? (fun s => s.id = row.id) = some row := by
  have hmem : row ∈ w.rowsOf projectId :=
    List.mem_filter.mpr ⟨hrow, decide_eq_true hproject⟩
  cases hfind : (w.rowsOf projectId).find? (fun s => s.id = row.id) with
  | none => exact absurd (decide_eq_true rfl) (List.find?_eq_none.mp hfind row hmem)
  | some row' =>
    have hid : row'.id = row.id :=
      of_decide_eq_true (List.find?_some (p := fun s : StageRow => decide (s.id = row.id)) hfind)
    have hrow' := (List.mem_filter.mp (List.mem_of_find?_eq_some hfind)).1
    rw [Table.eq_of_key hrow' hrow hid]

/-- **Reached**: either the answer is about the check's stage, or the check is parked. -/
theorem told_or_parked {slug : String} {first check : DueCheck} {checks : List DueCheck}
    {verdict : EligibilityState} {wallet : Option TrackedWallet} {speaks : Bool}
    (hpair : OfPair w first checks) (hcheck : check ∈ checks)
    (hreached : w.Reached check) :
    let rows := w.rowsOf first.projectId
    let parsed := w.answers first.walletId first.projectId
    Told ⟨first, slug, rows, verdict, wallet, speaks⟩ parsed check.key ∨
      ∃ check' ∈ checks.filter (isParked rows parsed), check.key = check'.key := by
  intro rows parsed
  obtain ⟨row, hrow, hid, hproject, hlast⟩ := hreached.stage
  rw [hpair.project check hcheck] at hproject hlast
  rw [hpair.wallet check hcheck] at hlast
  by_cases hreturned : isReturned parsed row = true
  · -- the last row in the spelling of the returned stage is the check's own
    obtain ⟨stage, hstage, hspelt⟩ := List.any_eq_true.mp hreturned
    refine Or.inl ⟨stage, hstage, row, ?_, ?_⟩
    · rw [stageRow?, of_decide_eq_true hspelt]
      exact hlast hreturned
    · rw [DueCheck.key, hpair.wallet check hcheck, hpair.project check hcheck, hid]
  · refine Or.inr ⟨check, List.mem_filter.mpr ⟨hcheck, ?_⟩, rfl⟩
    rw [isParked, ← hid, find?_rowsOf hrow hproject]
    simpa using hreturned

theorem judgePair_defers {config : Config} {jwt slug : String} {wallets : List TrackedWallet}
    {first : DueCheck} {checks : List DueCheck} {pairs : List (List DueCheck)}
    (hclock : w.start ≤ s.clock) (hhead : checks.head? = some first)
    (hrest : s.rest = checks :: pairs) (hpair : OfPair w first checks)
    (hreached : ∀ check ∈ checks, w.Reached check) :
    (judgePair config jwt wallets slug first checks).wp (passes w)
      (Defers w { s with rest := pairs } fun k => ∃ check ∈ checks, k = check.key) s := by
  have htail : { s with rest := s.rest.tail } = { s with rest := pairs } := by rw [hrest]; rfl
  have hasked : s.rest.head?.bind List.head? = some first := by rw [hrest]; exact hhead
  refine Prog.wp_issue_bind trivial (fun parsed hparsed => ?_) fun e _ => ?_
  · obtain rfl : parsed = _ := hparsed first hasked
    show Prog.wp (passes w) _ _ { s with rest := s.rest.tail }
    rw [htail]
    refine Prog.wp_issue_bind trivial (fun rows hrows => ?_) fun e _ => Moved.refl _
    obtain rfl : rows = _ := hrows
    refine defers_mono ?_ (defers_bind (judgeStages_defers hclock) fun s₁ h₁ =>
      defers_bind (rewriteAll_defers (hclock.trans h₁.clock) ?_) fun s₂ _ =>
        defers_now (K := fun _ => False) fun nowMs _ => Prog.wp_issue.mpr ⟨trivial, ?_⟩)
    · rintro k ⟨check, hcheck, rfl⟩
      rcases told_or_parked hpair hcheck (hreached check hcheck) with htold | hparked
      · exact Or.inl htold
      · exact Or.inr (Or.inl hparked)
    · show (0 : ℤ) < 6 * 60 * 60 * 1000
      omega
    · intro x _
      cases x with
      | error e => exact Moved.refl _
      | ok a => exact ⟨Moved.refl _, fun k hk => hk.elim⟩
  · show Moved w _ { s with rest := s.rest.tail }
    rw [htail]
    exact Moved.refl _

theorem checkPair_defers {config : Config} {jwt : String} {wallets : List TrackedWallet}
    {first : DueCheck} {checks : List DueCheck} {pairs : List (List DueCheck)}
    (hclock : w.start ≤ s.clock) (hhead : checks.head? = some first)
    (hrest : s.rest = checks :: pairs) (hpair : OfPair w first checks)
    (hreached : ∀ check ∈ checks, w.Reached check) :
    (checkPair config jwt wallets checks).wp (passes w)
      (Defers w { s with rest := pairs } fun k => ∃ check ∈ checks, k = check.key) s := by
  obtain ⟨others, rfl⟩ := List.head?_eq_some_iff.mp hhead
  have hfirst : first ∈ first :: others := List.mem_cons_self
  obtain ⟨slug, hslug⟩ := Option.isSome_iff_exists.mp (hreached first hfirst).slug
  rw [checkPair, (w.slug_eq first (hpair.due first hfirst)).trans hslug]
  refine Prog.wp_tryCatch_of (judgePair_defers hclock hhead hrest hpair hreached)
    (fun _ s' h => h) fun e s' h => ?_
  exact Prog.wp_mono (recover_defers (hclock.trans h.clock)) fun r s'' h' => h'.from h

/-- The pairs of a pass, all of whose checks it gets to. -/
def AllReached (w : World) (pairs : List (List DueCheck)) : Prop :=
  ∀ checks ∈ pairs, (∃ first, checks.head? = some first ∧ OfPair w first checks) ∧
    ∀ check ∈ checks, w.Reached check

theorem checkPairs_defers {config : Config} {jwt : String} {wallets : List TrackedWallet}
    {pairs : List (List DueCheck)} (hclock : w.start ≤ s.clock) (hrest : s.rest = pairs)
    (hpairs : AllReached w pairs) :
    (checkPairs config jwt wallets pairs).wp (passes w)
      (Prog.onReturn fun _ s' => (∀ k, w.Later s k → w.Later s' k) ∧
        ∀ checks ∈ pairs, ∀ check ∈ checks, w.Later s' check.key) s := by
  induction pairs generalizing s with
  | nil => exact ⟨fun _ h => h, fun checks h => absurd h List.not_mem_nil⟩
  | cons checks pairs ih =>
    obtain ⟨⟨first, hhead, hpair⟩, hreached⟩ := hpairs checks List.mem_cons_self
    refine Prog.wp_bind_of (checkPair_defers hclock hhead hrest hpair hreached) ?_
      fun _ _ _ => trivial
    rintro _ s' ⟨hmoved, hlater⟩
    refine Prog.wp_mono (ih (hclock.trans hmoved.clock) hmoved.rest
      fun checks' h => hpairs checks' (List.mem_cons_of_mem _ h)) fun r s'' h => ?_
    cases r with
    | error e => trivial
    | ok a =>
      refine ⟨fun k hk => h.1 k (hmoved.later k hk), fun checks' hchecks' check hcheck => ?_⟩
      rcases List.mem_cons.mp hchecks' with rfl | hchecks'
      · exact h.1 _ (hlater _ ⟨check, hcheck, rfl⟩)
      · exact h.2 checks' hchecks' check hcheck

end

/-! ### The pairs -/

section

variable {w : World}

theorem pairKey_inj {check check' : DueCheck}
    (h : ':' ∉ check.walletId.toList ∧ ':' ∉ check.projectId.toList) (hkey : check.pairKey = check'.pairKey) :
    check.walletId = check'.walletId ∧ check.projectId = check'.projectId := by
  have hlist : check.walletId.toList ++ ':' :: check.projectId.toList =
      check'.walletId.toList ++ ':' :: check'.projectId.toList := by
    simpa [DueCheck.pairKey, String.toList_append] using congrArg String.toList hkey
  obtain ⟨hwallet, -, hproject⟩ := (List.append_cons_inj_of_notMem h.1 h.2).mp hlist
  exact ⟨String.toList_inj.mp hwallet, String.toList_inj.mp hproject⟩

/-- Every check that is picked is in a pair. -/
theorem exists_mem_byPair {due : List DueCheck} {check : DueCheck} (h : check ∈ due) :
    ∃ checks ∈ byPair due, check ∈ checks :=
  ⟨due.filter fun c => c.pairKey = check.pairKey,
    List.mem_map.mpr ⟨check.pairKey, List.mem_eraseDups.mpr (List.mem_map_of_mem h), rfl⟩,
    List.mem_filter.mpr ⟨h, decide_eq_true rfl⟩⟩

/-- A pair is the checks of one wallet and project. -/
theorem ofPair_of_mem_byPair {checks : List DueCheck} (h : checks ∈ byPair w.due) :
    ∃ first, checks.head? = some first ∧ OfPair w first checks := by
  obtain ⟨key, hkey, rfl⟩ := List.mem_map.mp h
  obtain ⟨check, hcheck, rfl⟩ := List.mem_map.mp (List.mem_eraseDups.mp hkey)
  have hmem : check ∈ w.due.filter fun c => c.pairKey = check.pairKey :=
    List.mem_filter.mpr ⟨hcheck, decide_eq_true rfl⟩
  obtain ⟨first, hhead⟩ := Option.isSome_iff_exists.mp (List.isSome_head?.mpr (List.ne_nil_of_mem hmem))
  have hfirst := List.mem_filter.mp (List.mem_of_head? hhead)
  have hsame : ∀ c ∈ w.due.filter fun c => c.pairKey = check.pairKey,
      c.walletId = first.walletId ∧ c.projectId = first.projectId := by
    intro c hc
    have hc' := List.mem_filter.mp hc
    exact pairKey_inj (w.uuid c hc'.1)
      ((of_decide_eq_true hc'.2).trans (of_decide_eq_true hfirst.2).symm)
  exact ⟨first, hhead, fun c hc => (List.mem_filter.mp hc).1, fun c hc => (hsame c hc).1,
    fun c hc => (hsame c hc).2⟩

theorem allReached_byPair (h : ∀ check ∈ w.due, w.Reached check) : AllReached w (byPair w.due) := by
  intro checks hchecks
  obtain ⟨first, hhead, hpair⟩ := ofPair_of_mem_byPair hchecks
  exact ⟨⟨first, hhead, hpair⟩, fun check hcheck => h check (hpair.due check hcheck)⟩

/-- A pass that gets to all of its checks asks about all of their pairs. -/
theorem filter_hasSlug_byPair (h : ∀ check ∈ w.due, w.Reached check) :
    (byPair w.due).filter hasSlug = byPair w.due := by
  refine List.filter_eq_self.mpr fun checks hchecks => ?_
  obtain ⟨first, hhead, hpair⟩ := ofPair_of_mem_byPair hchecks
  have hfirst := hpair.due first (List.mem_of_head? hhead)
  rw [hasSlug, hhead]
  exact (congrArg Option.isSome (w.slug_eq first hfirst)).trans (h first hfirst).slug

/-! ### The pass -/

theorem runEligibilityPass_settles {config : Config} {limit : Option ℕ}
    (h : w.jwt.isSome → ∀ check ∈ w.due, w.Reached check) :
    (runEligibilityPass config limit).wp (passes w)
      (Prog.onReturn fun _ s' => ∀ check ∈ w.due, w.Later s' check.key) w.initial := by
  refine Prog.onReturn_issue_bind trivial fun apiKeys _ => ?_
  refine Prog.onReturn_issue_bind trivial fun nowMs hnow => ?_
  refine Prog.onReturn_issue_bind trivial fun due hdue => ?_
  obtain rfl : due = w.due := hdue
  refine Prog.wp_ite (fun hnil check hcheck => ?_) fun _ => ?_
  · rw [hnil] at hcheck
    exact absurd hcheck List.not_mem_nil
  refine Prog.onReturn_issue_bind trivial fun jwt hjwt => ?_
  obtain rfl : jwt = w.jwt := hjwt
  have hclock : w.start ≤ nowMs := hnow
  cases hw : w.jwt with
  | none =>
    refine Prog.wp_mono (rewriteAll_defers hclock ?_) fun r s' h => ?_
    · show (0 : ℤ) < 30 * 60 * 1000
      omega
    · cases r with
      | error e => trivial
      | ok a => exact fun check hcheck => h.2 _ ⟨check, hcheck, rfl⟩
  | some jwt =>
    have hreached := h (by rw [hw]; rfl)
    refine Prog.onReturn_issue_bind trivial fun wallets _ => ?_
    refine Prog.wp_mono (checkPairs_defers hclock (filter_hasSlug_byPair hreached)
      (allReached_byPair hreached)) fun r s' hlater => ?_
    cases r with
    | error e => trivial
    | ok a =>
      intro check hcheck
      obtain ⟨checks, hchecks, hmem⟩ := exists_mem_byPair hcheck
      exact hlater.2 checks hchecks check hmem

/-! ### A check that is not reached -/

/-- The row of the key, and the pairs that are left. -/
def Held (k : String × String × String) (old : Option EligibilityCheck)
    (rest : List (List DueCheck)) (s : Passing) : Prop :=
  s.checks.get? k = old ∧ s.rest = rest

/-- A part of the pass returns, and has left the row of the key alone. -/
def Spares (k : String × String × String) (old : Option EligibilityCheck)
    (rest : List (List DueCheck)) : Except Thrown Unit → Passing → Prop
  | .ok _, s => Held k old rest s
  | .error _, _ => False

variable {s : Passing} {k : String × String × String} {old : Option EligibilityCheck}
  {rest : List (List DueCheck)}

theorem held_upsert {input : EligibilityUpsert} (hkey : input.key ≠ k) (h : Held k old rest s) :
    Held k old rest { s with checks := upsertEligibilityCheck s.checks input } := by
  refine ⟨?_, h.2⟩
  rw [upsertEligibilityCheck, Table.get?_upsert, EligibilityUpsert.key_row, if_neg hkey]
  exact h.1

theorem judgeStage_spares {j : Judgement} {stage : EligibilityStage}
    (htold : ¬Told j [stage] k) (h : Held k old rest s) :
    (judgeStage j stage).wp (passes w).smooth (Spares k old rest) s := by
  rw [judgeStage]
  cases hrow : stageRow? j.rows stage with
  | none => exact h
  | some row =>
    refine Prog.smooth_issue_bind trivial fun checkedAt _ => ?_
    refine Prog.smooth_issue_bind trivial fun base _ => ?_
    refine Prog.smooth_issue_bind trivial fun isoNow _ => ?_
    have hkey : (j.first.walletId, j.first.projectId, row.id) ≠ k := fun hk =>
      htold ⟨stage, List.mem_singleton_self _, row, hrow, hk.symm⟩
    refine Prog.smooth_issue_bind trivial fun _ _ => Prog.wp_ite (fun _ => ?_) fun _ => ?_
    · refine Prog.smooth_issue_bind trivial fun now _ => Prog.wp_issue.mpr ⟨trivial, ?_⟩
      rintro x ⟨⟨a, rfl⟩, -⟩
      exact held_upsert hkey h
    · exact held_upsert hkey h

theorem judgeStages_spares {j : Judgement} {stages : List EligibilityStage}
    (htold : ¬Told j stages k) (h : Held k old rest s) :
    (judgeStages j stages).wp (passes w).smooth (Spares k old rest) s := by
  induction stages generalizing s with
  | nil => exact h
  | cons stage stages ih =>
    refine Prog.wp_bind_of (judgeStage_spares (fun ⟨stage', hstage', hrow⟩ => ?_) h)
      (fun _ s' h' => ih (fun ⟨stage', hstage', hrow⟩ => ?_) h') fun _ _ he => he
    · exact htold ⟨stage', List.mem_cons_of_mem _ hstage', hrow⟩
    · obtain rfl := List.mem_singleton.mp hstage'
      exact htold ⟨stage', List.mem_cons_self, hrow⟩

theorem rewriteAll_spares {wr : Rewrite} {checks : List DueCheck}
    (hkey : ∀ check ∈ checks, check.key ≠ k) (h : Held k old rest s) :
    (rewriteAll wr checks).wp (passes w).smooth (Spares k old rest) s := by
  induction checks generalizing s with
  | nil => exact h
  | cons check checks ih =>
    refine Prog.smooth_issue_bind trivial fun checkedAt _ => ?_
    refine Prog.smooth_issue_bind trivial fun base _ => ?_
    refine Prog.smooth_issue_bind trivial fun _ _ => ?_
    exact ih (fun check' h' => hkey check' (List.mem_cons_of_mem _ h'))
      (held_upsert (hkey check List.mem_cons_self) h)

/-- **Between the two loops**: an answer is about the check neither as told nor as parked. -/
theorem not_told_and_not_parked {slug : String} {first check : DueCheck} {checks : List DueCheck}
    {verdict : EligibilityState} {wallet : Option TrackedWallet} {speaks : Bool}
    (hpair : OfPair w first checks) (hslug : (w.slugs check.projectId).isSome)
    (hleak : ¬w.Reached check) :
    let rows := w.rowsOf first.projectId
    let parsed := w.answers first.walletId first.projectId
    ¬Told ⟨first, slug, rows, verdict, wallet, speaks⟩ parsed check.key ∧
      ∀ check' ∈ checks.filter (isParked rows parsed), check'.key ≠ check.key := by
  intro rows parsed
  have hrows : ∀ row ∈ rows, row ∈ w.stages ∧ row.projectId = first.projectId := fun row hrow =>
    ⟨(List.mem_filter.mp hrow).1, of_decide_eq_true (List.mem_filter.mp hrow).2⟩
  constructor
  · rintro ⟨stage, hstage, row, hrow, hkey⟩
    obtain ⟨hwallet, hproject, hid⟩ : check.walletId = first.walletId ∧
        check.projectId = first.projectId ∧ check.stageId = row.id := by
      simpa [DueCheck.key] using hkey
    -- told: the answer's stage is that of the check's row, which would reach it
    have hspelt := of_decide_eq_true (List.find?_some (p := fun s : StageRow =>
      decide (normalizeStageId s.providerStageId = normalizeStageId stage.stageUuid)) hrow)
    have hmem := hrows row (List.mem_reverse.mp (List.mem_of_find?_eq_some hrow))
    refine hleak ⟨hslug, row, hmem.1, hid.symm, hmem.2.trans hproject.symm, fun _ => ?_⟩
    rw [hproject, hspelt]
    exact hrow
  · -- parked: the check has a row, and the answer does not return it
    intro check' hcheck' hkey
    obtain ⟨hmem', hparked⟩ := List.mem_filter.mp hcheck'
    obtain ⟨hwallet, hproject, hid⟩ : check'.walletId = check.walletId ∧
        check'.projectId = check.projectId ∧ check'.stageId = check.stageId := by
      simpa [DueCheck.key] using hkey
    rw [isParked] at hparked
    cases hfind : rows.find? fun s => s.id = check'.stageId with
    | none =>
      rw [hfind] at hparked
      cases hparked
    | some row =>
      rw [hfind] at hparked
      have hrowid : row.id = check'.stageId := of_decide_eq_true
        (List.find?_some (p := fun s : StageRow => decide (s.id = check'.stageId)) hfind)
      have hmem := hrows row (List.mem_of_find?_eq_some hfind)
      have hfirst := hpair.project check' hmem'
      have hfirst' := hpair.wallet check' hmem'
      refine hleak ⟨hslug, row, hmem.1, hrowid.trans hid, ?_, fun hreturned => ?_⟩
      · rw [hmem.2, ← hfirst, hproject]
      · rw [← hwallet, ← hproject, hfirst, hfirst'] at hreturned
        have hnot : isReturned parsed row = false := by simpa using hparked
        rw [hnot] at hreturned
        cases hreturned

/-- A check that is not reached is left alone by the call that should have been about it. -/
theorem judgePair_spares {config : Config} {jwt slug : String} {wallets : List TrackedWallet}
    {first check : DueCheck} {checks : List DueCheck} {pairs : List (List DueCheck)}
    (hhead : checks.head? = some first) (hpair : OfPair w first checks)
    (hslug : (w.slugs first.projectId).isSome) (hleak : ¬w.Reached check)
    (h : Held check.key old (checks :: pairs) s) :
    (judgePair config jwt wallets slug first checks).wp (passes w).smooth
      (Spares check.key old pairs) s := by
  have hasked : s.rest.head?.bind List.head? = some first := by rw [h.2]; exact hhead
  refine Prog.smooth_issue_bind trivial fun parsed hparsed => ?_
  obtain rfl : parsed = _ := hparsed first hasked
  have hheld : Held check.key old pairs { s with rest := s.rest.tail } :=
    ⟨h.1, by rw [h.2]; rfl⟩
  refine Prog.smooth_issue_bind trivial fun rows hrows => ?_
  obtain rfl : rows = _ := hrows
  have hspared : ∀ verdict wallet speaks,
      ¬Told ⟨first, slug, w.rowsOf first.projectId, verdict, wallet, speaks⟩
          (w.answers first.walletId first.projectId) check.key ∧
        ∀ check' ∈ checks.filter (isParked (w.rowsOf first.projectId)
          (w.answers first.walletId first.projectId)), check'.key ≠ check.key := by
    intro verdict wallet speaks
    -- the pair is the check's own, or one of another wallet or project
    by_cases hsame : check.walletId = first.walletId ∧ check.projectId = first.projectId
    · refine not_told_and_not_parked hpair ?_ hleak
      rw [hsame.2]
      exact hslug
    · refine ⟨?_, fun check' hcheck' hkey => hsame ?_⟩
      · rintro ⟨stage, -, row, -, hkey⟩
        simp only [DueCheck.key, Prod.mk.injEq] at hkey
        exact hsame ⟨hkey.1, hkey.2.1⟩
      · have hmem := (List.mem_filter.mp hcheck').1
        simp only [DueCheck.key, Prod.mk.injEq] at hkey
        exact ⟨hkey.1.symm.trans (hpair.wallet check' hmem),
          hkey.2.1.symm.trans (hpair.project check' hmem)⟩
  refine Prog.wp_bind_of (judgeStages_spares (hspared _ _ _).1 hheld) (fun _ s₁ h₁ => ?_)
    fun _ _ he => he.elim
  refine Prog.wp_bind_of (rewriteAll_spares (hspared .unknown none false).2 h₁) (fun _ s₂ h₂ => ?_) fun _ _ he => he.elim
  refine Prog.smooth_issue_bind trivial fun now _ => Prog.wp_issue.mpr ⟨trivial, ?_⟩
  rintro x ⟨⟨a, rfl⟩, -⟩
  exact h₂

theorem checkPair_spares {config : Config} {jwt : String} {wallets : List TrackedWallet}
    {first check : DueCheck} {checks : List DueCheck} {pairs : List (List DueCheck)}
    (hhead : checks.head? = some first) (hpair : OfPair w first checks)
    (hleak : ¬w.Reached check) (h : Held check.key old ((checks :: pairs).filter hasSlug) s) :
    (checkPair config jwt wallets checks).wp (passes w).smooth
      (Spares check.key old (pairs.filter hasSlug)) s := by
  obtain ⟨others, rfl⟩ := List.head?_eq_some_iff.mp hhead
  have hslug := w.slug_eq first (hpair.due first List.mem_cons_self)
  cases hfirst : first.projectSlug with
  | none =>
    -- the whole pair is passed over
    rw [List.filter_cons_of_neg (by simp [hasSlug, hfirst])] at h
    rw [checkPair, hfirst]
    exact h
  | some slug =>
    rw [List.filter_cons_of_pos (by simp [hasSlug, hfirst])] at h
    rw [checkPair, hfirst]
    refine Prog.wp_tryCatch_of (judgePair_spares hhead hpair ?_ hleak h)
      (fun _ _ h' => h') fun _ _ he => he.elim
    rw [← hslug, hfirst]
    rfl

theorem checkPairs_spares {config : Config} {jwt : String} {wallets : List TrackedWallet}
    {check : DueCheck} {pairs : List (List DueCheck)}
    (hpairs : ∀ checks ∈ pairs, ∃ first, checks.head? = some first ∧ OfPair w first checks)
    (hleak : ¬w.Reached check) (h : Held check.key old (pairs.filter hasSlug) s) :
    (checkPairs config jwt wallets pairs).wp (passes w).smooth (Spares check.key old []) s := by
  induction pairs generalizing s with
  | nil => exact h
  | cons checks pairs ih =>
    obtain ⟨first, hhead, hpair⟩ := hpairs checks List.mem_cons_self
    exact Prog.wp_bind_of (checkPair_spares hhead hpair hleak h)
      (fun _ s' h' => ih (fun checks' hc => hpairs checks' (List.mem_cons_of_mem _ hc)) h')
      fun _ _ he => he.elim

theorem runEligibilityPass_spares {config : Config} {limit : Option ℕ} {check : DueCheck}
    (hjwt : w.jwt.isSome) (hcheck : check ∈ w.due) (hleak : ¬w.Reached check) :
    (runEligibilityPass config limit).wp (passes w).smooth
      (Spares check.key (w.checks.get? check.key) []) w.initial := by
  refine Prog.smooth_issue_bind trivial fun apiKeys _ => ?_
  refine Prog.smooth_issue_bind trivial fun nowMs _ => ?_
  refine Prog.smooth_issue_bind trivial fun due hdue => ?_
  obtain rfl : due = w.due := hdue
  refine Prog.wp_ite (fun hnil => ?_) fun _ => ?_
  · rw [hnil] at hcheck
    exact absurd hcheck List.not_mem_nil
  refine Prog.smooth_issue_bind trivial fun jwt hanswer => ?_
  obtain rfl : jwt = w.jwt := hanswer
  obtain ⟨jwt, hw⟩ := Option.isSome_iff_exists.mp hjwt
  rw [hw]
  refine Prog.smooth_issue_bind trivial fun wallets _ => ?_
  exact checkPairs_spares (fun checks hchecks => ofPair_of_mem_byPair hchecks) hleak
    ⟨rfl, rfl⟩

/-- Every command has an answer. -/
theorem exists_smooth_answer (s : Passing) (c : Cmd) :
    ∃ x, (passes w).smooth.allowed s c x := by
  cases c with
  | now => exact ⟨.ok s.clock, ⟨_, rfl⟩, le_refl s.clock⟩
  | resolveOpenSeaKey => exact ⟨.ok [], ⟨_, rfl⟩, trivial⟩
  | dueEligibilityChecks now limit => exact ⟨.ok w.due, ⟨_, rfl⟩, rfl⟩
  | getWalletJwt => exact ⟨.ok w.jwt, ⟨_, rfl⟩, rfl⟩
  | listWallets => exact ⟨.ok [], ⟨_, rfl⟩, trivial⟩
  | getEligibility slug jwt =>
    cases hasked : s.rest.head?.bind List.head? with
    | none =>
      refine ⟨.ok [], ⟨_, rfl⟩, fun first hfirst => ?_⟩
      rw [hasked] at hfirst
      cases hfirst
    | some first =>
      refine ⟨.ok (w.answers first.walletId first.projectId), ⟨_, rfl⟩, fun first' hfirst => ?_⟩
      rw [hasked] at hfirst
      cases hfirst
      rfl
  | stagesOf projectId => exact ⟨.ok (w.rowsOf projectId), ⟨_, rfl⟩, rfl⟩
  | upsertEligibilityCheck input => exact ⟨.ok (), ⟨_, rfl⟩, trivial⟩
  | enqueueAlert input => exact ⟨.ok (), ⟨_, rfl⟩, trivial⟩
  | publishUpdated projectId instant => exact ⟨.ok (), ⟨_, rfl⟩, trivial⟩

/-- **A leak**: where nothing fails, a check that is not reached is still due after the pass. -/
theorem not_settles {config : Config} {limit : Option ℕ} {check : DueCheck}
    (hjwt : w.jwt.isSome) (hcheck : check ∈ w.due) (hleak : ¬w.Reached check) :
    ¬w.Settles config limit := by
  intro hsettles
  obtain ⟨tr, r, hruns, hadmits, hspares⟩ := Prog.exists_run (Prog.may_of_wp
    (exists_smooth_answer (w := w)) (runEligibilityPass_spares hjwt hcheck hleak))
  cases r with
  | error e => exact hspares
  | ok a =>
    rw [Monitor.after_smooth] at hspares
    obtain ⟨row, t, hrow, ht, hstart, hlater⟩ :=
      hsettles tr hruns (Monitor.admits_of_smooth hadmits) check hcheck
    obtain ⟨row', hrow', hkey, t', hdue, ht'⟩ := w.isDue check hcheck
    have hsame : w.checks.get? check.key = some row' := Table.get?_eq_some.mpr ⟨hrow', hkey⟩
    have heq : row' = row := Option.some_inj.mp (hsame.symm.trans (hspares.1.symm.trans hrow))
    have htime : t' = t := Option.some_inj.mp (ht'.symm.trans ((congrArg _ heq).trans ht))
    omega

/-- **A pass settles what it picks** exactly when it gets to every check of it, or has no token. -/
theorem settles_iff_reached (w : World) (config : Config) (limit : Option ℕ) :
    w.Settles config limit ↔ (w.jwt.isSome → ∀ check ∈ w.due, w.Reached check) := by
  constructor
  · intro hsettles hjwt check hcheck
    by_contra hleak
    exact not_settles hjwt hcheck hleak hsettles
  · intro h tr hruns hadmits
    exact (Prog.sound (runEligibilityPass_settles h) hruns hadmits).2 _ rfl

end

/-! ### One stage in two spellings -/

namespace Sample

def spelt (id providerStageId : String) : StageRow :=
  { id, projectId := "project", providerStageId, version := 1, label := "GTD", type := .gtd
    priceWei := none, currency := none, maxPerWallet := none, startsAt := 0, endsAt := none
    paused := false, updatedAt := 0 }

/-- The stage whose check is due has been inserted first, and anew in another spelling. -/
def spellings : StageRows := ⟨[spelt "old" "5F-3A", spelt "new" "5f3a"], by decide⟩

def check : DueCheck := ⟨"wallet", "project", some "drop", "old", 0, .unknown, .live⟩

def twice : World where
  checks := ⟨[⟨"wallet", "project", "old", .unknown, none, none, 0, some 0, none⟩], by decide⟩
  stages := spellings
  slugs := fun _ => some "drop"
  start := 0
  due := [check]
  jwt := some "token"
  answers := fun _ _ => [⟨"5f3a", true, none, none⟩]
  isDue := by simp [check, EligibilityCheck.key, DueCheck.key, ← Table.mem_rows]
  slug_eq := by simp [check]
  uuid := by simp [check]

theorem not_reached_twice : ¬twice.Reached check := by
  rintro ⟨-, row, hrow, hid, -, hlast⟩
  rcases List.mem_cons.mp hrow with rfl | hrow
  · have hreturned :
        isReturned (twice.answers check.walletId check.projectId) (spelt "old" "5F-3A") := by
      decide +kernel
    have hnew : (twice.rowsOf check.projectId).reverse.find? (fun s =>
        normalizeStageId s.providerStageId = normalizeStageId "5F-3A") =
          some (spelt "new" "5f3a") := by decide +kernel
    exact absurd ((hnew.symm.trans (hlast hreturned))) (by decide)
  · obtain rfl := List.mem_singleton.mp hrow
    exact absurd hid (by decide)

end Sample

/-- **The check of the earlier row stays due**, pass after pass. -/
theorem twice_leaks : ¬Sample.twice.Settles ⟨120, none⟩ none :=
  not_settles rfl (List.mem_singleton_self _) Sample.not_reached_twice

end EligibilityEngine
