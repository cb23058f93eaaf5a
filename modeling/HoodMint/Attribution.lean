/-
What one wallet's answer stores for another.

The token of the pass speaks for one wallet, and the eligibility endpoint is asked with it for every
wallet that is tracked.  Two runs over the checks of one other wallet are compared, in which nothing
differs but the answer of the endpoint.

* `Setting`, `Setting.respond` — everything but the answer, and the run it gives;
* `checkPair_leaves` — what a run writes, and that it alerts nothing;
* `get?_stored` — what is stored then: `Setting.fresh`, over what was there;
* `Attributed` — the two runs store and alert the same, whatever was stored before;
* `SameForOthers` — what the two answers must have in common for that (`attributed_iff`): the stages
  they return, with their caps and prices, and whether they call one eligible.
-/
import HoodMint.EligibilityTables

namespace EligibilityEngine

open Effect Eligibility Projects Relational

/-! ### Everything but the answer -/

abbrev Answer := Except Thrown (List EligibilityStage)

/-- The due checks of one wallet and project, and what the pass finds besides the answer. -/
structure Setting where
  config : Config
  jwt : String
  wallets : List TrackedWallet
  stages : StageRows
  now : ℤ
  slug : String
  first : DueCheck
  others : List DueCheck
  asked : first.projectSlug = some slug
  same : ∀ check ∈ others, check.walletId = first.walletId ∧ check.projectId = first.projectId
  distinct : ((first :: others).map (·.stageId)).Nodup

/-- The last value given of a column. -/
def lastGiven {α β : Type} (f : α → Option β) (l : List α) : Option β :=
  l.foldl (fun acc a => (f a).or acc) none

namespace Setting

variable (s : Setting)

def checks : List DueCheck := s.first :: s.others

/-- The stages of the project. -/
def rows : List StageRow := s.stages.rows.filter fun row => row.projectId = s.first.projectId

def wallet : Option TrackedWallet := s.wallets.reverse.find? fun w => w.id = s.first.walletId

/-- The token does not speak for the wallet. -/
def Other : Prop := speaksForThisWallet s.config s.wallet = false

instance : Decidable s.Other :=
  (inferInstance : Decidable (speaksForThisWallet s.config s.wallet = false))

/-- The environment, given the answer: the clock stands, and statements are executed. -/
def respond (answer : Answer) : (c : Cmd) → Except Thrown c.Resp
  | .now => .ok s.now
  | .resolveOpenSeaKey => .ok []
  | .dueEligibilityChecks .. => .ok []
  | .getWalletJwt => .ok none
  | .listWallets => .ok s.wallets
  | .getEligibility .. => answer
  | .stagesOf projectId => .ok (s.stages.rows.filter fun row => row.projectId = projectId)
  | .upsertEligibilityCheck _ => .ok ()
  | .enqueueAlert _ => .ok ()
  | .publishUpdated .. => .ok ()

/-- The run. -/
def run (answer : Answer) : List (Event signature Thrown) × Except Thrown Unit :=
  (checkPair s.config s.jwt s.wallets s.checks).against (s.respond answer)

end Setting

def Cmd.write : Cmd → Option EligibilityUpsert
  | .upsertEligibilityCheck input => some input
  | _ => none

def Cmd.alert : Cmd → Option AlertInput
  | .enqueueAlert input => some input
  | _ => none

def writesOf (tr : List (Event signature Thrown)) : List EligibilityUpsert :=
  tr.filterMap fun e => e.cmd.write

def alertsOf (tr : List (Event signature Thrown)) : List AlertInput :=
  tr.filterMap fun e => e.cmd.alert

/-- The checks after a run. -/
def Setting.stored (s : Setting) (answer : Answer) (checks : CheckTable) : CheckTable :=
  (writesOf (s.run answer).1).foldl upsertEligibilityCheck checks

/-- **Attribution.**  Whatever was stored before, both answers leave the same checks and alerts. -/
structure Attributed (s : Setting) (x y : Answer) : Prop where
  stored : ∀ checks k, (s.stored x checks).get? k = (s.stored y checks).get? k
  alerts : alertsOf (s.run x).1 = alertsOf (s.run y).1

/-! ### What two answers have in common -/

namespace Setting

variable (s : Setting) (parsed : List EligibilityStage)

/-- The returned stages that are the row with the id. -/
def named (stageId : String) : List EligibilityStage :=
  parsed.filter fun stage => (stageRow? s.rows stage).any fun row => row.id = stageId

/-- A restricted stage is called eligible. -/
def callsEligible : Bool :=
  parsed.any fun stage => (stageRow? s.rows stage).any fun row =>
    row.type ≠ .publicSale && stage.isEligible

/-- When a stage is asked about again. -/
def delayMs : ℤ :=
  retryDelayMs s.first (classifyEligibility (parsed.map (checkResult s.rows)) true) s.now

/-- Two answers return the same stages, with the same cap and price; they both call a restricted
one eligible, or neither, unless the check is a hit already or its stage has not started. -/
def SameStages (a b : List EligibilityStage) : Prop :=
  (∀ check ∈ s.checks, isParked s.rows a check = isParked s.rows b check) ∧
  ∀ row ∈ s.rows, (s.named a row.id = [] ↔ s.named b row.id = []) ∧
    (s.named a row.id ≠ [] →
      lastGiven (·.maxTotalMintableByWallet) (s.named a row.id) =
        lastGiven (·.maxTotalMintableByWallet) (s.named b row.id) ∧
      lastGiven (·.price) (s.named a row.id) = lastGiven (·.price) (s.named b row.id) ∧
      (s.callsEligible a = s.callsEligible b ∨ s.first.currentlyEligible = true ∨
        s.now < s.first.stageStartsAt))

instance (a b : List EligibilityStage) : Decidable (s.SameStages a b) :=
  (inferInstance : Decidable
    ((∀ check ∈ s.checks, isParked s.rows a check = isParked s.rows b check) ∧
    ∀ row ∈ s.rows, (s.named a row.id = [] ↔ s.named b row.id = []) ∧
      (s.named a row.id ≠ [] →
        lastGiven (·.maxTotalMintableByWallet) (s.named a row.id) =
          lastGiven (·.maxTotalMintableByWallet) (s.named b row.id) ∧
        lastGiven (·.price) (s.named a row.id) = lastGiven (·.price) (s.named b row.id) ∧
        (s.callsEligible a = s.callsEligible b ∨ s.first.currentlyEligible = true ∨
          s.now < s.first.stageStartsAt))))

/-- An answer does what a transient failure does: it returns the stages of the due checks and no
other, without cap and price, and their verdicts and next instants are those that are kept. -/
def Unchanging (a : List EligibilityStage) (e : Thrown) : Prop :=
  ∃ ms, e.treatment = .transient ms ∧ s.delayMs a = ms ∧
    (∀ check ∈ s.checks, ∃ row ∈ s.rows, row.id = check.stageId ∧ s.named a row.id ≠ [] ∧
      lastGiven (·.maxTotalMintableByWallet) (s.named a row.id) = none ∧
      lastGiven (·.price) (s.named a row.id) = none ∧
      (Treatment.transient ms).rewrite.status check = stageVerdict row.type false false) ∧
    ∀ row ∈ s.rows, s.named a row.id ≠ [] → ∃ check ∈ s.checks, check.stageId = row.id

/-- What two answers must have in common. -/
def SameForOthers : Answer → Answer → Prop
  | .ok a, .ok b => s.SameStages a b
  | .error e, .error f => e.treatment = f.treatment
  | .ok a, .error e | .error e, .ok a => s.Unchanging a e

end Setting

/-! ### What a run leaves -/

section

variable {o : (c : Cmd) → Except Thrown c.Resp} {α β : Type} {p : Engine α}
  {ws ws' : List EligibilityUpsert}

/-- The run writes these, and alerts nothing. -/
structure Leaves (o : (c : Cmd) → Except Thrown c.Resp) (p : Engine α)
    (ws : List EligibilityUpsert) (r : Except Thrown α) : Prop where
  writes : writesOf (p.against o).1 = ws
  alerts : alertsOf (p.against o).1 = []
  result : (p.against o).2 = r

namespace Leaves

theorem pure (a : α) : Leaves o (pure a : Engine α) [] (.ok a) := ⟨rfl, rfl, rfl⟩

theorem throw (e : Thrown) : Leaves o (throw e : Engine α) [] (.error e) := ⟨rfl, rfl, rfl⟩

theorem andThen {r : Except Thrown α} {r' : Except Thrown β}
    {k : Except Thrown α → Engine β} (hp : Leaves o p ws r) (hk : Leaves o (k r) ws' r') :
    Leaves o (p.andThen k) (ws ++ ws') r' := by
  have hrun := Prog.against_andThen o p k
  rw [hp.result] at hrun
  refine ⟨?_, ?_, ?_⟩
  · rw [hrun, writesOf, List.filterMap_append]
    exact congrArg₂ (· ++ ·) hp.writes hk.writes
  · rw [hrun, alertsOf, List.filterMap_append]
    exact congrArg₂ (· ++ ·) hp.alerts hk.alerts
  · rw [hrun]
    exact hk.result

theorem bind {a : α} {r : Except Thrown β} {f : α → Engine β} (hp : Leaves o p ws (.ok a))
    (hf : Leaves o (f a) ws' r) : Leaves o (p >>= f) (ws ++ ws') r :=
  hp.andThen hf

theorem bind_error {e : Thrown} {f : α → Engine β} (hp : Leaves o p ws (.error e)) :
    Leaves o (p >>= f) ws (.error e) := by
  have h : Leaves o (p >>= f) (ws ++ []) (.error e) := hp.andThen (throw e)
  rwa [List.append_nil] at h

theorem tryCatch_ok {a : α} {f : Thrown → Engine α} (hp : Leaves o p ws (.ok a)) :
    Leaves o (tryCatch p f) ws (.ok a) := by
  have h : Leaves o (tryCatch p f) (ws ++ []) (.ok a) := hp.andThen (pure a)
  rwa [List.append_nil] at h

theorem tryCatch_error {e : Thrown} {r : Except Thrown α} {f : Thrown → Engine α}
    (hp : Leaves o p ws (.error e)) (hf : Leaves o (f e) ws' r) :
    Leaves o (tryCatch p f) (ws ++ ws') r :=
  hp.andThen hf

/-- A command that is answered, and neither writes nor alerts. -/
theorem ask {c : Cmd} {r : Except Thrown c.Resp} (hr : o c = r) (hwrite : c.write = none)
    (halert : c.alert = none) : Leaves o (ask c) [] r := by
  have hrun : (EligibilityEngine.ask c).against o = ([⟨c, o c⟩], o c) := by
    show (_ :: _, _) = _
    cases o c <;> rfl
  refine ⟨?_, ?_, ?_⟩
  · rw [hrun]
    exact List.filterMap_cons_none hwrite
  · rw [hrun]
    exact List.filterMap_cons_none halert
  · rw [hrun]
    exact hr

theorem upsert {input : EligibilityUpsert} (hr : o (.upsertEligibilityCheck input) = .ok ()) :
    Leaves o (EligibilityEngine.ask (.upsertEligibilityCheck input)) [input] (.ok ()) := by
  have hrun : (EligibilityEngine.ask (.upsertEligibilityCheck input)).against o =
      ([⟨.upsertEligibilityCheck input, .ok ()⟩], .ok ()) := by
    show ([(⟨_, o _⟩ : Event signature Thrown)] ++ _, _) = _
    rw [hr]
    rfl
  exact ⟨by rw [hrun]; rfl, by rw [hrun]; rfl, by rw [hrun]⟩

end Leaves

end

/-! ### What is written -/

section

variable {o : (c : Cmd) → Except Thrown c.Resp} {now : ℤ}

/-- What is written for a returned stage. -/
def Judgement.upsert (j : Judgement) (now : ℤ) (stage : EligibilityStage) (row : StageRow) :
    EligibilityUpsert where
  walletId := j.first.walletId
  projectId := j.first.projectId
  stageId := row.id
  status := stageVerdict row.type j.speaks stage.isEligible
  maxMintable := stage.maxTotalMintableByWallet
  priceWei := stage.price
  errorCode := none
  checkedAt := now
  nextDueAt := now + retryDelayMs j.first j.verdict now

/-- What is written again for a check. -/
def Rewrite.upsert (w : Rewrite) (now : ℤ) (check : DueCheck) : EligibilityUpsert where
  walletId := check.walletId
  projectId := check.projectId
  stageId := check.stageId
  status := w.status check
  maxMintable := none
  priceWei := none
  errorCode := w.errorCode
  checkedAt := now
  nextDueAt := now + w.delayMs

/-- The environment's clock stands, and it executes statements. -/
structure Steady (o : (c : Cmd) → Except Thrown c.Resp) (now : ℤ) : Prop where
  clock : o .now = .ok now
  upserts : ∀ input, o (.upsertEligibilityCheck input) = .ok ()
  publishes : ∀ projectId instant, o (.publishUpdated projectId instant) = .ok ()

theorem Steady.leaves_now (ho : Steady o now) : Leaves o (ask .now) [] (.ok now) :=
  Leaves.ask ho.clock rfl rfl

theorem rewriteAll_leaves (ho : Steady o now) (w : Rewrite) (checks : List DueCheck) :
    Leaves o (rewriteAll w checks) (checks.map (w.upsert now)) (.ok ()) := by
  induction checks with
  | nil => exact Leaves.pure ()
  | cons check checks ih =>
    have hwrite : Leaves o (ask (.upsertEligibilityCheck (w.upsert now check)))
        [w.upsert now check] (.ok ()) := Leaves.upsert (ho.upserts _)
    exact ho.leaves_now.bind (ho.leaves_now.bind (hwrite.bind ih))

/-- A returned stage is written when its row is known; for another wallet it is no hit. -/
theorem judgeStage_leaves (ho : Steady o now) {j : Judgement} (hspeaks : j.speaks = false)
    (stage : EligibilityStage) :
    Leaves o (judgeStage j stage) ((stageRow? j.rows stage).map (j.upsert now stage)).toList
      (.ok ()) := by
  rw [judgeStage]
  cases stageRow? j.rows stage with
  | none => exact Leaves.pure ()
  | some row =>
    have hwrite : Leaves o (ask (.upsertEligibilityCheck (j.upsert now stage row)))
        [j.upsert now stage row] (.ok ()) := Leaves.upsert (ho.upserts _)
    have hmiss : isHit j stage row = false := by rw [isHit, hspeaks, Bool.and_false]
    have hrest : Leaves o (if isHit j stage row then alertHit j stage row else pure ()) []
        (.ok ()) := by
      rw [hmiss]
      exact Leaves.pure ()
    exact ho.leaves_now.bind (ho.leaves_now.bind (ho.leaves_now.bind (hwrite.bind hrest)))

theorem judgeStages_leaves (ho : Steady o now) {j : Judgement} (hspeaks : j.speaks = false)
    (stages : List EligibilityStage) :
    Leaves o (judgeStages j stages)
      (stages.flatMap fun stage => ((stageRow? j.rows stage).map (j.upsert now stage)).toList)
      (.ok ()) := by
  induction stages with
  | nil => exact Leaves.pure ()
  | cons stage stages ih => exact (judgeStage_leaves ho hspeaks stage).bind ih

end

namespace Setting

variable (s : Setting)

/-- What is known once the endpoint has answered. -/
def judgement (parsed : List EligibilityStage) : Judgement where
  first := s.first
  slug := s.slug
  rows := s.rows
  verdict := classifyEligibility (parsed.map (checkResult s.rows)) true
  wallet := s.wallet
  speaks := speaksForThisWallet s.config s.wallet

/-- What a run writes. -/
def writes : Answer → List EligibilityUpsert
  | .ok parsed =>
    (parsed.flatMap fun stage =>
      ((stageRow? s.rows stage).map ((s.judgement parsed).upsert s.now stage)).toList) ++
    (s.checks.filter (isParked s.rows parsed)).map (parked.upsert s.now)
  | .error e => s.checks.map (e.treatment.rewrite.upsert s.now)

theorem respond_steady (answer : Answer) : Steady (s.respond answer) s.now :=
  ⟨rfl, fun _ => rfl, fun _ _ => rfl⟩

variable {s}

/-- **What a run writes** for another wallet; it alerts nothing. -/
theorem checkPair_leaves (hother : s.Other) (answer : Answer) :
    ∃ r, Leaves (s.respond answer) (checkPair s.config s.jwt s.wallets s.checks)
      (s.writes answer) r := by
  have ho := s.respond_steady answer
  have hpair : checkPair s.config s.jwt s.wallets s.checks = tryCatch
      (judgePair s.config s.jwt s.wallets s.slug s.first s.checks) (recover s.checks) := by
    rw [checks, checkPair, s.asked]
  have hcall : Leaves (s.respond answer) (ask (.getEligibility s.slug s.jwt)) [] answer :=
    Leaves.ask rfl rfl rfl
  rw [hpair]
  cases answer with
  | ok parsed =>
    have hrows : Leaves (s.respond (.ok parsed)) (ask (.stagesOf s.first.projectId)) []
        (.ok s.rows) := Leaves.ask rfl rfl rfl
    have hjudged := judgeStages_leaves ho (j := s.judgement parsed) hother parsed
    have hparked := rewriteAll_leaves ho parked (s.checks.filter (isParked s.rows parsed))
    have hpublish : Leaves (s.respond (.ok parsed))
        (ask (.publishUpdated s.first.projectId s.now)) [] (.ok ()) := Leaves.ask rfl rfl rfl
    have hall : Leaves (s.respond (.ok parsed))
        (judgePair s.config s.jwt s.wallets s.slug s.first s.checks)
        ([] ++ ([] ++ (_ ++ (_ ++ ([] ++ []))))) (.ok ()) :=
      hcall.bind (hrows.bind (hjudged.bind (hparked.bind (ho.leaves_now.bind hpublish))))
    simp only [List.nil_append, List.append_nil] at hall
    exact ⟨_, hall.tryCatch_ok⟩
  | error e =>
    have hrewrite := rewriteAll_leaves ho e.treatment.rewrite s.checks
    have hrecover : ∃ r, Leaves (s.respond (.error e)) (recover s.checks e)
        (s.writes (.error e)) r := by
      by_cases hstops : e.treatment.stops = true
      · have hthrow : Leaves (s.respond (.error e))
            (if e.treatment.stops then throw e else pure ()) [] (.error e) := by
          rw [if_pos hstops]
          exact Leaves.throw e
        have hall : Leaves _ (recover s.checks e) (_ ++ []) _ := hrewrite.bind hthrow
        rw [List.append_nil] at hall
        exact ⟨_, hall⟩
      · have hreturn : Leaves (s.respond (.error e))
            (if e.treatment.stops then throw e else pure ()) [] (.ok ()) := by
          rw [if_neg hstops]
          exact Leaves.pure ()
        have hall : Leaves _ (recover s.checks e) (_ ++ []) _ := hrewrite.bind hreturn
        rw [List.append_nil] at hall
        exact ⟨_, hall⟩
    obtain ⟨r, hr⟩ := hrecover
    exact ⟨r, hcall.bind_error.tryCatch_error hr⟩

theorem writesOf_run (hother : s.Other) (answer : Answer) :
    writesOf (s.run answer).1 = s.writes answer ∧ alertsOf (s.run answer).1 = [] := by
  obtain ⟨r, hr⟩ := checkPair_leaves hother answer
  exact ⟨hr.writes, hr.alerts⟩

end Setting

/-! ### What is stored -/

/-- What several verdicts make of a row. -/
def settle (ws : List EligibilityUpsert) (old : Option EligibilityCheck) :
    Option EligibilityCheck :=
  ws.foldl (fun old w => some (w.row old)) old

/-- What is given is taken, what is not is kept. -/
def merge (new old : Option EligibilityCheck) : Option EligibilityCheck :=
  match new with
  | none => old
  | some c => some { c with
      maxMintable := c.maxMintable.or (old.bind (·.maxMintable))
      priceWei := c.priceWei.or (old.bind (·.priceWei))
      errorCode := c.errorCode.or (old.bind (·.errorCode)) }

section

variable {α : Type} {ws : List EligibilityUpsert} {old : Option EligibilityCheck}

theorem settle_concat (ws : List EligibilityUpsert) (w : EligibilityUpsert)
    (old : Option EligibilityCheck) : settle (ws ++ [w]) old = some (w.row (settle ws old)) :=
  List.foldl_concat _ _ _ _

/-- What verdicts make of a row is told by what they make of none. -/
theorem settle_eq_merge (ws : List EligibilityUpsert) (old : Option EligibilityCheck) :
    settle ws old = merge (settle ws none) old := by
  induction ws using List.reverseRecOn with
  | nil => rfl
  | append_singleton ws w ih =>
    rw [settle_concat, settle_concat, ih]
    cases settle ws none with
    | none => simp [merge, EligibilityUpsert.row]
    | some c => simp [merge, EligibilityUpsert.row, Option.or_assoc]

/-- Verdicts that differ in their caps and prices only. -/
theorem settle_map (w : EligibilityUpsert) (f : α → Option ℕ) (g : α → Option String)
    {l : List α} (hne : l ≠ []) :
    settle (l.map fun a => { w with maxMintable := f a, priceWei := g a }) none =
      some { w.row none with maxMintable := lastGiven f l, priceWei := lastGiven g l } := by
  induction l using List.reverseRecOn with
  | nil => exact absurd rfl hne
  | append_singleton l a ih =>
    rw [List.map_append, List.map_singleton, settle_concat, lastGiven, lastGiven,
      List.foldl_concat, List.foldl_concat]
    rcases List.eq_nil_or_concat l with rfl | hl
    · simp [settle, EligibilityUpsert.row]
    · have hne' : l ≠ [] := by
        obtain ⟨l', b, rfl⟩ := hl
        simp
      rw [ih hne']
      simp [EligibilityUpsert.row, lastGiven]

end

namespace Setting

variable (s : Setting)

/-- What a run makes of no row. -/
def fresh (answer : Answer) (k : String × String × String) : Option EligibilityCheck :=
  settle ((s.writes answer).filter fun w => w.key = k) none

variable {s}

theorem get?_stored (hother : s.Other) (answer : Answer) (checks : CheckTable)
    (k : String × String × String) :
    (s.stored answer checks).get? k = merge (s.fresh answer k) (checks.get? k) := by
  rw [stored, get?_upsertAll, (writesOf_run hother answer).1]
  exact settle_eq_merge _ _

/-- The two runs are compared on an empty table. -/
theorem attributed_iff_fresh (hother : s.Other) {x y : Answer} :
    Attributed s x y ↔ ∀ k, s.fresh x k = s.fresh y k := by
  constructor
  · intro h k
    have hstored := h.stored .empty k
    have hempty : Table.get? (Table.empty : CheckTable) k = none := rfl
    rw [get?_stored hother, get?_stored hother, hempty] at hstored
    have hmerge : ∀ new, merge new none = new := by
      intro new
      cases new <;> simp [merge]
    rwa [hmerge, hmerge] at hstored
  · intro h
    refine ⟨fun checks k => ?_, ?_⟩
    · rw [get?_stored hother, get?_stored hother, h k]
    · rw [(writesOf_run hother x).2, (writesOf_run hother y).2]

end Setting

/-! ### Row by row -/

namespace Setting

variable {s : Setting} {parsed : List EligibilityStage} {row : StageRow} {stageId : String}

def key (s : Setting) (stageId : String) : String × String × String :=
  (s.first.walletId, s.first.projectId, stageId)

theorem eq_of_id {row' : StageRow} (h : row ∈ s.rows) (h' : row' ∈ s.rows)
    (hid : row.id = row'.id) : row = row' :=
  Table.eq_of_key (List.mem_filter.mp h).1 (List.mem_filter.mp h').1 hid

theorem stageRow?_mem {stage : EligibilityStage} (h : stageRow? s.rows stage = some row) :
    row ∈ s.rows ∧
      normalizeStageId row.providerStageId = normalizeStageId stage.stageUuid := by
  rw [stageRow?] at h
  have hspelt := List.find?_some h
  exact ⟨List.mem_reverse.mp (List.mem_of_find?_eq_some h), of_decide_eq_true hspelt⟩

theorem mem_named {stage : EligibilityStage} : stage ∈ s.named parsed stageId ↔
    stage ∈ parsed ∧ ∃ row, stageRow? s.rows stage = some row ∧ row.id = stageId := by
  rw [named, List.mem_filter]
  refine and_congr_right fun _ => ?_
  cases stageRow? s.rows stage with
  | none => simp
  | some row => simp

/-- A stage that is named has a row. -/
theorem exists_row_of_named (h : s.named parsed stageId ≠ []) :
    ∃ row ∈ s.rows, row.id = stageId := by
  obtain ⟨stage, hstage⟩ := List.exists_mem_of_ne_nil _ h
  obtain ⟨_, row, hrow, hid⟩ := mem_named.mp hstage
  exact ⟨row, (stageRow?_mem hrow).1, hid⟩

theorem check_key {check : DueCheck} (h : check ∈ s.checks) (w : Rewrite) :
    (w.upsert s.now check).key = s.key check.stageId := by
  rcases List.mem_cons.mp h with rfl | h
  · rfl
  · obtain ⟨hwallet, hproject⟩ := s.same check h
    show (check.walletId, check.projectId, check.stageId) = _
    rw [hwallet, hproject]
    rfl

theorem eq_of_stageId {check check' : DueCheck} (h : check ∈ s.checks) (h' : check' ∈ s.checks)
    (hid : check.stageId = check'.stageId) : check = check' :=
  List.inj_on_of_nodup_map s.distinct h h' hid

/-- The verdicts of a row are those of the stages that name it. -/
theorem filter_verdicts (j : Judgement)
    (hwallet : j.first.walletId = s.first.walletId)
    (hproject : j.first.projectId = s.first.projectId) (hrow : row ∈ s.rows) :
    (parsed.flatMap fun stage =>
        ((stageRow? s.rows stage).map (j.upsert s.now stage)).toList).filter
          (fun w => w.key = s.key row.id) =
      (s.named parsed row.id).map fun stage => j.upsert s.now stage row := by
  have hkey : ∀ stage row', (j.upsert s.now stage row').key = s.key row.id ↔ row'.id = row.id := by
    intro stage row'
    simp [EligibilityUpsert.key, key, Judgement.upsert, hwallet, hproject]
  induction parsed with
  | nil => rfl
  | cons stage parsed ih =>
    rw [List.flatMap_cons, List.filter_append, ih, named, named]
    cases hstage : stageRow? s.rows stage with
    | none =>
      rw [List.filter_cons_of_neg (by simp [hstage])]
      rfl
    | some row' =>
      by_cases hid : row'.id = row.id
      · have hsame : row' = row := eq_of_id (stageRow?_mem hstage).1 hrow hid
        rw [List.filter_cons_of_pos (by simp [hstage, hid]), hsame]
        simp [hkey]
      · rw [List.filter_cons_of_neg (by simp [hstage, hid])]
        simp [hkey, hid]

/-- Without a stage that names it there are none. -/
theorem filter_verdicts_nil (j : Judgement) (hnil : s.named parsed stageId = []) :
    (parsed.flatMap fun stage =>
        ((stageRow? s.rows stage).map (j.upsert s.now stage)).toList).filter
          (fun w => w.key = s.key stageId) = [] := by
  refine List.filter_eq_nil_iff.mpr fun w hw hkey => ?_
  obtain ⟨stage, hstage, hw⟩ := List.mem_flatMap.mp hw
  obtain ⟨row, hrow, rfl⟩ := Option.map_eq_some_iff.mp (Option.mem_toList.mp hw)
  have hid : row.id = stageId := (Prod.mk.inj (Prod.mk.inj (of_decide_eq_true hkey)).2).2
  have hmem : stage ∈ s.named parsed stageId := mem_named.mpr ⟨hstage, row, hrow, hid⟩
  rw [hnil] at hmem
  exact List.not_mem_nil hmem

/-- Of the checks that are written again at most one is for the stage. -/
theorem settle_rewrites (w : Rewrite) {checks : List DueCheck} (hsub : checks.Sublist s.checks) :
    settle ((checks.map (w.upsert s.now)).filter fun v => v.key = s.key stageId) none =
      (checks.find? fun check => check.stageId = stageId).map fun check =>
        (w.upsert s.now check).row none := by
  have hdistinct : (checks.map (·.stageId)).Nodup := (hsub.map _).nodup s.distinct
  induction checks with
  | nil => rfl
  | cons check checks ih =>
    obtain ⟨hnew, hdistinct⟩ := List.nodup_cons.mp hdistinct
    have hkey := check_key (hsub.subset List.mem_cons_self) w
    have hrest : ∀ check' ∈ checks, (w.upsert s.now check').key = s.key check'.stageId :=
      fun check' h => check_key (hsub.subset (List.mem_cons_of_mem check h)) w
    rw [List.map_cons]
    by_cases hid : check.stageId = stageId
    · rw [List.filter_cons_of_pos (by simp [hkey, hid]),
        List.find?_cons_of_pos (by simpa using hid), List.filter_eq_nil_iff.mpr ?_]
      · rfl
      · intro v hv hsame
        obtain ⟨check', hcheck', rfl⟩ := List.mem_map.mp hv
        have hsame := (hrest check' hcheck').symm.trans (of_decide_eq_true hsame)
        have hid' : check'.stageId = stageId := (Prod.mk.inj (Prod.mk.inj hsame).2).2
        exact hnew (List.mem_map.mpr ⟨check', hcheck', hid'.trans hid.symm⟩)
    · rw [List.filter_cons_of_neg (by simp [hkey, key, hid]),
        List.find?_cons_of_neg (by simpa using hid)]
      exact ih (List.sublist_of_cons_sublist hsub) hdistinct

/-- What a verdict on the row makes of no row. -/
def verdictRow (s : Setting) (parsed : List EligibilityStage) (row : StageRow) :
    EligibilityCheck where
  walletId := s.first.walletId
  projectId := s.first.projectId
  stageId := row.id
  status := stageVerdict row.type false false
  maxMintable := lastGiven (·.maxTotalMintableByWallet) (s.named parsed row.id)
  priceWei := lastGiven (·.price) (s.named parsed row.id)
  checkedAt := s.now
  nextDueAt := some (s.now + s.delayMs parsed)
  errorCode := none

theorem stageVerdict_other (kind : StageKind) (eligible : Bool) :
    stageVerdict kind false eligible = stageVerdict kind false false := by
  simp [stageVerdict]

/-- A stage that is named is not parked. -/
theorem isParked_of_named (hrow : row ∈ s.rows) (hnamed : s.named parsed row.id ≠ [])
    {check : DueCheck} (hid : check.stageId = row.id) : isParked s.rows parsed check = false := by
  obtain ⟨stage, hstage⟩ := List.exists_mem_of_ne_nil _ hnamed
  obtain ⟨hparsed, row', hrow', hid'⟩ := mem_named.mp hstage
  obtain ⟨hmem, hspelt⟩ := stageRow?_mem hrow'
  obtain rfl := eq_of_id hmem hrow hid'
  have hreturned : isReturned parsed row' = true :=
    List.any_eq_true.mpr ⟨stage, hparsed, decide_eq_true hspelt.symm⟩
  have hfind : s.rows.find? (fun r => r.id = check.stageId) = some row' := by
    cases hfound : s.rows.find? fun r => r.id = check.stageId with
    | none =>
      have hnone := List.find?_eq_none.mp hfound row' hrow
      exact absurd (decide_eq_true hid.symm) hnone
    | some r =>
      have hr := List.find?_some hfound
      have hsame : r.id = row'.id := (of_decide_eq_true hr).trans hid
      rw [eq_of_id (List.mem_of_find?_eq_some hfound) hrow hsame]
  rw [isParked, hfind]
  simp [hreturned]

/-- **A stage that is named** has the verdict. -/
theorem fresh_named (hother : s.Other) (hrow : row ∈ s.rows)
    (hnamed : s.named parsed row.id ≠ []) :
    s.fresh (.ok parsed) (s.key row.id) = some (s.verdictRow parsed row) := by
  have hverdicts := @filter_verdicts s parsed row (s.judgement parsed) rfl rfl hrow
  have hparked : ((s.checks.filter (isParked s.rows parsed)).map (parked.upsert s.now)).filter
      (fun w => w.key = s.key row.id) = [] := by
    refine List.filter_eq_nil_iff.mpr fun w hw hkey => ?_
    obtain ⟨check, hcheck, rfl⟩ := List.mem_map.mp hw
    obtain ⟨hcheck, hisParked⟩ := List.mem_filter.mp hcheck
    have hkey := (check_key hcheck parked).symm.trans (of_decide_eq_true hkey)
    have hid : check.stageId = row.id := (Prod.mk.inj (Prod.mk.inj hkey).2).2
    rw [isParked_of_named hrow hnamed hid] at hisParked
    cases hisParked
  rw [fresh, writes, List.filter_append, hparked, List.append_nil]
  refine (congrArg (settle · none) hverdicts).trans ?_
  have hspeaks : (s.judgement parsed).speaks = false := hother
  have hsame : ∀ stage : EligibilityStage, (s.judgement parsed).upsert s.now stage row =
      { (s.judgement parsed).upsert s.now ⟨"", false, none, none⟩ row with
        maxMintable := stage.maxTotalMintableByWallet, priceWei := stage.price } := by
    intro stage
    simp only [Judgement.upsert, hspeaks, stageVerdict_other]
  rw [List.map_congr_left fun stage _ => hsame stage, settle_map _ _ _ hnamed]
  simp only [EligibilityUpsert.row, Judgement.upsert, hspeaks]
  rfl

/-- **A stage that is not** is parked, if it is due and known. -/
theorem fresh_parked (hnil : s.named parsed stageId = []) :
    s.fresh (.ok parsed) (s.key stageId) =
      ((s.checks.filter (isParked s.rows parsed)).find? fun check => check.stageId = stageId).map
        fun check => (parked.upsert s.now check).row none := by
  have hverdicts := filter_verdicts_nil (s.judgement parsed) hnil
  rw [fresh, writes, List.filter_append]
  refine (congrArg (fun l => settle (l ++ _) none) hverdicts).trans ?_
  exact settle_rewrites parked List.filter_sublist

/-- After a failure every due check is written again. -/
theorem fresh_error (e : Thrown) : s.fresh (.error e) (s.key stageId) =
    (s.checks.find? fun check => check.stageId = stageId).map fun check =>
      (e.treatment.rewrite.upsert s.now check).row none :=
  settle_rewrites _ (List.Sublist.refl _)

theorem fresh_error_of_mem {check : DueCheck} (h : check ∈ s.checks) (e : Thrown) :
    s.fresh (.error e) (s.key check.stageId) =
      some ((e.treatment.rewrite.upsert s.now check).row none) := by
  rw [fresh_error]
  cases hfound : s.checks.find? fun c => c.stageId = check.stageId with
  | none => exact absurd (decide_eq_true rfl) (List.find?_eq_none.mp hfound check h)
  | some c =>
    have hid := List.find?_some hfound
    rw [eq_of_stageId (List.mem_of_find?_eq_some hfound) h (of_decide_eq_true hid)]
    rfl

/-- Nothing is written for another wallet or project. -/
theorem fresh_elsewhere {k : String × String × String} (hk : ∀ stageId, k ≠ s.key stageId)
    (x : Answer) : s.fresh x k = none := by
  have hrewrites : ∀ (w : Rewrite) (checks : List DueCheck), checks ⊆ s.checks →
      (checks.map (w.upsert s.now)).filter (fun v => v.key = k) = [] := by
    intro w checks hsub
    refine List.filter_eq_nil_iff.mpr fun v hv hkey => ?_
    obtain ⟨check, hcheck, rfl⟩ := List.mem_map.mp hv
    exact hk _ ((of_decide_eq_true hkey).symm.trans (check_key (hsub hcheck) w))
  rw [fresh]
  cases x with
  | error e => rw [writes, hrewrites _ _ (List.Subset.refl _)]; rfl
  | ok parsed =>
    rw [writes, List.filter_append, hrewrites _ _ (List.filter_subset_self _), List.append_nil,
      List.filter_eq_nil_iff.mpr]
    · rfl
    · intro w hw hkey
      obtain ⟨stage, _, hw⟩ := List.mem_flatMap.mp hw
      obtain ⟨row, _, rfl⟩ := Option.map_eq_some_iff.mp (Option.mem_toList.mp hw)
      exact hk row.id (of_decide_eq_true hkey).symm

/-! ### Delays -/

theorem verdict_eligible_iff : classifyEligibility (parsed.map (checkResult s.rows)) true =
    .eligibleRestricted ↔ s.callsEligible parsed = true := by
  rw [classify_eligible_iff, callsEligible, List.any_eq_true]
  refine exists_congr fun stage => and_congr_right fun _ => ?_
  cases stageRow? s.rows stage with
  | none => simp
  | some row => simp

/-- Two answers give the same delay when they agree on a hit, or a hit makes no difference. -/
theorem delayMs_eq_iff {a b : List EligibilityStage} : s.delayMs a = s.delayMs b ↔
    s.callsEligible a = s.callsEligible b ∨ s.first.currentlyEligible = true ∨
      s.now < s.first.stageStartsAt := by
  rw [delayMs, delayMs, retryDelayMs_eq, retryDelayMs_eq]
  simp only [recheckDelay, decide_eq_true_iff, verdict_eligible_iff, Bool.or_eq_true]
  by_cases hstarted : s.first.stageStartsAt ≤ s.now
  · have hlt : ¬ s.now < s.first.stageStartsAt := by omega
    simp only [hstarted, hlt, if_true, or_false]
    cases s.first.currentlyEligible <;> cases s.callsEligible a <;> cases s.callsEligible b <;>
      decide
  · have hlt : s.now < s.first.stageStartsAt := by omega
    simp only [hstarted, hlt, if_false, or_true]

/-! ### Two answers -/

variable {a b : List EligibilityStage} {e f : Thrown}

theorem stageVerdict_other_cases (kind : StageKind) :
    stageVerdict kind false false = .publicOnly ∨
      stageVerdict kind false false = .authRequired := by
  rw [stageVerdict]
  split
  · exact Or.inl rfl
  · exact Or.inr rfl

/-- A verdict is told from a check that is parked, or was given up. -/
theorem verdictRow_status (row : StageRow) :
    (s.verdictRow a row).status ≠ .unknown ∧ (s.verdictRow a row).status ≠ .error := by
  show stageVerdict row.type false false ≠ _ ∧ stageVerdict row.type false false ≠ _
  rcases stageVerdict_other_cases row.type with h | h
  all_goals
    rw [h]
    exact ⟨by decide, by decide⟩

/-- What is kept after a transient failure is told from them too. -/
theorem transient_status (ms : ℤ) (check : DueCheck) :
    (Treatment.transient ms).rewrite.status check ≠ .unknown ∧
      (Treatment.transient ms).rewrite.status check ≠ .error := by
  show (if isResolved check.currentStatus then check.currentStatus else .authRequired) ≠ _ ∧
    (if isResolved check.currentStatus then check.currentStatus else .authRequired) ≠ _
  cases check.currentStatus <;> decide

theorem fresh_parked_status (hnil : s.named a stageId = []) {c : EligibilityCheck}
    (hc : s.fresh (.ok a) (s.key stageId) = some c) :
    c.status = .unknown ∧ c.errorCode = some "stage_not_returned" := by
  rw [fresh_parked hnil] at hc
  obtain ⟨check, _, rfl⟩ := Option.map_eq_some_iff.mp hc
  exact ⟨rfl, rfl⟩

/-- A stage that one answer names, the other names, when they store the same. -/
theorem named_of_fresh (hother : s.Other) (hrow : row ∈ s.rows)
    (hsame : s.fresh (.ok a) (s.key row.id) = s.fresh (.ok b) (s.key row.id))
    (hnamed : s.named a row.id ≠ []) : s.named b row.id ≠ [] := by
  intro hnil
  rw [fresh_named hother hrow hnamed] at hsame
  exact (verdictRow_status row).1 (fresh_parked_status hnil hsame.symm).1

/-- A check is parked after both answers, or after neither. -/
theorem isParked_of_fresh (hother : s.Other)
    (hsame : ∀ k, s.fresh (.ok a) k = s.fresh (.ok b) k) {check : DueCheck}
    (hcheck : check ∈ s.checks) (hparked : isParked s.rows a check = true) :
    isParked s.rows b check = true := by
  have hnilOf : ∀ {c : List EligibilityStage}, isParked s.rows c check = true →
      s.named c check.stageId = [] := by
    intro c hc
    by_contra hnamed
    obtain ⟨row, hrow, hid⟩ := exists_row_of_named hnamed
    rw [isParked_of_named hrow (hid ▸ hnamed) hid.symm] at hc
    cases hc
  have hnil := hnilOf hparked
  have hnil' : s.named b check.stageId = [] := by
    by_contra hnamed
    obtain ⟨row, hrow, hid⟩ := exists_row_of_named hnamed
    exact named_of_fresh hother hrow (hsame _).symm (hid ▸ hnamed) (hid ▸ hnil)
  have hmem : check ∈ s.checks.filter (isParked s.rows a) := List.mem_filter.mpr ⟨hcheck, hparked⟩
  have heq := hsame (s.key check.stageId)
  rw [fresh_parked hnil, fresh_parked hnil'] at heq
  cases hfound : (s.checks.filter (isParked s.rows b)).find?
      fun c => c.stageId = check.stageId with
  | none =>
    rw [hfound] at heq
    have hnone := List.find?_eq_none.mp (Option.map_eq_none_iff.mp heq) check hmem
    exact absurd (decide_eq_true rfl) hnone
  | some c =>
    have hid := List.find?_some hfound
    obtain ⟨hc, hcparked⟩ := List.mem_filter.mp (List.mem_of_find?_eq_some hfound)
    rwa [eq_of_stageId hc hcheck (of_decide_eq_true hid)] at hcparked

/-- Two answers. -/
theorem fresh_ok_iff (hother : s.Other) :
    (∀ k, s.fresh (.ok a) k = s.fresh (.ok b) k) ↔ s.SameStages a b := by
  constructor
  · intro h
    refine ⟨fun check hcheck => ?_, fun row hrow => ⟨?_, fun hnamed => ?_⟩⟩
    · refine Bool.eq_iff_iff.mpr ⟨isParked_of_fresh hother h hcheck, ?_⟩
      exact isParked_of_fresh hother (fun k => (h k).symm) hcheck
    · have hab := named_of_fresh hother hrow (h (s.key row.id))
      have hba := named_of_fresh hother hrow (h (s.key row.id)).symm
      refine ⟨fun hnil => by_contra fun hb => hba hb hnil, fun hnil => ?_⟩
      exact by_contra fun ha => hab ha hnil
    · have hnamed' := named_of_fresh hother hrow (h (s.key row.id)) hnamed
      have hrows := h (s.key row.id)
      rw [fresh_named hother hrow hnamed, fresh_named hother hrow hnamed', Option.some_inj] at hrows
      have hdue : some (s.now + s.delayMs a) = some (s.now + s.delayMs b) :=
        congrArg EligibilityCheck.nextDueAt hrows
      have hdelay : s.delayMs a = s.delayMs b := by
        have := Option.some_inj.mp hdue
        omega
      exact ⟨congrArg EligibilityCheck.maxMintable hrows, congrArg EligibilityCheck.priceWei hrows,
        delayMs_eq_iff.mp hdelay⟩
  · rintro ⟨hparked, hrows⟩ k
    by_cases hk : ∃ stageId, k = s.key stageId
    · obtain ⟨stageId, rfl⟩ := hk
      by_cases hrow : ∃ row ∈ s.rows, row.id = stageId ∧ s.named a row.id ≠ []
      · obtain ⟨row, hrow, rfl, hnamed⟩ := hrow
        obtain ⟨hnames, hcolumns⟩ := hrows row hrow
        obtain ⟨hcap, hprice, hdelay⟩ := hcolumns hnamed
        have hnamed' : s.named b row.id ≠ [] := fun hnil => hnamed (hnames.mpr hnil)
        rw [fresh_named hother hrow hnamed, fresh_named hother hrow hnamed', verdictRow, verdictRow,
          hcap, hprice, delayMs_eq_iff.mpr hdelay]
      · have hnil : s.named a stageId = [] := by
          by_contra hnamed
          obtain ⟨row, hmem, hid⟩ := exists_row_of_named hnamed
          exact hrow ⟨row, hmem, hid, hid ▸ hnamed⟩
        have hnil' : s.named b stageId = [] := by
          by_contra hnamed
          obtain ⟨row, hmem, hid⟩ := exists_row_of_named hnamed
          have hnames := (hrows row hmem).1.mp (hid ▸ hnil)
          exact hnamed (hid ▸ hnames)
        rw [fresh_parked hnil, fresh_parked hnil', List.filter_congr hparked]
    · have hk' : ∀ stageId, k ≠ s.key stageId := fun stageId heq => hk ⟨stageId, heq⟩
      rw [fresh_elsewhere hk', fresh_elsewhere hk']

/-- Two failures. -/
theorem fresh_error_iff :
    (∀ k, s.fresh (.error e) k = s.fresh (.error f) k) ↔ e.treatment = f.treatment := by
  constructor
  · intro h
    have hfirst : s.first ∈ s.checks := List.mem_cons_self
    have hrow := h (s.key s.first.stageId)
    rw [fresh_error_of_mem hfirst, fresh_error_of_mem hfirst, Option.some_inj] at hrow
    have hstatus : e.treatment.rewrite.status s.first = f.treatment.rewrite.status s.first :=
      congrArg EligibilityCheck.status hrow
    have hcode : e.treatment.rewrite.errorCode.or none = f.treatment.rewrite.errorCode.or none :=
      congrArg EligibilityCheck.errorCode hrow
    have hdue : some (s.now + e.treatment.rewrite.delayMs) =
        some (s.now + f.treatment.rewrite.delayMs) := congrArg EligibilityCheck.nextDueAt hrow
    have hdelay : e.treatment.rewrite.delayMs = f.treatment.rewrite.delayMs := by
      have := Option.some_inj.mp hdue
      omega
    generalize e.treatment = t at hstatus hcode hdelay
    generalize f.treatment = u at hstatus hcode hdelay
    cases t with
    | notFound =>
      cases u with
      | notFound => rfl
      | transient ms => exact absurd hstatus.symm (transient_status ms s.first).1
      | failed code => cases hstatus
    | transient ms =>
      cases u with
      | notFound => exact absurd hstatus (transient_status ms s.first).1
      | transient ms' => exact congrArg Treatment.transient hdelay
      | failed code => exact absurd hstatus (transient_status ms s.first).2
    | failed code =>
      cases u with
      | notFound => cases hstatus
      | transient ms => exact absurd hstatus.symm (transient_status ms s.first).2
      | failed code' => exact congrArg Treatment.failed (Option.some_inj.mp hcode)
  · intro h k
    rw [fresh, fresh, writes, writes, h]

/-- An answer and a failure. -/
theorem fresh_ok_error_iff (hother : s.Other) :
    (∀ k, s.fresh (.ok a) k = s.fresh (.error e) k) ↔ s.Unchanging a e := by
  constructor
  · intro h
    -- what a failure writes for a check, a verdict does, since it is not parked
    have hverdict : ∀ check ∈ s.checks, ∃ row ∈ s.rows, row.id = check.stageId ∧
        s.named a row.id ≠ [] ∧
        s.verdictRow a row = (e.treatment.rewrite.upsert s.now check).row none := by
      intro check hcheck
      have hrow := h (s.key check.stageId)
      rw [fresh_error_of_mem hcheck] at hrow
      have hnamed : s.named a check.stageId ≠ [] := by
        intro hnil
        obtain ⟨hstatus, hcode⟩ := fresh_parked_status hnil hrow
        have hstatus : e.treatment.rewrite.status check = .unknown := hstatus
        have hcode : e.treatment.rewrite.errorCode.or none = some "stage_not_returned" := hcode
        cases htreatment : e.treatment with
        | notFound =>
          rw [htreatment] at hcode
          exact absurd hcode (by decide)
        | transient ms =>
          rw [htreatment] at hstatus
          exact (transient_status ms check).1 hstatus
        | failed code =>
          rw [htreatment] at hstatus
          cases hstatus
      obtain ⟨row, hmem, hid⟩ := exists_row_of_named hnamed
      rw [← hid] at hrow hnamed
      rw [fresh_named hother hmem hnamed, Option.some_inj] at hrow
      exact ⟨row, hmem, hid, hnamed, hrow⟩
    have htransient : ∃ ms, e.treatment = .transient ms := by
      obtain ⟨row, _, _, _, hsame⟩ := hverdict s.first List.mem_cons_self
      have hstatus := verdictRow_status (s := s) (a := a) row
      rw [hsame] at hstatus
      cases htreatment : e.treatment with
      | notFound =>
        rw [htreatment] at hstatus
        exact absurd rfl hstatus.1
      | transient ms => exact ⟨ms, rfl⟩
      | failed code =>
        rw [htreatment] at hstatus
        exact absurd rfl hstatus.2
    obtain ⟨ms, hms⟩ := htransient
    rw [hms] at hverdict
    refine ⟨ms, hms, ?_, fun check hcheck => ?_, fun row hrow hnamed => ?_⟩
    · obtain ⟨row, _, _, _, hsame⟩ := hverdict s.first List.mem_cons_self
      have hdue : some (s.now + s.delayMs a) = some (s.now + ms) :=
        congrArg EligibilityCheck.nextDueAt hsame
      have := Option.some_inj.mp hdue
      omega
    · obtain ⟨row, hrow, hid, hnamed, hsame⟩ := hverdict check hcheck
      exact ⟨row, hrow, hid, hnamed, congrArg EligibilityCheck.maxMintable hsame,
        congrArg EligibilityCheck.priceWei hsame, (congrArg EligibilityCheck.status hsame).symm⟩
    · have hsame := h (s.key row.id)
      rw [fresh_named hother hrow hnamed, fresh_error] at hsame
      obtain ⟨check, hfound, _⟩ := Option.map_eq_some_iff.mp hsame.symm
      have hid := List.find?_some hfound
      exact ⟨check, List.mem_of_find?_eq_some hfound, of_decide_eq_true hid⟩
  · rintro ⟨ms, hms, hdelay, hchecks, hrows⟩ k
    by_cases hk : ∃ stageId, k = s.key stageId
    · obtain ⟨stageId, rfl⟩ := hk
      by_cases hdue : ∃ check ∈ s.checks, check.stageId = stageId
      · obtain ⟨check, hcheck, rfl⟩ := hdue
        obtain ⟨row, hrow, hid, hnamed, hcap, hprice, hstatus⟩ := hchecks check hcheck
        rw [fresh_error_of_mem hcheck, ← hid, fresh_named hother hrow hnamed, verdictRow, hcap,
          hprice, hdelay, hms, ← hstatus]
        have hkey := check_key hcheck ((Treatment.transient ms).rewrite)
        obtain ⟨hwallet, hrest⟩ := Prod.mk.inj hkey
        obtain ⟨hproject, _⟩ := Prod.mk.inj hrest
        have hwallet : check.walletId = s.first.walletId := hwallet
        have hproject : check.projectId = s.first.projectId := hproject
        simp [EligibilityUpsert.row, Rewrite.upsert, Treatment.rewrite, hwallet, hproject, hid]
      · have hnil : s.named a stageId = [] := by
          by_contra hnamed
          obtain ⟨row, hmem, hid⟩ := exists_row_of_named hnamed
          obtain ⟨check, hcheck, heq⟩ := hrows row hmem (hid ▸ hnamed)
          exact hdue ⟨check, hcheck, heq.trans hid⟩
        have hnone : ∀ checks : List DueCheck, checks ⊆ s.checks →
            checks.find? (fun check => check.stageId = stageId) = none := by
          intro checks hsub
          refine List.find?_eq_none.mpr fun check hcheck heq => ?_
          exact hdue ⟨check, hsub hcheck, of_decide_eq_true heq⟩
        rw [fresh_parked hnil, fresh_error, hnone _ (List.filter_subset_self _),
          hnone _ (List.Subset.refl _)]
        rfl
    · have hk' : ∀ stageId, k ≠ s.key stageId := fun stageId heq => hk ⟨stageId, heq⟩
      rw [fresh_elsewhere hk', fresh_elsewhere hk']

end Setting

/-- **Attribution.**  Two answers leave the same for another wallet exactly when they have this in
common. -/
theorem attributed_iff (s : Setting) (hother : s.Other) (x y : Answer) :
    Attributed s x y ↔ s.SameForOthers x y := by
  rw [Setting.attributed_iff_fresh hother]
  cases x with
  | ok a =>
    cases y with
    | ok b => exact Setting.fresh_ok_iff hother
    | error e => exact Setting.fresh_ok_error_iff hother
  | error e =>
    cases y with
    | ok a =>
      rw [← show s.Unchanging a e ↔ s.SameForOthers (.error e) (.ok a) from Iff.rfl,
        ← Setting.fresh_ok_error_iff hother]
      exact forall_congr' fun k => eq_comm
    | error f => exact Setting.fresh_error_iff

namespace Sample

/-- An allowlist stage of the project, and a wallet that the token does not speak for. -/
def other (now : ℤ) : Setting where
  config := ⟨120, some "0xAA"⟩
  jwt := "jwt"
  wallets := [⟨⟨"owner", "0xaa", true⟩, none⟩, ⟨⟨"other", "0xbb", true⟩, none⟩]
  stages := Table.empty.insert
    ⟨⟨"project", "phase", 1, "Phase 1", .allowlist, none, none, none, 10, none, false, 0⟩, "stage"⟩
  now := now
  slug := "slug"
  first := ⟨"other", "project", some "slug", "stage", 10, .unknown, .live⟩
  others := []
  asked := rfl
  same := by simp
  distinct := by simp

/-- The stage, with a cap. -/
def capped (eligible : Bool) (cap : ℕ) : Answer := .ok [⟨"PHASE", eligible, some cap, some "7"⟩]

end Sample

/-- Before the stage has started, the owner's eligibility is not read off the other's check. -/
theorem attributed_iff_upcoming :
    Attributed (Sample.other 0) (Sample.capped true 2) (Sample.capped false 2) := by
  have hother : (Sample.other 0).Other := by decide +kernel
  have hsame : (Sample.other 0).SameStages [⟨"PHASE", true, some 2, some "7"⟩]
      [⟨"PHASE", false, some 2, some "7"⟩] := by decide +kernel
  exact (attributed_iff (Sample.other 0) hother (Sample.capped true 2)
    (Sample.capped false 2)).mpr hsame

/-- The owner's cap becomes what the other wallet may mint. -/
theorem owner_sizes_other :
    (stageWalletCaps ((Sample.other 0).stored (Sample.capped true 2) .empty) "stage" =
        [("other", 2)] ∧
      stageWalletCaps ((Sample.other 0).stored (Sample.capped true 5) .empty) "stage" =
        [("other", 5)]) ∧
    ¬ ∀ s : Setting, s.Other → ∀ x y, Attributed s x y := by
  have hcaps : stageWalletCaps ((Sample.other 0).stored (Sample.capped true 2) .empty) "stage" =
      [("other", 2)] ∧
    stageWalletCaps ((Sample.other 0).stored (Sample.capped true 5) .empty) "stage" =
      [("other", 5)] := by decide +kernel
  refine ⟨hcaps, fun h => ?_⟩
  have hstored := (h (Sample.other 0) (by decide +kernel) (Sample.capped true 2)
    (Sample.capped true 5)).stored .empty ("other", "project", "stage")
  have hcap : (((Sample.other 0).stored (Sample.capped true 2) .empty).get?
      ("other", "project", "stage")).bind (·.maxMintable) = some 5 := by
    rw [hstored]
    decide +kernel
  revert hcap
  decide +kernel

end EligibilityEngine
