/-
The two tables that eligibility is about, `drop_stages` and `eligibility_checks`, and the
statements that change them.

* `upsertEligibilityCheck` — a verdict: what it does not give is kept as it was;
  `get?_upsertAll`, after several;
* `CheckStatement` — the other writers of checks (`ensureEligibilityRows`,
  `markAuthRequiredChecksDue`, `deleteWallet`);
* `StageStatement` — the statements of `upsertProjectFromSource` and of a delisting: a stage is
  inserted, spelt anew, set to what is reported of it, or paused, and never deleted.
-/
import HoodMint.EligibilityPass

namespace EligibilityEngine

open Eligibility Projects Relational

abbrev CheckTable := Table EligibilityCheck (String × String × String) EligibilityCheck.key

abbrev StageRows := Table StageRow String StageRow.id

/-! ### Verdicts -/

namespace EligibilityUpsert

variable (input : EligibilityUpsert)

def key : String × String × String := (input.walletId, input.projectId, input.stageId)

/-- What becomes of a row, if there is one. -/
def row (old : Option EligibilityCheck) : EligibilityCheck where
  walletId := input.walletId
  projectId := input.projectId
  stageId := input.stageId
  status := input.status
  maxMintable := input.maxMintable.or (old.bind (·.maxMintable))
  priceWei := input.priceWei.or (old.bind (·.priceWei))
  checkedAt := input.checkedAt
  nextDueAt := some input.nextDueAt
  errorCode := input.errorCode.or (old.bind (·.errorCode))

@[simp] theorem key_row (old : Option EligibilityCheck) : (input.row old).key = input.key := rfl

@[simp] theorem status_row (old : Option EligibilityCheck) :
    (input.row old).status = input.status := rfl

@[simp] theorem stageId_row (old : Option EligibilityCheck) :
    (input.row old).stageId = input.stageId := rfl

end EligibilityUpsert

/-- `upsertEligibilityCheck`. -/
def upsertEligibilityCheck (checks : CheckTable) (input : EligibilityUpsert) : CheckTable :=
  checks.upsert (input.row (checks.get? input.key))

theorem mem_upsertEligibilityCheck {checks : CheckTable} {input : EligibilityUpsert}
    {c : EligibilityCheck} (hc : c ∈ upsertEligibilityCheck checks input) :
    c = input.row (checks.get? input.key) ∨ c ∈ checks :=
  (Table.mem_upsert.mp hc).imp_right And.left

/-- **Several verdicts**: a row is what those with its key make of it, in their order. -/
theorem get?_upsertAll (inputs : List EligibilityUpsert) (checks : CheckTable)
    (k : String × String × String) :
    (inputs.foldl upsertEligibilityCheck checks).get? k =
      (inputs.filter fun input => input.key = k).foldl (fun old input => some (input.row old))
        (checks.get? k) := by
  induction inputs generalizing checks with
  | nil => rfl
  | cons input inputs ih =>
    rw [List.foldl_cons, ih, upsertEligibilityCheck, Table.get?_upsert]
    by_cases hk : input.key = k
    · rw [List.filter_cons_of_pos (by exact decide_eq_true hk), List.foldl_cons, ← hk]
      simp
    · rw [List.filter_cons_of_neg (by simpa using hk), EligibilityUpsert.key_row, if_neg hk]

/-- `stageWalletCaps`: what a wallet may mint of a stage. -/
def stageWalletCaps (checks : CheckTable) (stageId : String) : List (String × ℕ) :=
  checks.rows.filterMap fun c =>
    if c.stageId = stageId then (c.maxMintable.filter (0 < ·)).map fun cap => (c.walletId, cap)
    else none

/-! ### The other writers of checks -/

inductive CheckStatement
  | ensureEligibilityRow (walletId projectId stageId : String) (cutoff now : ℤ)
  | markAuthRequiredChecksDue (now : ℤ)
  | deleteWallet (walletId : String)

/-- A verdict degraded for want of a token, or by a transient failure. -/
def isDegraded (c : EligibilityCheck) : Prop :=
  c.status = .authRequired ∨
    c.status = .error ∧ (c.errorCode = some "RateLimited" ∨ c.errorCode = some "AuthRequired")

instance : DecidablePred isDegraded := fun c =>
  (inferInstance : Decidable (c.status = .authRequired ∨
    c.status = .error ∧ (c.errorCode = some "RateLimited" ∨ c.errorCode = some "AuthRequired")))

def CheckStatement.exec (checks : CheckTable) : CheckStatement → CheckTable
  | ensureEligibilityRow walletId projectId stageId cutoff now =>
    checks.insert ⟨walletId, projectId, stageId, .unknown, none, none, cutoff, some now, none⟩
  | markAuthRequiredChecksDue now =>
    checks.update isDegraded
      (fun c => { c with nextDueAt := some now, status := .authRequired, errorCode := none })
      fun _ => rfl
  | deleteWallet walletId => checks.delete fun c => c.walletId = walletId

/-- None of them claims a hit. -/
theorem mem_exec_eligible {checks : CheckTable} {s : CheckStatement} {c : EligibilityCheck}
    (hc : c ∈ s.exec checks) (hhit : c.status = .eligibleRestricted) : c ∈ checks := by
  cases s with
  | ensureEligibilityRow walletId projectId stageId cutoff now =>
    rcases Table.mem_insert.mp hc with hc | ⟨rfl, _⟩
    · exact hc
    · cases hhit
  | markAuthRequiredChecksDue now =>
    rw [CheckStatement.exec] at hc
    rcases Table.update_cases hc with ⟨c₀, _, _, rfl⟩ | ⟨hc, _⟩
    · cases hhit
    · exact hc
  | deleteWallet walletId => exact (Table.mem_delete.mp hc).1

/-! ### Stages -/

inductive StageStatement
  | insert (id projectId : String) (stage : StageUpsert) (now : ℤ)
  | respell (id providerStageId : String)
  | set (id : String) (stage : StageUpsert) (now : ℤ)
  | pause (ids : List String) (now : ℤ)

/-- The stage as reported, in the row it has. -/
def setStage (stage : StageUpsert) (now : ℤ) (s : StageRow) : StageRow :=
  { stage.row s.projectId (s.version + 1) now with id := s.id }

def StageStatement.exec (stages : StageRows) : StageStatement → StageRows
  | insert id projectId stage now => stages.insert { stage.row projectId 1 now with id }
  | respell id providerStageId =>
    stages.update (fun s => s.id = id) (fun s => { s with providerStageId }) fun _ => rfl
  | set id stage now => stages.update (fun s => s.id = id) (setStage stage now) fun _ => rfl
  | pause ids now =>
    stages.update (fun s => s.id ∈ ids) (fun s => { s with paused := true, updatedAt := now })
      fun _ => rfl

/-- The kind that a statement gives to a stage that is there. -/
def StageStatement.retypes : StageStatement → String → Option StageKind
  | set id stage _, id' => if id' = id then some stage.kind else none
  | _, _ => none

/-- **Stages stay**, each of the kind it had or is given. -/
theorem exec_stage {stages : StageRows} {s : StageRow} (hs : s ∈ stages) (l : StageStatement) :
    ∃ s' ∈ l.exec stages, s'.id = s.id ∧ s'.type = (l.retypes s.id).getD s.type := by
  -- an update leaves the row or its image, and neither has another id
  have hupdate : ∀ (p : StageRow → Prop) [DecidablePred p] (f : StageRow → StageRow)
      (hf : ∀ s, (f s).id = s.id),
      ∃ s' ∈ stages.update p f hf, s'.id = s.id ∧ s' = if p s then f s else s := by
    intro p _ f hf
    refine ⟨_, Table.mem_update.mpr ⟨s, hs, rfl⟩, ?_, rfl⟩
    split
    · exact hf s
    · rfl
  cases l with
  | insert id projectId stage now => exact ⟨s, Table.mem_insert_of_mem hs, rfl, rfl⟩
  | respell id providerStageId =>
    obtain ⟨s', hs', hid, rfl⟩ := hupdate (fun s => s.id = id)
      (fun s => { s with providerStageId }) fun _ => rfl
    refine ⟨_, hs', hid, ?_⟩
    split
    · rfl
    · rfl
  | set id stage now =>
    obtain ⟨s', hs', hid, rfl⟩ := hupdate (fun s => s.id = id) (setStage stage now) fun _ => rfl
    refine ⟨_, hs', hid, ?_⟩
    simp only [StageStatement.retypes]
    split
    · rfl
    · rfl
  | pause ids now =>
    obtain ⟨s', hs', hid, rfl⟩ := hupdate (fun s => s.id ∈ ids)
      (fun s => { s with paused := true, updatedAt := now }) fun _ => rfl
    refine ⟨_, hs', hid, ?_⟩
    split
    · rfl
    · rfl

end EligibilityEngine
