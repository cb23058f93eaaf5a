/-
Revoking a signer (`packages/db/src/repositories/execution.ts`, `apps/web/src/app/actions.ts`,
`apps/worker/src/workers/execution.ts`).

The actions on signers and the passes of the fire path interleave at every statement.  None of the
updates looks at the status of its row, so that what an action has found may have changed by the
time it writes.

* `Custody`, `step` — the system; it records how statuses have moved, which signers have been
  revoked, what has changed under an active signer, and every signature with a session key;
* `RevokeFinal` — a delegated signer goes from pending to active to revoked, or from pending to
  revoked, and stays so; no later pass signs with its key; while active it has what a fire needs,
  and that does not change;
* `Orderly` — what it takes of the statements: none activates a revoked signer, or one without its
  session key, and none changes an active one's contract, ceiling or session key;
* `Lawful` — all that such a statement does to a row; every invariant is derived from it
  (`revokeFinal_of_reach`).
-/
import HoodMint.Lib.Interleave
import HoodMint.Lib.Transition
import HoodMint.SignerActions
import HoodMint.SignerPass

namespace SignerCustody

open Effect Relational
open MintWorker (Config KeysRead SignerStatus firePass sessionKeys)

/-! ### Signers -/

namespace SignerRow

/-- The worker signs for the owner. -/
def Delegated (r : SignerRow) : Prop := r.scheme ≠ .browserWallet

instance : DecidablePred Delegated := fun r =>
  (inferInstance : Decidable (r.scheme ≠ .browserWallet))

/-- A delegated signer that a pass may use. -/
def Live (r : SignerRow) : Prop := r.Delegated ∧ r.status = .active

instance : DecidablePred Live := fun r =>
  (inferInstance : Decidable (r.Delegated ∧ r.status = .active))

/-- What a fire reads of it: its contract, its session key and its ceiling. -/
def terms (r : SignerRow) : Option String × Option String × Option ℕ :=
  (r.delegateContractAddress, r.sessionKeyCredentialId, r.onchainSpendCeilingWei)

/-- It has all of them, and the ceiling is positive. -/
structure Equipped (r : SignerRow) : Prop where
  address : r.delegateContractAddress ≠ none
  credential : r.sessionKeyCredentialId ≠ none
  ceiling : ∃ w ∈ r.onchainSpendCeilingWei, 0 < w

end SignerRow

namespace Signers

/-- The status of a signer. -/
def status? (t : Signers) (id : String) : Option SignerStatus := (t.get? id).map fun r => r.status

/-- How the statuses of delegated signers have moved from one table to the next; a signer that is
new has come from none. -/
def moves (t t' : Signers) : List (Option SignerStatus × SignerStatus) :=
  (t'.rows.filter fun r' => r'.Delegated ∧ t.status? r'.id ≠ some r'.status).map fun r' =>
    (t.status? r'.id, r'.status)

/-- The delegated signers that have stayed active while something a fire reads has changed. -/
def altered (t t' : Signers) : List String :=
  (t'.rows.filter fun r' => ∃ r ∈ t, r.id = r'.id ∧ r.Live ∧ r'.status = .active ∧
    r'.terms ≠ r.terms).map fun r' => r'.id

/-- The signers that are revoked. -/
def revoked (t : Signers) : List String :=
  (t.rows.filter fun r => r.status = .revoked).map fun r => r.id

end Signers

/-! ### The system -/

/-- A signature for an executor: the credential whose secret signed, as far as the pass has opened
it, and the signers that had been revoked when the pass began. -/
structure ExecutorSignature where
  credentialId : Option String
  revokedBefore : List String
deriving DecidableEq

/-- The tables, the actions and the passes under way; of each signer created with a session key,
the credential and the signer; the signers revoked so far; the moves of statuses; the signers
altered while active; and the signatures. -/
structure Custody where
  db : CustodyDb
  tasks : List (Task signature Thrown ActionState Here)
  passes : List (Task MintWorker.signature MintWorker.Thrown Unit KeysRead)
  owners : List (String × String)
  revoked : List String
  moves : List (Option SignerStatus × SignerStatus)
  altered : List String
  signatures : List ExecutorSignature

/-- What can happen. -/
inductive CustodyStep
  | enter (action : Action)
  | advance (i : ℕ) (answer : (c : Cmd) → Except Thrown c.Resp)
  | crash (i : ℕ)
  | fire (config : Config)
  | advancePass (i : ℕ) (answer : (c : MintWorker.Cmd) → Except MintWorker.Thrown c.Resp)
  | crashPass (i : ℕ)

/-- What the tables answer a pass: the row of a signer, and a secret when the credential exists. -/
def CustodyDb.AnswersPass (db : CustodyDb) (c : MintWorker.Cmd)
    (x : Except MintWorker.Thrown c.Resp) : Prop :=
  match c, x with
  | .selectSigner id, .ok row =>
    (row : Option MintWorker.Signer) = (db.signers.get? id).map SignerRow.toSigner
  | .getCredentialSecret id, .ok secret => (secret : Option String).isSome = decide (id ∈ db.credentials)
  | _, _ => True

instance (db : CustodyDb) (c : MintWorker.Cmd) (x : Except MintWorker.Thrown c.Resp) :
    Decidable (db.AnswersPass c x) := by
  induction c using MintWorker.Cmd.casesOn with
  | selectSigner id =>
    exact match x with
      | .error _ => isTrue trivial
      | .ok row => (inferInstance : Decidable ((row : Option MintWorker.Signer) =
          (db.signers.get? id).map SignerRow.toSigner))
  | getCredentialSecret id =>
    exact match x with
      | .error _ => isTrue trivial
      | .ok secret => (inferInstance : Decidable ((secret : Option String).isSome =
          decide (id ∈ db.credentials)))
  | _ => exact isTrue trivial

/-- The owner of a session key, once a statement has given it to a signer. -/
def owner (c : Cmd) (x : Except Thrown c.Resp) : List (String × String) :=
  match c, x with
  | .createSigner input, .ok id =>
    input.sessionKeyCredentialId.toList.map fun credentialId => (credentialId, id)
  | _, _ => []

/-- The signature a pass makes. -/
def signatureOf (here : KeysRead) (c : MintWorker.Cmd) (x : Except MintWorker.Thrown c.Resp) :
    List ExecutorSignature :=
  match c, x with
  | .signExecutorTransaction _ sessionKeyHex, .ok _ =>
    [⟨(here.key.filter fun k => k.2 = sessionKeyHex).map Prod.fst, here.revokedBefore⟩]
  | _, _ => []

namespace Custody

/-- A statement, and what it leaves in the records. -/
def perform (d : Custody) (c : Cmd) (x : Except Thrown c.Resp) : Custody :=
  { d with
    db := d.db.next c x
    owners := owner c x ++ d.owners
    revoked := (d.db.next c x).signers.revoked ++ d.revoked
    moves := d.db.signers.moves (d.db.next c x).signers ++ d.moves
    altered := d.db.signers.altered (d.db.next c x).signers ++ d.altered }

variable (robinhoodChainId : ℕ) (buildExecutorDeployData : String → String)

/-- One step. -/
def step (d : Custody) : CustodyStep → Option Custody
  | .enter action =>
    some { d with tasks := d.tasks ++
      [⟨action.prog robinhoodChainId buildExecutorDeployData, ⟨none, none, none⟩⟩] }
  | .advance i answer =>
    match d.tasks[i]? with
    | some ⟨.call c k, here⟩ =>
      if d.db.Answers c (answer c) then
        some { d.perform c (answer c) with
          tasks := d.tasks.set i ⟨k (answer c), onboarding.next here c (answer c)⟩ }
      else none
    | _ => none
  | .crash i => d.tasks[i]?.map fun t => { d with tasks := d.tasks.set i ⟨.fail .other, t.here⟩ }
  | .fire config =>
    some { d with passes := d.passes ++ [⟨firePass config, ⟨[], none, d.revoked⟩⟩] }
  | .advancePass i answer =>
    match d.passes[i]? with
    | some ⟨.call c k, here⟩ =>
      if d.db.AnswersPass c (answer c) then
        some { d with
          passes := d.passes.set i ⟨k (answer c), sessionKeys.next here c (answer c)⟩
          signatures := signatureOf here c (answer c) ++ d.signatures }
      else none
    | _ => none
  | .crashPass i => d.passes[i]?.map fun p => { d with passes := d.passes.set i ⟨.ret (), p.here⟩ }

/-- No signers and no credentials, and nothing under way. -/
def init : Custody := ⟨⟨.empty, [], []⟩, [], [], [], [], [], [], []⟩

end Custody

/-- From nowhere to pending, from there to active, and from either to revoked. -/
def lawfulMoves : List (Option SignerStatus × SignerStatus) :=
  [(none, .pending), (some .pending, .active), (some .active, .revoked), (some .pending, .revoked)]

/-- **Revoking a signer is final**, and an active one has what a fire needs and keeps it. -/
structure RevokeFinal (d : Custody) : Prop where
  moves : ∀ m ∈ d.moves, m ∈ lawfulMoves
  final : ∀ r ∈ d.db.signers, r.id ∈ d.revoked → r.status = .revoked
  silent : ∀ e ∈ d.signatures, ∃ credentialId, e.credentialId = some credentialId ∧
    ∀ o ∈ d.owners, o.1 = credentialId → o.2 ∉ e.revokedBefore
  equipped : ∀ r ∈ d.db.signers, r.Live → r.Equipped
  steady : d.altered = []

/-! ### What it takes -/

/-- What a statement that is executed must find: it activates a signer that is not revoked and has
its session key, and leaves what a fire reads of a live one as it is. -/
def Heard (t : Signers) (_ : Here) (c : Cmd) (x : Except Thrown c.Resp) : Prop :=
  match c, x with
  | .activateSigner id, .ok _ => ∀ r ∈ t, r.id = id → r.status ≠ .revoked ∧
    r.sessionKeyCredentialId ≠ none
  | .setSignerDelegateContract id address, .ok _ => ∀ r ∈ t, r.id = id → r.Live →
    r.delegateContractAddress = some (Text.lower address)
  | .setSignerOnchainCeiling id wei, .ok _ => ∀ r ∈ t, r.id = id → r.Live →
    r.onchainSpendCeilingWei = some wei
  | .revokeCredential id, .ok _ => ∀ r ∈ t, r.Live → r.sessionKeyCredentialId ≠ some id
  | _, _ => True

instance (t : Signers) (here : Here) (c : Cmd) (x : Except Thrown c.Resp) :
    Decidable (Heard t here c x) := by
  induction c using Cmd.casesOn with
  | activateSigner id =>
    induction x using Except.casesOn with
    | error e => exact isTrue trivial
    | ok a =>
      exact (inferInstance : Decidable (∀ r ∈ t, r.id = id → r.status ≠ .revoked ∧
        r.sessionKeyCredentialId ≠ none))
  | setSignerDelegateContract id address =>
    induction x using Except.casesOn with
    | error e => exact isTrue trivial
    | ok a =>
      exact (inferInstance : Decidable (∀ r ∈ t, r.id = id → r.Live →
        r.delegateContractAddress = some (Text.lower address)))
  | setSignerOnchainCeiling id wei =>
    induction x using Except.casesOn with
    | error e => exact isTrue trivial
    | ok a =>
      exact (inferInstance : Decidable (∀ r ∈ t, r.id = id → r.Live →
        r.onchainSpendCeilingWei = some wei))
  | revokeCredential id =>
    induction x using Except.casesOn with
    | error e => exact isTrue trivial
    | ok a =>
      exact (inferInstance : Decidable (∀ r ∈ t, r.Live → r.sessionKeyCredentialId ≠ some id))
  | _ => exact isTrue trivial

/-- The condition on a step, in the state before it. -/
def Orderly (d : Custody) : CustodyStep → Prop
  | .advance i answer => AtCommand (S := signature) d.tasks i answer (Heard d.db.signers)
  | _ => True

instance (d : Custody) : DecidablePred (Orderly d) := fun l =>
  match l with
  | .advance i answer =>
    (inferInstance : Decidable (AtCommand (S := signature) d.tasks i answer (Heard d.db.signers)))
  | .enter _ | .crash _ | .fire _ | .advancePass .. | .crashPass _ => isTrue trivial

/-! ### What a statement does to a row -/

/-- All that a statement does to a row. -/
structure Lawful (r r' : SignerRow) : Prop where
  id : r'.id = r.id
  scheme : r'.scheme = r.scheme
  status : r'.status = r.status ∨ r'.status = .revoked ∨
    (r.status = .pending ∧ r'.status = .active ∧ r'.Equipped)
  address : r.delegateContractAddress ≠ none → r'.delegateContractAddress ≠ none
  ceiling : r.onchainSpendCeilingWei ≠ none → r'.onchainSpendCeilingWei ≠ none
  positive : ∀ w ∈ r'.onchainSpendCeilingWei, 0 < w
  credential : ∀ c ∈ r'.sessionKeyCredentialId, c ∈ r.sessionKeyCredentialId
  steady : r.Live → r'.status = .active → r'.terms = r.terms

/-- A row as it is created, with the session key it is given. -/
structure Born (given : List (String × String)) (r : SignerRow) : Prop where
  status : r.Delegated → r.status = .pending
  ceiling : r.onchainSpendCeilingWei = none
  credential : ∀ c ∈ r.sessionKeyCredentialId, (c, r.id) ∈ given

/-- From one table to the next: every row is kept, and what is new is as it is created. -/
structure Turned (given : List (String × String)) (t t' : Signers) : Prop where
  kept : ∀ r ∈ t, ∃ r' ∈ t', Lawful r r'
  since : ∀ r' ∈ t', (∃ r ∈ t, Lawful r r') ∨ (Born given r' ∧ ∀ r ∈ t, r.id ≠ r'.id)

/-- What an action has found and written is still so. -/
structure Knows (t : Signers) (here : Here) : Prop where
  checked : ∀ id ∈ here.checked, ∃ r ∈ t, r.id = id ∧ r.delegateContractAddress ≠ none
  ceiled : ∀ id ∈ here.ceiled, ∃ r ∈ t, r.id = id ∧ r.onchainSpendCeilingWei ≠ none

section

variable {given : List (String × String)} {t t' : Signers} {r r' : SignerRow} {db : CustodyDb} {here : Here} {c : Cmd}
  {x : Except Thrown c.Resp}

theorem Lawful.refl (hpositive : ∀ w ∈ r.onchainSpendCeilingWei, 0 < w) : Lawful r r :=
  { id := rfl, scheme := rfl, status := Or.inl rfl, address := fun h => h
    ceiling := fun h => h, positive := hpositive, credential := fun _ h => h, steady := fun _ _ => rfl }

theorem Turned.of_images (h : t.Images Lawful t') : Turned given t t' :=
  ⟨h.1, fun r' hr' => Or.inl (h.2 r' hr')⟩

theorem Turned.refl (hpositive : ∀ r ∈ t, ∀ w ∈ r.onchainSpendCeilingWei, 0 < w) : Turned given t t :=
  .of_images (Table.images_refl fun r hr => .refl (hpositive r hr))

/-- The row known to have a contract is the row itself. -/
theorem Knows.address (h : Knows t here) (hr : r ∈ t) (hchecked : here.checked = some r.id) :
    r.delegateContractAddress ≠ none := by
  obtain ⟨r₀, hr₀, hid, haddress⟩ := h.checked r.id hchecked
  rwa [Table.eq_of_key hr₀ hr hid] at haddress

theorem Knows.ceiling (h : Knows t here) (hr : r ∈ t) (hceiled : here.ceiled = some r.id) :
    r.onchainSpendCeilingWei ≠ none := by
  obtain ⟨r₀, hr₀, hid, hceiling⟩ := h.ceiled r.id hceiled
  rwa [Table.eq_of_key hr₀ hr hid] at hceiling

/-! #### One statement at a time -/

section

variable (hpositive : ∀ r ∈ t, ∀ w ∈ r.onchainSpendCeilingWei, 0 < w) {id address credentialId : String}
  {wei : ℕ}

include hpositive

theorem turned_setSignerDelegateContract
    (hφ : ∀ r ∈ t, r.id = id → r.Live → r.delegateContractAddress = some (Text.lower address)) :
    Turned given t (t.setSignerDelegateContract id address) := by
  refine .of_images (Table.images_update (fun r hr hid => ?_) fun r hr _ => .refl (hpositive r hr))
  exact
    { id := rfl, scheme := rfl, status := Or.inl rfl, address := fun _ => Option.some_ne_none _
      ceiling := fun h => h, positive := hpositive r hr, credential := fun _ h => h
      steady := fun hlive _ => by rw [SignerRow.terms, SignerRow.terms, hφ r hr hid hlive] }

theorem turned_setSignerOnchainCeiling (hwei : 0 < wei)
    (hφ : ∀ r ∈ t, r.id = id → r.Live → r.onchainSpendCeilingWei = some wei) :
    Turned given t (t.setSignerOnchainCeiling id wei) := by
  refine .of_images (Table.images_update (fun r hr hid => ?_) fun r hr _ => .refl (hpositive r hr))
  exact
    { id := rfl, scheme := rfl, status := Or.inl rfl, address := fun h => h
      ceiling := fun _ => Option.some_ne_none _
      positive := fun w hw => Option.mem_some_iff.mp hw ▸ hwei, credential := fun _ h => h
      steady := fun hlive _ => by rw [SignerRow.terms, SignerRow.terms, hφ r hr hid hlive] }

/-- What is activated has been checked and given its ceiling. -/
theorem turned_activateSigner (hknows : Knows t here) (hchecked : here.checked = some id)
    (hceiled : here.ceiled = some id)
    (hφ : ∀ r ∈ t, r.id = id → r.status ≠ .revoked ∧ r.sessionKeyCredentialId ≠ none) :
    Turned given t (t.activateSigner id) := by
  refine .of_images (Table.images_update (fun r hr hid => ?_) fun r hr _ => .refl (hpositive r hr))
  subst hid
  obtain ⟨hrevoked, hcredential⟩ := hφ r hr rfl
  have haddress : r.delegateContractAddress ≠ none := hknows.address hr hchecked
  obtain ⟨w, hw⟩ := Option.ne_none_iff_exists'.mp (hknows.ceiling hr hceiled)
  have hequipped : ({ r with status := .active } : SignerRow).Equipped :=
    ⟨haddress, hcredential, w, hw, hpositive r hr w hw⟩
  have hstatus : SignerStatus.active = r.status ∨ SignerStatus.active = .revoked ∨
      (r.status = .pending ∧ SignerStatus.active = .active ∧
        ({ r with status := .active } : SignerRow).Equipped) := by
    cases hold : r.status with
    | pending => exact Or.inr (Or.inr ⟨rfl, rfl, hequipped⟩)
    | active => exact Or.inl rfl
    | revoked => exact absurd hold hrevoked
  exact
    { id := rfl, scheme := rfl, status := hstatus, address := fun h => h, ceiling := fun h => h
      positive := hpositive r hr, credential := fun _ h => h, steady := fun _ _ => rfl }

theorem turned_revokeSigner : Turned given t (t.revokeSigner id) := by
  refine .of_images (Table.images_update (fun r hr hid => ?_) fun r hr _ => .refl (hpositive r hr))
  exact
    { id := rfl, scheme := rfl, status := Or.inr (Or.inl rfl), address := fun h => h
      ceiling := fun h => h, positive := hpositive r hr, credential := fun _ h => h
      steady := fun _ _ => rfl }

theorem turned_forgetCredential (hφ : ∀ r ∈ t, r.Live → r.sessionKeyCredentialId ≠ some credentialId) :
    Turned given t (t.forgetCredential credentialId) := by
  refine .of_images (Table.images_update (fun r hr hc => ?_) fun r hr _ => .refl (hpositive r hr))
  exact
    { id := rfl, scheme := rfl, status := Or.inl rfl, address := fun h => h, ceiling := fun h => h
      positive := hpositive r hr, credential := fun _ h => absurd h (Option.not_mem_none _)
      steady := fun hlive _ => absurd hc (hφ r hr hlive) }

theorem turned_insert (hnew : ∀ r₀ ∈ t, r₀.id ≠ r.id) (hborn : Born given r) : Turned given t (t.insert r) := by
  refine ⟨fun r₀ hr₀ => ⟨r₀, Table.mem_insert_of_mem hr₀, .refl (hpositive r₀ hr₀)⟩, fun r' hr' => ?_⟩
  rcases Table.mem_insert.mp hr' with hr' | ⟨rfl, _⟩
  · exact Or.inl ⟨r', hr', .refl (hpositive r' hr')⟩
  · exact Or.inr ⟨hborn, hnew⟩

end

/-- **Every statement** that meets the condition turns the table so. -/
theorem turned_next (hpositive : ∀ r ∈ db.signers, ∀ w ∈ r.onchainSpendCeilingWei, 0 < w)
    (hknows : Knows db.signers here) (hguard : onboarding.guard here c) (hx : db.Answers c x)
    (hφ : Heard db.signers here c x) : Turned (owner c x) db.signers (db.next c x).signers := by
  cases x with
  | error e => cases c <;> exact .refl hpositive
  | ok a =>
    cases c with
    | createSigner input =>
      refine turned_insert hpositive hx.1 ⟨fun hdelegated => if_neg hdelegated, hguard.1, ?_⟩
      intro credentialId hc
      exact List.mem_map_of_mem (Option.mem_toList.mpr hc)
    | setSignerDelegateContract id address => exact turned_setSignerDelegateContract hpositive hφ
    | setSignerOnchainCeiling id wei => exact turned_setSignerOnchainCeiling hpositive hguard.1 hφ
    | activateSigner id => exact turned_activateSigner hpositive hknows hguard.1 hguard.2 hφ
    | revokeSigner id => exact turned_revokeSigner hpositive
    | revokeCredential id => exact turned_forgetCredential hpositive hφ
    | _ => exact .refl hpositive

end

/-! ### What follows for the tables -/

namespace Turned

variable {given owners : List (String × String)} {t t' : Signers} {here : Here}
  (h : Turned given t t')
include h

theorem positive : ∀ r ∈ t', ∀ w ∈ r.onchainSpendCeilingWei, 0 < w := by
  intro r' hr' w hw
  rcases h.since r' hr' with ⟨r, _, hl⟩ | ⟨hborn, _⟩
  · exact hl.positive w hw
  · rw [hborn.ceiling] at hw
    exact absurd hw (Option.not_mem_none w)

theorem knows (hknows : Knows t here) : Knows t' here := by
  refine ⟨fun id hid => ?_, fun id hid => ?_⟩
  · obtain ⟨r, hr, rfl, haddress⟩ := hknows.checked id hid
    obtain ⟨r', hr', hl⟩ := h.kept r hr
    exact ⟨r', hr', hl.id, hl.address haddress⟩
  · obtain ⟨r, hr, rfl, hceiling⟩ := hknows.ceiled id hid
    obtain ⟨r', hr', hl⟩ := h.kept r hr
    exact ⟨r', hr', hl.id, hl.ceiling hceiling⟩

/-- A live signer was live with the same terms, or has just been activated. -/
theorem equipped (hequipped : ∀ r ∈ t, r.Live → r.Equipped) : ∀ r ∈ t', r.Live → r.Equipped := by
  rintro r' hr' ⟨hdelegated, hactive⟩
  rcases h.since r' hr' with ⟨r, hr, hl⟩ | ⟨hborn, _⟩
  · rcases hl.status with hsame | hrevoked | ⟨_, _, hnow⟩
    · have hlive : r.Live := ⟨fun hs => hdelegated (hl.scheme.trans hs), hsame ▸ hactive⟩
      obtain ⟨haddress, hcredential, hceiling⟩ := hequipped r hr hlive
      have hterms := hl.steady hlive hactive
      simp only [SignerRow.terms, Prod.mk.injEq] at hterms
      obtain ⟨ha, hc, hw⟩ := hterms
      exact ⟨ha ▸ haddress, hc ▸ hcredential, hw ▸ hceiling⟩
    · exact SignerStatus.noConfusion (hactive.symm.trans hrevoked)
    · exact hnow
  · exact SignerStatus.noConfusion (hactive.symm.trans (hborn.status hdelegated))

theorem owned (howned : ∀ r ∈ t, ∀ c ∈ r.sessionKeyCredentialId, (c, r.id) ∈ owners) :
    ∀ r ∈ t', ∀ c ∈ r.sessionKeyCredentialId, (c, r.id) ∈ given ++ owners := by
  intro r' hr' c hc
  rcases h.since r' hr' with ⟨r, hr, hl⟩ | ⟨hborn, _⟩
  · rw [hl.id]
    exact List.mem_append_right _ (howned r hr c (hl.credential c hc))
  · exact List.mem_append_left _ (hborn.credential c hc)

/-- Who is revoked stays so. -/
theorem revoked {ids : List String} (hgone : ∀ id ∈ ids, ∃ r ∈ t, r.id = id ∧ r.status = .revoked) :
    ∀ id ∈ t'.revoked ++ ids, ∃ r ∈ t', r.id = id ∧ r.status = .revoked := by
  intro id hid
  rcases List.mem_append.mp hid with hid | hid
  · obtain ⟨r', hr', rfl⟩ := List.mem_map.mp hid
    obtain ⟨hmem, hrevoked⟩ := List.mem_filter.mp hr'
    exact ⟨r', hmem, rfl, of_decide_eq_true hrevoked⟩
  · obtain ⟨r, hr, rfl, hrevoked⟩ := hgone id hid
    obtain ⟨r', hr', hl⟩ := h.kept r hr
    refine ⟨r', hr', hl.id, ?_⟩
    rcases hl.status with hsame | hnow | ⟨hpending, _⟩
    · exact hsame.trans hrevoked
    · exact hnow
    · exact SignerStatus.noConfusion (hrevoked.symm.trans hpending)

theorem moves : ∀ m ∈ t.moves t', m ∈ lawfulMoves := by
  intro m hm
  obtain ⟨r', hr', rfl⟩ := List.mem_map.mp hm
  obtain ⟨hmem, hmoved⟩ := List.mem_filter.mp hr'
  obtain ⟨hdelegated, hne⟩ := of_decide_eq_true hmoved
  rcases h.since r' hmem with ⟨r, hr, hl⟩ | ⟨hborn, hnew⟩
  · have hstatus : t.status? r'.id = some r.status := by
      rw [Signers.status?, Table.get?_eq_some.mpr ⟨hr, hl.id.symm⟩, Option.map_some]
    rw [hstatus] at hne ⊢
    rcases hl.status with hsame | hrevoked | ⟨hpending, hactive, _⟩
    · exact absurd (congrArg some hsame.symm) hne
    · rw [hrevoked] at hne ⊢
      -- revoked from one of the other two
      cases hold : r.status with
      | pending => simp [lawfulMoves]
      | active => simp [lawfulMoves]
      | revoked => exact absurd (congrArg some hold) hne
    · rw [hpending, hactive]
      simp [lawfulMoves]
  · have hstatus : t.status? r'.id = none := by
      rw [Signers.status?, Table.get?_eq_none.mpr hnew, Option.map_none]
    rw [hstatus, hborn.status hdelegated]
    simp [lawfulMoves]

theorem altered : t.altered t' = [] := by
  rw [Signers.altered, List.map_eq_nil_iff, List.filter_eq_nil_iff]
  intro r' hr' hchanged
  obtain ⟨r, hr, hid, hlive, hactive, hterms⟩ := of_decide_eq_true hchanged
  rcases h.since r' hr' with ⟨r₀, hr₀, hl⟩ | ⟨_, hnew⟩
  · obtain rfl := Table.eq_of_key hr hr₀ (hid.trans hl.id)
    exact hterms (hl.steady hlive hactive)
  · exact hnew r hr hid

end Turned

/-! ### What an action knows -/

section

variable {db : CustodyDb} {here : Here} {c : Cmd} {x : Except Thrown c.Resp}

/-- The row whose ceiling is written. -/
theorem mem_setSignerOnchainCeiling {t : Signers} {r : SignerRow} {wei : ℕ} (hr : r ∈ t) :
    { r with onchainSpendCeilingWei := some wei } ∈ t.setSignerOnchainCeiling r.id wei := by
  rw [Signers.setSignerOnchainCeiling, Table.mem_update]
  exact ⟨r, hr, if_pos rfl⟩

theorem of_refusal {signer : Option SignerRow} (h : refusal signer = none) :
    ∃ r, signer = some r ∧ r.delegateContractAddress ≠ none := by
  cases signer with
  | none => exact absurd h (Option.some_ne_none _)
  | some r =>
    simp only [refusal] at h
    split at h
    · exact absurd h (Option.some_ne_none _)
    · split at h
      · exact absurd h (Option.some_ne_none _)
      · next haddress => exact ⟨r, rfl, haddress⟩

/-- What it has found, and what it has written. -/
theorem knows_next (hknows : Knows db.signers here) (hguard : onboarding.guard here c)
    (hx : db.Answers c x) (hturned : Turned (owner c x) db.signers (db.next c x).signers) :
    Knows (db.next c x).signers (onboarding.next here c x) := by
  have hkept := hturned.knows hknows
  cases x with
  | error e =>
    cases c with
    | _ => exact ⟨hkept.checked, hkept.ceiled⟩
  | ok a =>
    cases c with
    | getSigner id =>
      refine ⟨fun id' hid => ?_, hkept.ceiled⟩
      have hfound : (if refusal a = none then some id else none) = some id' := hid
      split at hfound
      · next haccepted =>
        obtain ⟨r, hr, haddress⟩ := of_refusal haccepted
        obtain ⟨hmem, hkey⟩ := Table.get?_eq_some.mp (hx.symm.trans hr)
        exact ⟨r, hmem, hkey.trans (Option.some_inj.mp hfound), haddress⟩
      · exact absurd hfound.symm (Option.some_ne_none id')
    | setSignerOnchainCeiling id wei =>
      refine ⟨hkept.checked, fun id' hid => ?_⟩
      obtain rfl := Option.some_inj.mp hid
      obtain ⟨r, hr, hkey, _⟩ := hknows.checked id hguard.2
      subst hkey
      exact ⟨_, mem_setSignerOnchainCeiling hr, rfl, Option.some_ne_none wei⟩
    | _ => exact ⟨hkept.checked, hkept.ceiled⟩

end

/-! ### Session keys -/

/-- A session key has one owner; and the one that an action holds has none yet, and is held by no
other action. -/
structure Books (issued : List String) (owners : List (String × String))
    (tasks : List (Task signature Thrown ActionState Here)) : Prop where
  once : ∀ o ∈ owners, ∀ o' ∈ owners, o.1 = o'.1 → o = o'
  stored : ∀ o ∈ owners, o.1 ∈ issued
  held : ∀ t ∈ tasks, ∀ c ∈ t.here.held, c ∈ issued ∧ ∀ o ∈ owners, o.1 ≠ c
  alone : ∀ (i j : ℕ) t u c, tasks[i]? = some t → tasks[j]? = some u → c ∈ t.here.held →
    c ∈ u.here.held → i = j

section

variable {issued : List String} {owners : List (String × String)}
  {tasks : List (Task signature Thrown ActionState Here)} {i : ℕ}
  {t t' : Task signature Thrown ActionState Here} {c id : String}

/-- A step after which its action holds what it held before, or nothing. -/
theorem books_quiet (hb : Books issued owners tasks) (hi : tasks[i]? = some t)
    (hheld : ∀ c ∈ t'.here.held, c ∈ t.here.held) : Books issued owners (tasks.set i t') := by
  refine ⟨hb.once, hb.stored, fun u hu c hc => ?_, fun j l u v c hj hl hu hv => ?_⟩
  · rcases List.mem_or_eq_of_mem_set hu with hu | rfl
    · exact hb.held u hu c hc
    · exact hb.held t (List.mem_of_getElem? hi) c (hheld c hc)
  · have hbefore : ∀ {n : ℕ} {w}, (tasks.set i t')[n]? = some w → c ∈ w.here.held →
        ∃ w₀, tasks[n]? = some w₀ ∧ c ∈ w₀.here.held := by
      intro n w hn hw
      rcases getElem?_set_cases hn with ⟨rfl, rfl⟩ | ⟨_, hn⟩
      · exact ⟨t, hi, hheld c hw⟩
      · exact ⟨w, hn, hw⟩
    obtain ⟨u₀, hj, hu⟩ := hbefore hj hu
    obtain ⟨v₀, hl, hv⟩ := hbefore hl hv
    exact hb.alone j l u₀ v₀ c hj hl hu hv

/-- A new credential. -/
theorem books_credential (hb : Books issued owners tasks) (hnew : id ∉ issued)
    (hheld : t'.here.held = some id) : Books (id :: issued) owners (tasks.set i t') := by
  have hother : ∀ {n : ℕ} {w}, (tasks.set i t')[n]? = some w → id ∈ w.here.held → n = i := by
    intro n w hn hw
    rcases getElem?_set_cases hn with ⟨hn, _⟩ | ⟨_, hn⟩
    · exact hn
    · exact absurd (hb.held w (List.mem_of_getElem? hn) id hw).1 hnew
  refine ⟨hb.once, fun o ho => List.mem_cons_of_mem _ (hb.stored o ho), fun u hu c hc => ?_,
    fun j l u v c hj hl hu hv => ?_⟩
  · rcases List.mem_or_eq_of_mem_set hu with hu | rfl
    · exact (hb.held u hu c hc).imp_left (List.mem_cons_of_mem _)
    · obtain rfl := Option.some_inj.mp (hheld.symm.trans hc)
      exact ⟨List.mem_cons_self, fun o ho heq => hnew (heq ▸ hb.stored o ho)⟩
  · by_cases hc : c = id
    · subst hc
      exact (hother hj hu).trans (hother hl hv).symm
    · -- an older one is held by others only
      have hbefore : ∀ {n : ℕ} {w}, (tasks.set i t')[n]? = some w → c ∈ w.here.held →
          tasks[n]? = some w := by
        intro n w hn hw
        rcases getElem?_set_cases hn with ⟨_, rfl⟩ | ⟨_, hn⟩
        · exact absurd (Option.some_inj.mp (hheld.symm.trans hw)).symm hc
        · exact hn
      exact hb.alone j l u v c (hbefore hj hu) (hbefore hl hv) hu hv

/-- A credential held is given to a new signer. -/
theorem books_signer (hb : Books issued owners tasks) (hi : tasks[i]? = some t)
    (hheld : t.here.held = some c) (hnone : t'.here.held = none) :
    Books issued ((c, id) :: owners) (tasks.set i t') := by
  obtain ⟨hissued, hunowned⟩ := hb.held t (List.mem_of_getElem? hi) c hheld
  have hquiet : Books issued owners (tasks.set i t') := books_quiet hb hi fun c hc => by
    rw [hnone] at hc
    exact absurd hc (Option.not_mem_none c)
  refine ⟨fun o ho o' ho' heq => ?_, fun o ho => ?_, fun u hu c' hc' => ?_, hquiet.alone⟩
  · rcases List.mem_cons.mp ho with rfl | ho
    · rcases List.mem_cons.mp ho' with rfl | ho'
      · rfl
      · exact absurd heq.symm (hunowned o' ho')
    · rcases List.mem_cons.mp ho' with rfl | ho'
      · exact absurd heq (hunowned o ho)
      · exact hb.once o ho o' ho' heq
  · rcases List.mem_cons.mp ho with rfl | ho
    · exact hissued
    · exact hb.stored o ho
  · obtain ⟨hin, hfree⟩ := hquiet.held u hu c' hc'
    refine ⟨hin, fun o ho => ?_⟩
    rcases List.mem_cons.mp ho with rfl | ho
    · -- who holds it is the action itself
      rintro rfl
      obtain ⟨j, hj⟩ := List.mem_iff_getElem?.mp hu
      rcases getElem?_set_cases hj with ⟨_, rfl⟩ | ⟨hne, hj⟩
      · rw [hnone] at hc'
        exact absurd hc' (Option.not_mem_none _)
      · exact hne (hb.alone j i u t c hj hi hc' hheld)
    · exact hfree o ho

end

/-! ### One step -/

/-- What a pass has read: an active row is of a signer that had not been revoked when the pass
began, and the session key it names is the signer's own. -/
structure Reads (owners : List (String × String)) (revoked : List String) (here : KeysRead) :
    Prop where
  before : ∀ id ∈ here.revokedBefore, id ∈ revoked
  rows : ∀ s ∈ here.rows, s.status = .active → s.id ∉ here.revokedBefore ∧
    ∀ c ∈ s.sessionKeyCredentialId, (c, s.id) ∈ owners

/-- The actions and the passes keep to their monitors, and the records are as they should be. -/
structure Sound (d : Custody) : Prop where
  safe : ∀ t ∈ d.tasks, t.Safe onboarding fun _ _ => True
  passSafe : ∀ p ∈ d.passes, p.Safe sessionKeys fun _ _ => True
  moves : ∀ m ∈ d.moves, m ∈ lawfulMoves
  gone : ∀ id ∈ d.revoked, ∃ r ∈ d.db.signers, r.id = id ∧ r.status = .revoked
  equipped : ∀ r ∈ d.db.signers, r.Live → r.Equipped
  steady : d.altered = []
  positive : ∀ r ∈ d.db.signers, ∀ w ∈ r.onchainSpendCeilingWei, 0 < w
  knows : ∀ t ∈ d.tasks, Knows d.db.signers t.here
  owned : ∀ r ∈ d.db.signers, ∀ c ∈ r.sessionKeyCredentialId, (c, r.id) ∈ d.owners
  books : Books d.db.issued d.owners d.tasks
  reads : ∀ p ∈ d.passes, Reads d.owners d.revoked p.here
  signed : ∀ e ∈ d.signatures, ∃ o ∈ d.owners, e.credentialId = some o.1 ∧ o.2 ∉ e.revokedBefore

section

variable {robinhoodChainId : ℕ} {buildExecutorDeployData : String → String} {d d' : Custody} {i : ℕ}

/-- A statement of an action. -/
theorem step_advance_cases {answer : (c : Cmd) → Except Thrown c.Resp}
    (h : d.step robinhoodChainId buildExecutorDeployData (.advance i answer) = some d') :
    ∃ c k here, d.tasks[i]? = some ⟨.call c k, here⟩ ∧ d.db.Answers c (answer c) ∧
      d' = { d.perform c (answer c) with
        tasks := d.tasks.set i ⟨k (answer c), onboarding.next here c (answer c)⟩ } := by
  simp only [Custody.step] at h
  split at h
  · next c k here hi =>
    split at h
    · next hx => exact ⟨c, k, here, hi, hx, (Option.some_inj.mp h).symm⟩
    · exact absurd h.symm (Option.some_ne_none d')
  · exact absurd h.symm (Option.some_ne_none d')

/-- A command of a pass. -/
theorem step_advancePass_cases
    {answer : (c : MintWorker.Cmd) → Except MintWorker.Thrown c.Resp}
    (h : d.step robinhoodChainId buildExecutorDeployData (.advancePass i answer) = some d') :
    ∃ c k here, d.passes[i]? = some ⟨.call c k, here⟩ ∧ d.db.AnswersPass c (answer c) ∧
      d' = { d with
        passes := d.passes.set i ⟨k (answer c), sessionKeys.next here c (answer c)⟩
        signatures := signatureOf here c (answer c) ++ d.signatures } := by
  simp only [Custody.step] at h
  split at h
  · next c k here hi =>
    split at h
    · next hx => exact ⟨c, k, here, hi, hx, (Option.some_inj.mp h).symm⟩
    · exact absurd h.symm (Option.some_ne_none d')
  · exact absurd h.symm (Option.some_ne_none d')

/-- What a statement does to the session keys. -/
theorem books_next {db : CustodyDb} {owners : List (String × String)}
    {tasks : List (Task signature Thrown ActionState Here)} {c : Cmd}
    {k : Except Thrown c.Resp → Web ActionState} {here : Here} {x : Except Thrown c.Resp}
    (hb : Books db.issued owners tasks) (hi : tasks[i]? = some ⟨.call c k, here⟩)
    (hguard : onboarding.guard here c) (hx : db.Answers c x) :
    Books (db.next c x).issued (owner c x ++ owners)
      (tasks.set i ⟨k x, onboarding.next here c x⟩) := by
  cases x with
  | error e =>
    cases c with
    | createSigner => exact books_quiet hb hi fun _ hc => absurd hc (Option.not_mem_none _)
    | _ => exact books_quiet hb hi fun _ hc => hc
  | ok a =>
    cases c with
    | createCredential => exact books_credential hb hx rfl
    | createSigner input =>
      rcases hguard.2 with ⟨_, hcredential⟩ | ⟨_, hcredential⟩
      · have hnone : owner (.createSigner input) (.ok a) = [] := by simp [owner, hcredential]
        rw [hnone]
        exact books_quiet hb hi fun _ hc => absurd hc (Option.not_mem_none _)
      · cases hheld : here.held with
        | none =>
          have hnone : owner (.createSigner input) (.ok a) = [] := by
            simp [owner, hcredential, hheld]
          rw [hnone]
          exact books_quiet hb hi fun _ hc => absurd hc (Option.not_mem_none _)
        | some credentialId =>
          have hone : owner (.createSigner input) (.ok a) = [(credentialId, a)] := by
            simp [owner, hcredential, hheld]
          rw [hone]
          exact books_signer hb hi hheld rfl
    | _ => exact books_quiet hb hi fun _ hc => hc

theorem Reads.mono {owners owners' : List (String × String)} {revoked revoked' : List String}
    {here : KeysRead} (h : Reads owners revoked here) (howners : owners ⊆ owners')
    (hrevoked : revoked ⊆ revoked') : Reads owners' revoked' here :=
  ⟨fun id hid => hrevoked (h.before id hid), fun s hs hactive =>
    ⟨(h.rows s hs hactive).1, fun c hc => howners ((h.rows s hs hactive).2 c hc)⟩⟩

/-- A statement that meets the condition. -/
theorem sound_advance (hs : Sound d) {c : Cmd} {k : Except Thrown c.Resp → Web ActionState}
    {here : Here} {x : Except Thrown c.Resp} (hi : d.tasks[i]? = some ⟨.call c k, here⟩)
    (hx : d.db.Answers c x) (hφ : Heard d.db.signers here c x) :
    Sound { d.perform c x with tasks := d.tasks.set i ⟨k x, onboarding.next here c x⟩ } := by
  obtain ⟨hguard, hsafe⟩ := safe_advance hi hs.safe (x := x) trivial
  have hhere : Knows d.db.signers here := hs.knows _ (List.mem_of_getElem? hi)
  have hturned := turned_next hs.positive hhere hguard hx hφ
  exact
    { safe := hsafe
      passSafe := hs.passSafe
      moves := fun m hm => (List.mem_append.mp hm).elim (hturned.moves m) (hs.moves m)
      gone := hturned.revoked hs.gone
      equipped := hturned.equipped hs.equipped
      steady := List.append_eq_nil_iff.mpr ⟨hturned.altered, hs.steady⟩
      positive := hturned.positive
      knows := by
        intro t ht
        rcases List.mem_or_eq_of_mem_set ht with ht | rfl
        · exact hturned.knows (hs.knows t ht)
        · exact knows_next hhere hguard hx hturned
      owned := hturned.owned hs.owned
      books := books_next hs.books hi hguard hx
      reads := fun p hp => (hs.reads p hp).mono (List.subset_append_right _ _)
        (List.subset_append_right _ _)
      signed := by
        intro e he
        obtain ⟨o, ho, h⟩ := hs.signed e he
        exact ⟨o, List.mem_append_right _ ho, h⟩ }

/-- What a pass reads of a signer is what the table holds. -/
theorem reads_next (hs : Sound d) {c : MintWorker.Cmd} {here : KeysRead}
    {x : Except MintWorker.Thrown c.Resp} (hreads : Reads d.owners d.revoked here)
    (hx : d.db.AnswersPass c x) : Reads d.owners d.revoked (sessionKeys.next here c x) := by
  cases c with
  | selectSigner id =>
    rcases x with e | _ | s
    · exact hreads
    · exact hreads
    · refine ⟨hreads.before, fun s' hs' hactive => ?_⟩
      rcases List.mem_cons.mp hs' with rfl | hs'
      · have hrow : some s' = (d.db.signers.get? id).map SignerRow.toSigner := hx
        obtain ⟨r, hr, rfl⟩ := Option.map_eq_some_iff.mp hrow.symm
        have hmem := (Table.get?_eq_some.mp hr).1
        refine ⟨fun hbefore => ?_, hs.owned r hmem⟩
        -- whoever has been revoked is so still
        obtain ⟨r', hr', hid, hrevoked⟩ := hs.gone r.id (hreads.before r.id hbefore)
        obtain rfl := Table.eq_of_key hr' hmem hid
        exact SignerStatus.noConfusion (hactive.symm.trans hrevoked)
      · exact hreads.rows s' hs' hactive
  | getCredentialSecret id => rcases x with e | _ | secret <;> exact ⟨hreads.before, hreads.rows⟩
  | _ => exact hreads

/-- A pass signs with the key of a signer that had not been revoked when it began. -/
theorem signed_next {c : MintWorker.Cmd} {here : KeysRead} {x : Except MintWorker.Thrown c.Resp}
    (hreads : Reads d.owners d.revoked here) (hguard : sessionKeys.guard here c) :
    ∀ e ∈ signatureOf here c x, ∃ o ∈ d.owners, e.credentialId = some o.1 ∧
      o.2 ∉ e.revokedBefore := by
  intro e he
  cases c with
  | signExecutorTransaction tx sessionKeyHex =>
    cases x with
    | error => exact absurd he List.not_mem_nil
    | ok signed =>
      obtain ⟨s, hrow, credentialId, ⟨hactive, _, hcredential⟩, hkey⟩ := hguard
      obtain ⟨hbefore, howned⟩ := hreads.rows s hrow hactive
      obtain rfl := List.mem_singleton.mp he
      refine ⟨(credentialId, s.id), howned credentialId hcredential, ?_, hbefore⟩
      show (here.key.filter fun k => k.2 = sessionKeyHex).map Prod.fst = some credentialId
      rw [hkey]
      simp
  | _ => exact absurd he List.not_mem_nil

theorem sound_advancePass (hs : Sound d) {c : MintWorker.Cmd}
    {k : Except MintWorker.Thrown c.Resp → MintWorker.Worker Unit} {here : KeysRead}
    {x : Except MintWorker.Thrown c.Resp} (hi : d.passes[i]? = some ⟨.call c k, here⟩)
    (hx : d.db.AnswersPass c x) :
    Sound { d with
      passes := d.passes.set i ⟨k x, sessionKeys.next here c x⟩
      signatures := signatureOf here c x ++ d.signatures } := by
  obtain ⟨hguard, hsafe⟩ := safe_advance hi hs.passSafe (x := x) trivial
  have hreads := hs.reads _ (List.mem_of_getElem? hi)
  refine { hs with passSafe := hsafe, reads := fun p hp => ?_, signed := fun e he => ?_ }
  · exact of_mem_replace hp hs.reads (reads_next hs hreads hx)
  · rcases List.mem_append.mp he with he | he
    · exact signed_next hreads hguard e he
    · exact hs.signed e he

/-- **Step.** -/
theorem sound_step (hs : Sound d) {l : CustodyStep} (hφ : Orderly d l)
    (h : d.step robinhoodChainId buildExecutorDeployData l = some d') : Sound d' := by
  cases l with
  | enter action =>
    obtain rfl := Option.some_inj.mp h
    -- a new action knows of no signer
    have hnone : Knows d.db.signers ⟨none, none, none⟩ :=
      ⟨fun _ hid => absurd hid (Option.not_mem_none _), fun _ hid => absurd hid (Option.not_mem_none _)⟩
    refine { hs with safe := fun t ht => ?_, knows := fun t ht => ?_, books := ?_ }
    · exact of_mem_enter ht hs.safe (action_wp action)
    · exact of_mem_enter ht hs.knows hnone
    · -- the new action holds nothing
      refine ⟨hs.books.once, hs.books.stored, fun t ht c hc => ?_, fun i j t u c hi hj ht hu => ?_⟩
      · rcases List.mem_append.mp ht with ht | ht
        · exact hs.books.held t ht c hc
        · rw [List.mem_singleton.mp ht] at hc
          exact absurd hc (Option.not_mem_none c)
      · have hold : ∀ {n : ℕ} {w}, (d.tasks ++
            [⟨action.prog robinhoodChainId buildExecutorDeployData, ⟨none, none, none⟩⟩])[n]? = some w →
            c ∈ w.here.held → d.tasks[n]? = some w := by
          intro n w hn hw
          rcases getElem?_append_cases hn with hn | rfl
          · exact hn
          · exact absurd hw (Option.not_mem_none c)
        exact hs.books.alone i j t u c (hold hi ht) (hold hj hu) ht hu
  | advance i answer =>
    obtain ⟨c, k, here, hi, hx, rfl⟩ := step_advance_cases h
    exact sound_advance hs hi hx ((atCommand_iff hi).mp hφ)
  | crash i =>
    obtain ⟨t, ht, rfl⟩ := Option.map_eq_some_iff.mp h
    refine { hs with
      safe := fun u hu => ?_, knows := fun u hu => ?_
      books := books_quiet hs.books ht fun _ hc => hc }
    · rcases List.mem_or_eq_of_mem_set hu with hu | rfl
      · exact hs.safe u hu
      · trivial
    · exact of_mem_replace hu hs.knows (hs.knows t (List.mem_of_getElem? ht))
  | fire config =>
    obtain rfl := Option.some_inj.mp h
    -- a new pass has read no row
    refine { hs with passSafe := fun p hp => ?_, reads := fun p hp => ?_ }
    · exact of_mem_enter hp hs.passSafe MintWorker.firePass_keys
    · exact of_mem_enter hp hs.reads
        ⟨fun _ hid => hid, fun s hrow => absurd hrow List.not_mem_nil⟩
  | advancePass i answer =>
    obtain ⟨c, k, here, hi, hx, rfl⟩ := step_advancePass_cases h
    exact sound_advancePass hs hi hx
  | crashPass i =>
    obtain ⟨p, hp, rfl⟩ := Option.map_eq_some_iff.mp h
    refine { hs with passSafe := fun q hq => ?_, reads := fun q hq => ?_ }
    · rcases List.mem_or_eq_of_mem_set hq with hq | rfl
      · exact hs.passSafe q hq
      · trivial
    · exact of_mem_replace hq hs.reads (hs.reads p (List.mem_of_getElem? hp))

theorem sound_init : Sound Custody.init := by
  have hempty : ∀ r : SignerRow, r ∉ Custody.init.db.signers := fun r => Table.not_mem_empty
  exact
    { safe := fun _ h => absurd h List.not_mem_nil
      passSafe := fun _ h => absurd h List.not_mem_nil
      moves := fun _ h => absurd h List.not_mem_nil
      gone := fun _ h => absurd h List.not_mem_nil
      equipped := fun r hr => absurd hr (hempty r)
      steady := rfl
      positive := fun r hr => absurd hr (hempty r)
      knows := fun _ h => absurd h List.not_mem_nil
      owned := fun r hr => absurd hr (hempty r)
      books :=
        { once := fun _ h => absurd h List.not_mem_nil
          stored := fun _ h => absurd h List.not_mem_nil
          held := fun _ h => absurd h List.not_mem_nil
          alone := fun _ _ _ _ _ h => absurd (List.mem_of_getElem? h) List.not_mem_nil }
      reads := fun _ h => absurd h List.not_mem_nil
      signed := fun _ h => absurd h List.not_mem_nil }

theorem Sound.revokeFinal (hs : Sound d) : RevokeFinal d := by
  refine ⟨hs.moves, fun r hr hid => ?_, fun e he => ?_, hs.equipped, hs.steady⟩
  · obtain ⟨r', hr', hkey, hrevoked⟩ := hs.gone r.id hid
    rwa [Table.eq_of_key hr' hr hkey] at hrevoked
  · obtain ⟨o, ho, hcredential, hbefore⟩ := hs.signed e he
    refine ⟨o.1, hcredential, fun o' ho' heq => ?_⟩
    rwa [hs.books.once o' ho' o ho heq]

/-- **Run.**  In every run whose steps all meet the condition, revoking a signer is final. -/
theorem revokeFinal_of_reach
    (h : Transition.Reach (Custody.step robinhoodChainId buildExecutorDeployData) Orderly
      Custody.init d) : RevokeFinal d :=
  (h.invariant sound_init fun _ _ _ _ hs hφ hstep => sound_step hs hφ hstep).revokeFinal

end

/-! ### Samples -/

namespace Sample

def address : String := "0x00000000000000000000000000000000000000ab"

/-- The row of the sample's signer. -/
def row (status : SignerStatus) (ceiling : Option ℕ) : SignerRow :=
  { id := "s", status := status, scheme := .customExecutor, onchainSpendCeilingWei := ceiling
    delegateContractAddress := some address, sessionKeyCredentialId := some "credential"
    chainId := 4663, ownerAddress := address }

/-- Everything is answered; `getSigner` finds this row. -/
def answering (signer : Option SignerRow) : (c : Cmd) → Except Thrown c.Resp
  | .requireApi _ => .ok "admin"
  | .requireFreshStepUp _ => .ok "admin"
  | .generateSessionKey => .ok ⟨"session", "0xcd"⟩
  | .createCredential _ => .ok "credential"
  | .revokeCredential _ => .ok true
  | .createSigner _ => .ok "s"
  | .getSigner _ => .ok signer
  | .setSignerDelegateContract .. => .ok ()
  | .setSignerOnchainCeiling .. => .ok ()
  | .activateSigner _ => .ok ()
  | .revokeSigner _ => .ok ()
  | .recordAudit _ => .ok ()

/-- A plan of the signer is due, and everything works. -/
def passAnswering (signer : Option SignerRow) :
    (c : MintWorker.Cmd) → Except MintWorker.Thrown c.Resp
  | .claimArmedMintPlan .. => .ok (some { MintWorker.Sample.plan with signerId := some "s" })
  | .selectSigner _ => .ok (signer.map SignerRow.toSigner)
  | c => MintWorker.Sample.answer c

/-- The `i`-th action, up to its `n`-th statement. -/
def taken (i : ℕ) (action : Action) (signer : Option SignerRow) (n : ℕ) : List CustodyStep :=
  .enter action :: List.replicate n (.advance i (answering signer))

/-- The `i`-th pass, up to its signature when it makes one. -/
def fired (i : ℕ) (signer : Option SignerRow) : List CustodyStep :=
  .fire MintWorker.Sample.config :: List.replicate 20 (.advancePass i (passAnswering signer))

/-- A signer is set up. -/
def onboarded : List CustodyStep :=
  taken 0 (.startExecutorOnboarding address) none 5 ++
    taken 1 (.recordExecutorDeployed "s" address) none 3 ++
    taken 2 (.activateExecutorSigner "s" "1000") (some (row .pending none)) 5

end Sample

/-- A signer is set up and fired with, and revoked; the next pass does without. -/
theorem revokeFinal_of_reach_revoked :
    ∃ d, Transition.Reach (Custody.step 4663 id) Orderly Custody.init d ∧ "s" ∈ d.revoked ∧
      d.signatures = [⟨some "credential", []⟩] ∧ d.passes.length = 2 ∧ RevokeFinal d := by
  obtain ⟨d, hreach, hd⟩ := Transition.exists_reach_of_run (Custody.step 4663 id) Orderly
    Custody.init
    (Sample.onboarded ++ Sample.fired 0 (some (Sample.row .active (some 1000))) ++
      Sample.taken 3 (.revokeSigner "s") none 3 ++
      Sample.fired 1 (some (Sample.row .revoked (some 1000))))
    (fun d => "s" ∈ d.revoked ∧ d.signatures = [⟨some "credential", []⟩] ∧ d.passes.length = 2)
    (by decide +kernel) (by decide +kernel)
  obtain ⟨hrevoked, hsigned, hpasses⟩ := of_decide_eq_true hd
  exact ⟨d, hreach, hrevoked, hsigned, hpasses, revokeFinal_of_reach hreach⟩

/-- A revoked signer is activated once more, and a later pass signs with its session key; and the
contract of an active signer is replaced. -/
theorem revoked_signs_again :
    (∃ d, Transition.Reachable (Custody.step 4663 id) Custody.init d ∧
      (some .revoked, .active) ∈ d.moves ∧ ("credential", "s") ∈ d.owners ∧
      ∃ e ∈ d.signatures, e.credentialId = some "credential" ∧ "s" ∈ e.revokedBefore) ∧
    (∃ d, Transition.Reachable (Custody.step 4663 id) Custody.init d ∧ d.altered = ["s"]) ∧
    ¬ ∀ robinhoodChainId buildExecutorDeployData d,
      Transition.Reachable (Custody.step robinhoodChainId buildExecutorDeployData) Custody.init d →
        RevokeFinal d := by
  have haltered : ∃ d, Transition.Reachable (Custody.step 4663 id) Custody.init d ∧
      d.altered = ["s"] := by
    obtain ⟨d, hreach, hd⟩ := Transition.exists_reachable_of_run (Custody.step 4663 id) Custody.init
      (Sample.onboarded ++
        Sample.taken 3 (.recordExecutorDeployed "s" "0x00000000000000000000000000000000000000cd")
          none 2)
      (fun d => d.altered = ["s"]) (by decide +kernel)
    exact ⟨d, hreach, of_decide_eq_true hd⟩
  refine ⟨?_, haltered, fun h => ?_⟩
  · obtain ⟨d, hreach, hd⟩ := Transition.exists_reachable_of_run (Custody.step 4663 id) Custody.init
      (Sample.onboarded ++ Sample.taken 3 (.revokeSigner "s") none 3 ++
        Sample.taken 4 (.activateExecutorSigner "s" "1000")
          (some (Sample.row .revoked (some 1000))) 5 ++
        Sample.fired 0 (some (Sample.row .active (some 1000))))
      (fun d => (some .revoked, .active) ∈ d.moves ∧ ("credential", "s") ∈ d.owners ∧
        ∃ e ∈ d.signatures, e.credentialId = some "credential" ∧ "s" ∈ e.revokedBefore)
      (by decide +kernel)
    exact ⟨d, hreach, of_decide_eq_true hd⟩
  · obtain ⟨d, hreach, hd⟩ := haltered
    have hsteady := (h 4663 id d hreach).steady
    rw [hd] at hsteady
    exact absurd hsteady (List.cons_ne_nil _ _)

end SignerCustody
