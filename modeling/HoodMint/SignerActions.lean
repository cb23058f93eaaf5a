/-
The console's actions on signers (`apps/web/src/app/actions.ts`,
`packages/db/src/repositories/execution.ts`).

A delegated signer is set up in three actions: one stores a session key and a pending row, one
records the contract the owner has deployed, one activates the row.  Every statement is an
`UPDATE … WHERE id`, and none looks at the row's status.

* `startExecutorOnboardingAction`, `recordExecutorDeployedAction`, `activateExecutorSignerAction`,
  `registerBrowserSignerAction`, `revokeSignerAction`, `revokeCredentialAction`;
* `CustodyDb` — the tables, what they answer and what the statements do to them;
* `onboarding` — what an action has found and written by the time it issues a statement;
  `action_wp`: every action keeps to it.
-/
import HoodMint.ExecutionEffects
import HoodMint.Lib.Table
import HoodMint.Lib.Text

namespace SignerCustody

open Effect Relational
open MintWorker (SignerScheme SignerStatus)

/-! ### Text -/

/-- `/^0x[0-9a-f]{40}$/`. -/
@[irreducible] def isEvmAddress (text : String) : Bool :=
  match text.toList with
  | '0' :: 'x' :: digits =>
    digits.length = 40 ∧ digits.all fun c => c.isDigit ∨ ('a' ≤ c ∧ c ≤ 'f')
  | _ => false

/-- The value of a digit, in any base up to 36. -/
def digitValue (c : Char) : Option ℕ :=
  if c.isDigit then some (c.toNat - '0'.toNat)
  else if 'a' ≤ c ∧ c ≤ 'z' then some (c.toNat - 'a'.toNat + 10)
  else if 'A' ≤ c ∧ c ≤ 'Z' then some (c.toNat - 'A'.toNat + 10)
  else none

/-- Digits of a base, at least one. -/
def readDigits (base : ℕ) (digits : List Char) : Option ℕ :=
  if digits = [] then none
  else digits.foldlM (fun n c => do
    let d ← digitValue c
    if d < base then some (n * base + d) else none) 0

/-- `BigInt(text)`; nothing where that throws. -/
@[irreducible] def bigInt (text : String) : Option ℤ :=
  match (Text.trim text).toList with
  | [] => some 0
  | '0' :: 'x' :: digits | '0' :: 'X' :: digits => (readDigits 16 digits).map Int.ofNat
  | '0' :: 'o' :: digits | '0' :: 'O' :: digits => (readDigits 8 digits).map Int.ofNat
  | '0' :: 'b' :: digits | '0' :: 'B' :: digits => (readDigits 2 digits).map Int.ofNat
  | '+' :: digits => (readDigits 10 digits).map Int.ofNat
  | '-' :: digits => (readDigits 10 digits).map fun n => -(n : ℤ)
  | digits => (readDigits 10 digits).map Int.ofNat

example : bigInt " 0x1F " = some 31 ∧ bigInt "-7" = some (-7) ∧ bigInt "1.5" = none := by
  decide +kernel

/-! ### Commands -/

/-- `generateSessionKey()`. -/
structure SessionKey where
  privateKeyHex : String
  address : String
deriving DecidableEq

structure CreateCredentialInput where
  type : String
  name : String
  secret : String
  createdBy : String
  operatorAddress : String
deriving DecidableEq

structure CreateSignerInput where
  chainId : ℕ
  ownerAddress : String
  scheme : SignerScheme
  delegateContractAddress : Option String := none
  sessionKeyCredentialId : Option String := none
  onchainSpendCeilingWei : Option ℕ := none
deriving DecidableEq

/-- A row of `signers`: what the worker reads of it, and the rest. -/
structure SignerRow extends MintWorker.Signer where
  chainId : ℕ
  ownerAddress : String
deriving DecidableEq

structure AuditEntry where
  actorUserId : String
  action : String
  targetType : String
  targetId : String
  result : String
  metadata : List (String × String)
deriving DecidableEq

/-- What an action can ask for. -/
inductive Cmd
  | requireApi (action : String)
  | requireFreshStepUp (action : String)
  | generateSessionKey
  | createCredential (input : CreateCredentialInput)
  | revokeCredential (id : String)
  | createSigner (input : CreateSignerInput)
  | getSigner (id : String)
  | setSignerDelegateContract (id delegateContractAddress : String)
  | setSignerOnchainCeiling (id : String) (onchainSpendCeilingWei : ℕ)
  | activateSigner (id : String)
  | revokeSigner (id : String)
  | recordAudit (entry : AuditEntry)
deriving DecidableEq

/-- The answers: the user's id, the ids of new rows, whether a credential was found. -/
abbrev Cmd.Resp : Cmd → Type
  | .requireApi _ | .requireFreshStepUp _ => String
  | .generateSessionKey => SessionKey
  | .createCredential _ | .createSigner _ => String
  | .revokeCredential _ => Bool
  | .getSigner _ => Option SignerRow
  | .setSignerDelegateContract .. | .setSignerOnchainCeiling .. | .activateSigner _
  | .revokeSigner _ | .recordAudit _ => Unit

/-- What is thrown: an `AppError`, or something else. -/
inductive Thrown
  | app (message : String)
  | other
deriving DecidableEq

abbrev signature : Signature := ⟨Cmd, Cmd.Resp⟩

abbrev Web (α : Type) := Prog signature Thrown α

/-- Issue a command. -/
abbrev ask (c : Cmd) : Web c.Resp := Prog.issue (S := signature) c

/-! ### Actions -/

structure ExecutorOnboardingStart where
  signerId : String
  operatorAddress : String
  deployData : String
  chainId : ℕ
deriving DecidableEq

/-- `ActionState`. -/
structure ActionState where
  ok : Bool
  message : String
  data : Option ExecutorOnboardingStart := none
deriving DecidableEq

/-- An action that any user with the role may take. -/
def withApi (action : String) (rest : String → Web ActionState) : Web ActionState := do
  match ← (ask (.requireApi action)).attempt with
  | .error _ => return { ok := false, message := "Insufficient role." }
  | .ok actor => rest actor

/-- An action that needs a fresh step-up. -/
def withStepUp (action : String) (rest : String → Web ActionState) : Web ActionState := do
  match ← (ask (.requireFreshStepUp action)).attempt with
  | .error (.app message) => return { ok := false, message }
  | .error .other => return { ok := false, message := "Step-up re-authentication required." }
  | .ok actor => rest actor

/-- An action on an address, as it is typed. -/
def withAddress (text message : String) (rest : String → Web ActionState) : Web ActionState :=
  if isEvmAddress (Text.lower (Text.trim text)) then rest (Text.lower (Text.trim text))
  else return { ok := false, message }

def registerBrowserSignerAction (chainId : ℕ) (ownerAddress : String) : Web ActionState :=
  withApi "execution:configure" fun actor =>
    withAddress ownerAddress "Invalid EVM address." fun address => do
      let id ← ask (.createSigner { chainId, ownerAddress := address, scheme := .browserWallet })
      ask (.recordAudit ⟨actor, "execution.signer.create", "signer", id, "success",
        [("chainId", toString chainId), ("scheme", "browser_wallet")]⟩)
      return { ok := true, message := "Browser-wallet signer registered." }

def revokeSignerAction (id : String) : Web ActionState :=
  withApi "execution:configure" fun actor => do
    ask (.revokeSigner id)
    ask (.recordAudit ⟨actor, "execution.signer.revoke", "signer", id, "success", []⟩)
    return { ok := true, message := "Signer revoked." }

def revokeCredentialAction (id : String) : Web ActionState :=
  withApi "credentials:manage" fun actor => do
    let revoked ← ask (.revokeCredential id)
    ask (.recordAudit ⟨actor, "credential.revoke", "credential", id,
      if revoked then "success" else "failure", []⟩)
    return { ok := revoked
             message := if revoked then "Credential revoked." else "Credential not found." }

section

variable (robinhoodChainId : ℕ) (buildExecutorDeployData : String → String)

def startExecutorOnboardingAction (ownerAddress : String) : Web ActionState :=
  withStepUp "execution:configure" fun actor =>
    withAddress ownerAddress "Invalid EVM address." fun owner => do
      let generated ← ask .generateSessionKey
      let credentialId ← ask (.createCredential
        { type := "delegated_session_key"
          name := "Executor operator (" ++ String.ofList (owner.toList.take 10) ++ "…)"
          secret := generated.privateKeyHex, createdBy := actor
          operatorAddress := generated.address })
      let signerId ← ask (.createSigner
        { chainId := robinhoodChainId, ownerAddress := owner, scheme := .customExecutor
          sessionKeyCredentialId := some credentialId })
      ask (.recordAudit ⟨actor, "execution.executor.onboarding_started", "signer", signerId,
        "success", [("operatorAddress", generated.address)]⟩)
      return { ok := true
               message := "Session key generated. Deploy the Executor from your own wallet next."
               data := some ⟨signerId, generated.address, buildExecutorDeployData owner,
                 robinhoodChainId⟩ }

end

def recordExecutorDeployedAction (signerId executorAddress : String) : Web ActionState :=
  withStepUp "execution:configure" fun actor =>
    withAddress executorAddress "Invalid Executor contract address." fun address => do
      ask (.setSignerDelegateContract signerId address)
      ask (.recordAudit ⟨actor, "execution.executor.deployed", "signer", signerId, "success",
        [("executorAddress", address)]⟩)
      return { ok := true, message := "Executor address recorded. Call setOperator next." }

/-- The signer is found, is an executor's, and its contract has been recorded. -/
def refusal (signer : Option SignerRow) : Option String :=
  match signer with
  | none => some "Signer not found or not a custom_executor scheme."
  | some signer =>
    if signer.scheme ≠ .customExecutor then
      some "Signer not found or not a custom_executor scheme."
    else if signer.delegateContractAddress = none then
      some "Executor address not recorded yet — complete deployment first."
    else none

def activateExecutorSignerAction (signerId onchainSpendCeilingWei : String) : Web ActionState :=
  withStepUp "execution:configure" fun actor => do
    let signer ← ask (.getSigner signerId)
    match refusal signer with
    | some message => return { ok := false, message }
    | none =>
      match bigInt onchainSpendCeilingWei with
      | none => return { ok := false, message := "Invalid spend ceiling." }
      | some cap =>
        if cap ≤ 0 then return { ok := false, message := "Spend ceiling must be positive." }
        else do
          ask (.setSignerOnchainCeiling signerId cap.toNat)
          ask (.activateSigner signerId)
          ask (.recordAudit ⟨actor, "execution.executor.activated", "signer", signerId, "success",
            [("onchainSpendCeilingWei", toString cap)]⟩)
          return { ok := true
                   message :=
                     "Signer activated — the worker can now use it for live execution." }

/-! ### The tables -/

/-- `signers`. -/
abbrev Signers := Table SignerRow String fun r => r.id

/-- The row that `createSigner` inserts. -/
def CreateSignerInput.row (input : CreateSignerInput) (id : String) : SignerRow :=
  { id, scheme := input.scheme, chainId := input.chainId
    status := if input.scheme = .browserWallet then .active else .pending
    ownerAddress := Text.lower input.ownerAddress
    delegateContractAddress := input.delegateContractAddress
    sessionKeyCredentialId := input.sessionKeyCredentialId
    onchainSpendCeilingWei := input.onchainSpendCeilingWei }

namespace Signers

variable (t : Signers) (id : String)

def setSignerDelegateContract (delegateContractAddress : String) : Signers :=
  t.update (fun r => r.id = id)
    (fun r => { r with delegateContractAddress := some (Text.lower delegateContractAddress) })
    fun _ => rfl

def setSignerOnchainCeiling (onchainSpendCeilingWei : ℕ) : Signers :=
  t.update (fun r => r.id = id)
    (fun r => { r with onchainSpendCeilingWei := some onchainSpendCeilingWei }) fun _ => rfl

def activateSigner : Signers :=
  t.update (fun r => r.id = id) (fun r => { r with status := .active }) fun _ => rfl

def revokeSigner : Signers :=
  t.update (fun r => r.id = id) (fun r => { r with status := .revoked }) fun _ => rfl

/-- `ON DELETE SET NULL`, when a credential is deleted. -/
def forgetCredential (credentialId : String) : Signers :=
  t.update (fun r => r.sessionKeyCredentialId = some credentialId)
    (fun r => { r with sessionKeyCredentialId := none }) fun _ => rfl

end Signers

/-- The signers, the ids of the credentials, and all the ids credentials have ever had. -/
structure CustodyDb where
  signers : Signers
  credentials : List String
  issued : List String

namespace CustodyDb

/-- What a statement may answer: ids are new, and a signer's credential exists. -/
def Answers (db : CustodyDb) (c : Cmd) (x : Except Thrown c.Resp) : Prop :=
  match c, x with
  | .createCredential _, .ok id => (id : String) ∉ db.issued
  | .createSigner input, .ok id =>
    (∀ r ∈ db.signers, r.id ≠ id) ∧ ∀ c ∈ input.sessionKeyCredentialId, c ∈ db.credentials
  | .getSigner id, .ok row => (row : Option SignerRow) = db.signers.get? id
  | .revokeCredential id, .ok found => (found : Bool) = decide (id ∈ db.credentials)
  | _, _ => True

instance (db : CustodyDb) (c : Cmd) (x : Except Thrown c.Resp) : Decidable (db.Answers c x) := by
  cases x with
  | error e => cases c <;> exact isTrue trivial
  | ok a =>
    induction c using Cmd.casesOn with
    | createCredential => exact (inferInstance : Decidable ((a : String) ∉ db.issued))
    | createSigner input =>
      exact (inferInstance : Decidable ((∀ r ∈ db.signers, r.id ≠ a) ∧
        ∀ c ∈ input.sessionKeyCredentialId, c ∈ db.credentials))
    | getSigner id => exact (inferInstance : Decidable ((a : Option SignerRow) = db.signers.get? id))
    | revokeCredential id =>
      exact (inferInstance : Decidable ((a : Bool) = decide (id ∈ db.credentials)))
    | _ => exact isTrue trivial

/-- The tables after a statement; one that fails has not been executed. -/
def next (db : CustodyDb) (c : Cmd) (x : Except Thrown c.Resp) : CustodyDb :=
  match c, x with
  | .createCredential _, .ok id =>
    { db with credentials := id :: db.credentials, issued := id :: db.issued }
  | .revokeCredential id, .ok _ =>
    { db with credentials := db.credentials.filter (· ≠ id)
              signers := db.signers.forgetCredential id }
  | .createSigner input, .ok id => { db with signers := db.signers.insert (input.row id) }
  | .setSignerDelegateContract id address, .ok _ =>
    { db with signers := db.signers.setSignerDelegateContract id address }
  | .setSignerOnchainCeiling id wei, .ok _ =>
    { db with signers := db.signers.setSignerOnchainCeiling id wei }
  | .activateSigner id, .ok _ => { db with signers := db.signers.activateSigner id }
  | .revokeSigner id, .ok _ => { db with signers := db.signers.revokeSigner id }
  | _, _ => db

end CustodyDb

/-! ### What an action goes by -/

/-- The credential an action has stored and given to no signer yet, the signer it has found to be
an executor's with its contract recorded, and the one whose ceiling it has written. -/
structure Here where
  held : Option String
  checked : Option String
  ceiled : Option String
deriving DecidableEq

/-- A signer is created with the credential held; only a signer that has been checked is given a
ceiling, a positive one, and only one that has its ceiling is activated. -/
def onboarding : Monitor signature Thrown Here where
  guard here c :=
    match c with
    | .createSigner input => input.onchainSpendCeilingWei = none ∧
        (input.scheme = .browserWallet ∧ input.sessionKeyCredentialId = none ∨
          input.scheme = .customExecutor ∧ input.sessionKeyCredentialId = here.held)
    | .setSignerOnchainCeiling id wei => 0 < wei ∧ here.checked = some id
    | .activateSigner id => here.checked = some id ∧ here.ceiled = some id
    | _ => True
  allowed _ _ _ := True
  next here c x :=
    match c, x with
    | .createCredential _, .ok id => { here with held := some id }
    | .createSigner _, _ => { here with held := none }
    | .getSigner id, .ok signer => { here with checked := if refusal signer = none then some id else none }
    | .setSignerOnchainCeiling id _, .ok _ => { here with ceiled := some id }
    | _, _ => here

/-- The actions on signers. -/
inductive Action
  | registerBrowserSigner (chainId : ℕ) (ownerAddress : String)
  | startExecutorOnboarding (ownerAddress : String)
  | recordExecutorDeployed (signerId executorAddress : String)
  | activateExecutorSigner (signerId onchainSpendCeilingWei : String)
  | revokeSigner (id : String)
  | revokeCredential (id : String)

/-- The action's program. -/
def Action.prog (robinhoodChainId : ℕ) (buildExecutorDeployData : String → String) :
    Action → Web ActionState
  | .registerBrowserSigner chainId ownerAddress => registerBrowserSignerAction chainId ownerAddress
  | .startExecutorOnboarding ownerAddress =>
    startExecutorOnboardingAction robinhoodChainId buildExecutorDeployData ownerAddress
  | .recordExecutorDeployed signerId executorAddress =>
    recordExecutorDeployedAction signerId executorAddress
  | .activateExecutorSigner signerId onchainSpendCeilingWei =>
    activateExecutorSignerAction signerId onchainSpendCeilingWei
  | .revokeSigner id => revokeSignerAction id
  | .revokeCredential id => revokeCredentialAction id

section

variable {here : Here} {name : String} {rest : String → Web ActionState}

/-- Whoever is let through keeps to it. -/
theorem withApi_wp (hrest : ∀ actor, (rest actor).wp onboarding (fun _ _ => True) here) :
    (withApi name rest).wp onboarding (fun _ _ => True) here := by
  refine Prog.wp_bind_of (R := fun _ here' => here' = here) ?_ ?_ fun _ _ _ => trivial
  · exact Prog.wp_attempt.mpr (Prog.wp_issue.mpr ⟨trivial, fun _ _ => rfl⟩)
  · rintro (e | actor) _ rfl
    · trivial
    · exact hrest actor

theorem withStepUp_wp (hrest : ∀ actor, (rest actor).wp onboarding (fun _ _ => True) here) :
    (withStepUp name rest).wp onboarding (fun _ _ => True) here := by
  refine Prog.wp_bind_of (R := fun _ here' => here' = here) ?_ ?_ fun _ _ _ => trivial
  · exact Prog.wp_attempt.mpr (Prog.wp_issue.mpr ⟨trivial, fun _ _ => rfl⟩)
  · rintro ((message | _) | actor) _ rfl
    · trivial
    · trivial
    · exact hrest actor

theorem withAddress_wp {text : String}
    (hrest : ∀ address, (rest address).wp onboarding (fun _ _ => True) here) :
    (withAddress text name rest).wp onboarding (fun _ _ => True) here :=
  Prog.wp_ite (fun _ => hrest _) fun _ => trivial

/-- An audit row, and the end. -/
theorem audited_wp {entry : AuditEntry} {state : ActionState} :
    (do ask (.recordAudit entry); return state : Web ActionState).wp onboarding
      (fun _ _ => True) here :=
  Prog.wp_issue_bind trivial (fun _ _ => trivial) fun _ _ => trivial

theorem registerBrowserSignerAction_wp {chainId : ℕ} {ownerAddress : String} :
    (registerBrowserSignerAction chainId ownerAddress).wp onboarding (fun _ _ => True) here := by
  refine withApi_wp fun _ => withAddress_wp fun _ => ?_
  exact Prog.wp_issue_bind ⟨rfl, Or.inl ⟨rfl, rfl⟩⟩ (fun _ _ => audited_wp) fun _ _ => trivial

theorem startExecutorOnboardingAction_wp {robinhoodChainId : ℕ}
    {buildExecutorDeployData : String → String} {ownerAddress : String} :
    (startExecutorOnboardingAction robinhoodChainId buildExecutorDeployData ownerAddress).wp
      onboarding (fun _ _ => True) here := by
  refine withStepUp_wp fun _ => withAddress_wp fun _ => ?_
  refine Prog.wp_issue_bind trivial (fun generated _ => ?_) fun _ _ => trivial
  refine Prog.wp_issue_bind trivial (fun credentialId _ => ?_) fun _ _ => trivial
  -- the signer is created with the credential just stored
  exact Prog.wp_issue_bind ⟨rfl, Or.inr ⟨rfl, rfl⟩⟩ (fun _ _ => audited_wp) fun _ _ => trivial

theorem recordExecutorDeployedAction_wp {signerId executorAddress : String} :
    (recordExecutorDeployedAction signerId executorAddress).wp onboarding (fun _ _ => True)
      here := by
  refine withStepUp_wp fun _ => withAddress_wp fun _ => ?_
  exact Prog.wp_issue_bind trivial (fun _ _ => audited_wp) fun _ _ => trivial

theorem activateExecutorSignerAction_wp {signerId onchainSpendCeilingWei : String} :
    (activateExecutorSignerAction signerId onchainSpendCeilingWei).wp onboarding (fun _ _ => True)
      here := by
  refine withStepUp_wp fun actor => ?_
  refine Prog.wp_issue_bind trivial (fun signer _ => ?_) fun _ _ => trivial
  split
  · trivial
  · next hchecked =>
    split
    · trivial
    · next cap _ =>
      refine Prog.wp_ite (fun _ => trivial) fun hcap => ?_
      have hpositive : 0 < cap.toNat := by omega
      have hfound : (onboarding.next here (.getSigner signerId) (.ok signer)).checked =
          some signerId := if_pos hchecked
      refine Prog.wp_issue_bind ⟨hpositive, hfound⟩ (fun _ _ => ?_) fun _ _ => trivial
      exact Prog.wp_issue_bind ⟨hfound, rfl⟩ (fun _ _ => audited_wp) fun _ _ => trivial

theorem revokeSignerAction_wp {id : String} :
    (revokeSignerAction id).wp onboarding (fun _ _ => True) here :=
  withApi_wp fun _ => Prog.wp_issue_bind trivial (fun _ _ => audited_wp) fun _ _ => trivial

theorem revokeCredentialAction_wp {id : String} :
    (revokeCredentialAction id).wp onboarding (fun _ _ => True) here :=
  withApi_wp fun _ => Prog.wp_issue_bind trivial (fun _ _ => audited_wp) fun _ _ => trivial

/-- **Every action** keeps to the order of its statements. -/
theorem action_wp {robinhoodChainId : ℕ} {buildExecutorDeployData : String → String}
    (action : Action) :
    (action.prog robinhoodChainId buildExecutorDeployData).wp onboarding (fun _ _ => True)
      here := by
  cases action with
  | registerBrowserSigner => exact registerBrowserSignerAction_wp
  | startExecutorOnboarding => exact startExecutorOnboardingAction_wp
  | recordExecutorDeployed => exact recordExecutorDeployedAction_wp
  | activateExecutorSigner => exact activateExecutorSignerAction_wp
  | revokeSigner => exact revokeSignerAction_wp
  | revokeCredential => exact revokeCredentialAction_wp

end

end SignerCustody
