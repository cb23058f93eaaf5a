/-
What the console writes of wallets (`apps/web/src/app/actions.ts`,
`packages/db/src/repositories/wallets.ts`).

Both actions write before they have made all their checks, without a transaction.

* `World` — what a call meets: the table, the session, and which of its writes fail;
* `createWallet`, `setWalletSigningKey`, `recordAudit` — the writes, each a statement of its own;
* `createWalletsBulkAction`, `importWalletKeyAction` — the actions;
* `untouched_iff` — exactly when an action that is refused leaves the table alone: when its first
  write fails, or nothing that comes after does; `relabelled` — a key of another wallet.

A statement that fails has not been executed.
-/
import HoodMint.SignerActions
import HoodMint.WalletReseal
import Mathlib.Algebra.Order.Ring.Int

namespace WalletActions

open Relational
open SignerCustody (ActionState Thrown isEvmAddress)
open WalletKeys (Crypto Sized sealImported)

/-! ### What a call meets -/

/-- What these actions read and write of a row of `wallets`; one row an address. -/
structure Wallet where
  id : String
  address : String
  label : Option String
  credentialId : Option String
  encryptedSigningKey : Option String
  signingKeyFingerprint : Option String
  signingKeyAddedAt : Option ℤ
  updatedAt : ℤ
deriving DecidableEq

abbrev Wallets := Table Wallet String Wallet.address

inductive Metadata
  | addresses (count : ℕ) (addresses : List String)
  | address (address : String)

structure AuditEntry where
  actorUserId : String
  action : String
  targetType : String
  targetId : Option String
  result : String
  metadata : Metadata

/-- The table, the session, and for each write of the call whether it fails, the id of a row it
inserts, and the clock.  The rows have been stamped before. -/
structure World where
  wallets : Wallets
  requireApi : String → Except Thrown String
  requireFreshStepUp : String → Except Thrown String
  random : Sized 32 × Sized 12
  fails : ℕ → Bool
  newId : ℕ → String
  now : ℕ → ℤ
  now_mono : ∀ {m n : ℕ}, m ≤ n → now m ≤ now n
  stamped : ∀ row ∈ wallets, row.updatedAt < now 0

/-- The tables during a call, and the number of writes so far. -/
structure Db where
  wallets : Wallets
  audits : List AuditEntry
  writes : ℕ

abbrev Web (α : Type) := ExceptT Thrown (StateM Db) α

/-! ### Writes -/

section

variable (w : World)

/-- A statement, or its failure. -/
def write {α : Type} (statement : ℕ → Db → α × Db) : Web α := fun db =>
  if w.fails db.writes then (.error .other, { db with writes := db.writes + 1 })
  else
    let (a, db') := statement db.writes db
    (.ok a, { db' with writes := db.writes + 1 })

/-- `createWallet`. -/
def createWallet (address : String) (label : Option String) (credentialId : Option String := none) :
    Web (Option Wallet) :=
  write w fun n db =>
    let address := Text.lower address
    let row := match db.wallets.get? address with
      | some row =>
        { row with
          label := label.or row.label
          credentialId := credentialId.or row.credentialId
          updatedAt := w.now n }
      | none => ⟨w.newId n, address, label, credentialId, none, none, none, w.now n⟩
    (some row, { db with wallets := db.wallets.upsert row })

/-- `setWalletSigningKey`: whether there was such a wallet. -/
def setWalletSigningKey (walletId sealedJson fingerprint : String) : Web Bool :=
  write w fun n db =>
    (decide (∃ row ∈ db.wallets, row.id = walletId),
      { db with
        wallets := db.wallets.update (fun row => row.id = walletId)
          (fun row =>
            { row with
              encryptedSigningKey := some sealedJson
              signingKeyFingerprint := some fingerprint
              signingKeyAddedAt := some (w.now n)
              updatedAt := w.now n })
          fun _ => rfl })

/-- `recordAudit`. -/
def recordAudit (entry : AuditEntry) : Web Unit :=
  write w fun _ db => ((), { db with audits := entry :: db.audits })

/-! ### A batch -/

structure Entry where
  address : String
  label : Option String
deriving DecidableEq

/-- A label that is not blank. -/
def nonBlank (label : String) : Option String :=
  if Text.trim label = "" then none else some (Text.trim label)

/-- A line of a batch, `0xADDRESS` or `0xADDRESS,label`. -/
def parseLine (i : ℕ) (line : String) : Except String Entry :=
  let addressRaw := String.ofList (line.toList.takeWhile (· ≠ ','))
  let labelRaw := String.ofList ((line.toList.dropWhile (· ≠ ',')).drop 1)
  let address := Text.lower (Text.trim addressRaw)
  if isEvmAddress address then .ok ⟨address, nonBlank labelRaw⟩
  else .error ("Line " ++ toString (i + 1) ++ " is not a valid address (\"" ++ line ++
    "\") — batch rejected, nothing added.")

def parseLines : ℕ → List String → Except String (List Entry)
  | _, [] => .ok []
  | i, line :: lines => do
    let entry ← parseLine i line
    let parsed ← parseLines (i + 1) lines
    return entry :: parsed

/-- The entries of a batch, or why it is rejected. -/
def parseBatch (entries : String) : Except String (List Entry) :=
  let lines := ((entries.toList.splitOn '\n').map fun line => Text.trim (String.ofList line)).filter
    (· ≠ "")
  if lines.length = 0 then .error "Enter at least one wallet, one per line."
  else if 100 < lines.length then
    .error ("Too many lines (" ++ toString lines.length ++ ") — max 100 per submit.")
  else parseLines 0 lines

/-- The wallets of a batch, one after the other. -/
def createWallets : List Entry → Web Unit
  | [] => pure ()
  | entry :: entries => do
    let _ ← createWallet w entry.address entry.label
    createWallets entries

/-- The writes for a batch that is not rejected. -/
def createBatch (actor : String) (parsed : List Entry) : Web ActionState := do
  createWallets w parsed
  recordAudit w ⟨actor, "wallet.bulk_create", "wallet", none, "success",
    .addresses parsed.length (parsed.map (·.address))⟩
  return { ok := true, message := "Added/updated " ++ toString parsed.length ++ " wallets." }

def createWalletsBulkAction (entries : String) : Web ActionState :=
  match w.requireApi "wallets:manage" with
  | .error _ => return { ok := false, message := "Insufficient role." }
  | .ok actor =>
    match parseBatch entries with
    | .error message => return { ok := false, message }
    | .ok parsed => createBatch w actor parsed

/-! ### An import -/

structure ImportInput where
  privateKey : String
  label : Option String
  walletId : Option String

/-- `/^0x[0-9a-f]{64}$/`. -/
def isPrivateKey (text : String) : Bool :=
  match text.toList with
  | '0' :: 'x' :: digits =>
    digits.length = 64 ∧ digits.all fun c => c.isDigit ∨ ('a' ≤ c ∧ c ≤ 'f')
  | _ => false

variable (C : Crypto) (masterKeyB64 : String) (publicKeyB64 : Option String)
  (managedKeyAddress : String → Option String) (fingerprint : String → String)

/-- The key as it is typed, and its address, or why it is rejected. -/
def parseKey (privateKey : String) : Except String (String × String) :=
  let key := Text.lower (Text.trim privateKey)
  if isPrivateKey key then
    match managedKeyAddress key with
    | some address => .ok (key, Text.lower address)
    | none => .error "Could not derive an address from that key."
  else .error "Invalid private key — expected 0x followed by 64 hex chars."

/-- What is sealed, or thrown. -/
def sealKey (key : String) : Except Thrown String :=
  match sealImported C masterKeyB64 publicKeyB64 key w.random.1 w.random.2 with
  | .ok sealedJson => .ok sealedJson
  | .error _ => .error .other

/-- The wallet of a key, and the key in it. -/
def importKey (input : ImportInput) (actor key address : String) : Web ActionState := do
  match ← createWallet w address (input.label.bind nonBlank) with
  | none => return { ok := false, message := "Failed to persist the wallet." }
  | some wallet =>
    if input.walletId.any fun walletId => walletId ≠ "" ∧ walletId ≠ wallet.id then
      return { ok := false, message := "This key does not match the selected wallet's address." }
    else do
      let sealedJson ← (MonadExcept.ofExcept (sealKey w C masterKeyB64 publicKeyB64 key) : Web String)
      let _ ← setWalletSigningKey w wallet.id sealedJson (fingerprint key)
      recordAudit w ⟨actor, "wallet.key_import", "wallet", some address, "success",
        .address address⟩
      return { ok := true
               message := if publicKeyB64.isSome then
                 "Signing key imported and sealed to the worker-only key. Wallet is now managed."
               else "Signing key imported and encrypted (legacy symmetric — set " ++
                 "WALLET_KEY_PUBLIC_KEY for worker-only sealing). Wallet is now managed." }

def importWalletKeyAction (input : ImportInput) : Web ActionState :=
  match w.requireFreshStepUp "execution:configure" with
  | .error (.app message) => return { ok := false, message }
  | .error .other =>
    return { ok := false
             message := "Step-up re-authentication (passkey) required to import a signing key." }
  | .ok actor =>
    match parseKey managedKeyAddress input.privateKey with
    | .error message => return { ok := false, message }
    | .ok (key, address) =>
      importKey w C masterKeyB64 publicKeyB64 fingerprint input actor key address

end

/-! ### What a write leaves -/

/-- A call begins. -/
def World.start (w : World) : Db := ⟨w.wallets, [], 0⟩

variable {w : World} {db db' : Db}

theorem bind_ok {α β : Type} {p : Web α} {f : α → Web β} {a : α} (h : p db = (.ok a, db')) :
    (p >>= f) db = f a db' := by
  show ExceptT.bindCont f (p db).1 (p db).2 = _
  rw [h]
  rfl

theorem bind_error {α β : Type} {p : Web α} {f : α → Web β} {e : Thrown}
    (h : p db = (.error e, db')) : (p >>= f) db = (.error e, db') := by
  show ExceptT.bindCont f (p db).1 (p db).2 = _
  rw [h]
  rfl

/-- A row has been stamped by the call. -/
def Written (w : World) (wallets : Wallets) : Prop := ∃ row ∈ wallets, w.now 0 ≤ row.updatedAt

theorem Written.ne {wallets : Wallets} (h : Written w wallets) : wallets ≠ w.wallets := by
  rintro rfl
  obtain ⟨row, hrow, hle⟩ := h
  exact absurd hle (not_le.mpr (w.stamped row hrow))

theorem createWallet_failed (db : Db) {address : String} {label credentialId : Option String}
    (h : w.fails db.writes = true) : createWallet w address label credentialId db =
      (.error .other, { db with writes := db.writes + 1 }) :=
  if_pos h

theorem createWallet_done (db : Db) (address : String) (label credentialId : Option String)
    (h : w.fails db.writes = false) :
    ∃ row db', createWallet w address label credentialId db = (.ok (some row), db') ∧
      db'.writes = db.writes + 1 ∧ Written w db'.wallets ∧
        row.id = (db.wallets.get? (Text.lower address)).elim (w.newId db.writes) Wallet.id := by
  have hlate := w.now_mono (Nat.zero_le db.writes)
  refine ⟨_, _, if_neg (by simp [h]), rfl, ?_, ?_⟩
  · refine ⟨_, Table.mem_upsert.mpr (Or.inl rfl), ?_⟩
    cases db.wallets.get? (Text.lower address) <;> exact hlate
  · cases db.wallets.get? (Text.lower address) <;> rfl

theorem setWalletSigningKey_failed (db : Db) {walletId sealedJson fingerprint : String}
    (h : w.fails db.writes = true) : setWalletSigningKey w walletId sealedJson fingerprint db =
      (.error .other, { db with writes := db.writes + 1 }) :=
  if_pos h

theorem setWalletSigningKey_done (db : Db) (walletId sealedJson fingerprint : String)
    (h : w.fails db.writes = false) (hwritten : Written w db.wallets) :
    ∃ found db', setWalletSigningKey w walletId sealedJson fingerprint db = (.ok found, db') ∧
      db'.writes = db.writes + 1 ∧ Written w db'.wallets := by
  refine ⟨_, _, if_neg (by simp [h]), rfl, ?_⟩
  obtain ⟨row, hrow, hle⟩ := hwritten
  refine ⟨_, List.mem_map_of_mem hrow, ?_⟩
  by_cases hid : row.id = walletId
  · simp only [if_pos hid]
    exact w.now_mono (Nat.zero_le db.writes)
  · simp only [if_neg hid]
    exact hle

theorem recordAudit_failed (db : Db) {entry : AuditEntry} (h : w.fails db.writes = true) :
    recordAudit w entry db = (.error .other, { db with writes := db.writes + 1 }) :=
  if_pos h

theorem recordAudit_done (db : Db) {entry : AuditEntry} (h : w.fails db.writes = false) :
    ∃ db', recordAudit w entry db = (.ok (), db') ∧ db'.wallets = db.wallets :=
  ⟨_, if_neg (by simp [h]), rfl⟩

/-! ### When nothing is touched -/

/-- `ok: false`, or an exception. -/
def Refused : Except Thrown ActionState → Prop
  | .ok state => state.ok = false
  | .error _ => True

/-- An action that is refused leaves the wallets as they were. -/
def Untouched (w : World) (action : Web ActionState) : Prop :=
  Refused (action w.start).1 → (action w.start).2.wallets = w.wallets

theorem untouched_pure (state : ActionState) : Untouched w (pure state) := fun _ => rfl

/-- Wallets written one after the other: all of them, or those before the first failure. -/
theorem createWallets_cases (entries : List Entry) (db : Db) :
    (∃ db', createWallets w entries db = (.ok (), db') ∧
      db'.writes = db.writes + entries.length ∧
      (∀ n, db.writes ≤ n → n < db.writes + entries.length → w.fails n = false) ∧
      (entries ≠ [] ∨ Written w db.wallets → Written w db'.wallets)) ∨
    ∃ n db', createWallets w entries db = (.error .other, db') ∧
      db.writes ≤ n ∧ n < db.writes + entries.length ∧ w.fails n = true ∧
      (∀ m, db.writes ≤ m → m < n → w.fails m = false) ∧
      (n = db.writes → db'.wallets = db.wallets) ∧
      (db.writes < n ∨ Written w db.wallets → Written w db'.wallets) := by
  induction entries generalizing db with
  | nil => exact Or.inl ⟨db, rfl, rfl, fun n _ _ => by simp_all; omega, fun h => by simpa using h⟩
  | cons entry entries ih =>
    rw [createWallets]
    cases hfails : w.fails db.writes with
    | true =>
      refine Or.inr ⟨db.writes, _, bind_error (createWallet_failed db hfails), le_rfl, ?_, hfails,
        fun m hle hlt => by omega, fun _ => rfl, fun h => h.resolve_left (lt_irrefl _)⟩
      rw [List.length_cons]
      omega
    | false =>
      obtain ⟨row, db₁, hdone, hwrites, hwritten, -⟩ :=
        createWallet_done db entry.address entry.label none hfails
      rw [bind_ok hdone]
      -- the first write has not failed, whatever the others do
      have hfirst : ∀ n, db.writes ≤ n → (db₁.writes ≤ n → w.fails n = false) →
          w.fails n = false := fun n hle h => by
        rcases Nat.eq_or_lt_of_le hle with rfl | hlater
        · exact hfails
        · exact h (by omega)
      rcases ih db₁ with
        ⟨db', hrun, hwrites', hall, hkept⟩ | ⟨n, db', hrun, hle, hlt, hn, hbefore, -, hkept⟩
      · refine Or.inl ⟨db', hrun, ?_, fun n hle hlt => ?_, fun _ => hkept (Or.inr hwritten)⟩
        · rw [hwrites', hwrites, List.length_cons]
          omega
        · rw [List.length_cons] at hlt
          exact hfirst n hle fun hle => hall n hle (by omega)
      · refine Or.inr ⟨n, db', hrun, by omega, ?_, hn,
          fun m hle hlt => hfirst m hle fun hle => hbefore m hle hlt, fun h => by omega,
          fun _ => hkept (Or.inr hwritten)⟩
        rw [List.length_cons]
        omega

/-- Every line of a batch that is not rejected has an entry. -/
theorem parseLines_length {lines : List String} {parsed : List Entry} {i : ℕ}
    (h : parseLines i lines = .ok parsed) : parsed.length = lines.length := by
  induction lines generalizing i parsed with
  | nil =>
    cases h
    rfl
  | cons line lines ih =>
    rw [parseLines] at h
    cases hline : parseLine i line with
    | error message =>
      rw [hline] at h
      cases h
    | ok entry =>
      cases hlines : parseLines (i + 1) lines with
      | error message =>
        rw [hline, hlines] at h
        cases h
      | ok rest =>
        rw [hline, hlines] at h
        cases h
        rw [List.length_cons, List.length_cons, ih hlines]

theorem parseBatch_ne_nil {entries : String} {parsed : List Entry}
    (h : parseBatch entries = .ok parsed) : parsed ≠ [] := by
  rw [parseBatch] at h
  split at h
  · cases h
  · next hempty =>
    split at h
    · cases h
    · intro hnil
      have hlength := parseLines_length h
      rw [hnil] at hlength
      exact hempty hlength.symm

/-- The writes for a batch touch nothing if the first fails, and are not refused if none does. -/
theorem createBatch_untouched (actor : String) {parsed : List Entry} (hne : parsed ≠ []) :
    Untouched w (createBatch w actor parsed) ↔
      w.fails 0 = true ∨ ∀ n ≤ parsed.length, w.fails n = false := by
  have hpos := List.length_pos_iff.mpr hne
  rw [createBatch]
  rcases createWallets_cases parsed w.start with
    ⟨db', hrun, hwrites, hall, hwritten⟩ | ⟨n, db', hrun, -, hlt, hn, hbefore, hfirst, hwritten⟩
  · have hwrites' : db'.writes = parsed.length := hwrites.trans (Nat.zero_add _)
    have hall' : ∀ n < parsed.length, w.fails n = false := fun n hlt =>
      hall n (Nat.zero_le n) (hlt.trans_eq (Nat.zero_add _).symm)
    -- all rows are written, and what fails or not is the audit row
    rw [Untouched, bind_ok hrun]
    cases hfails : w.fails parsed.length with
    | true =>
      rw [bind_error (recordAudit_failed db' (hwrites' ▸ hfails))]
      refine iff_of_false (fun h => (hwritten (Or.inl hne)).ne (h trivial)) ?_
      rintro (hzero | hnone)
      · simp [hall' 0 hpos] at hzero
      · simp [hnone parsed.length le_rfl] at hfails
    | false =>
      obtain ⟨db'', hdone, -⟩ := recordAudit_done db' (hwrites' ▸ hfails)
      rw [bind_ok hdone]
      refine iff_of_true (fun h => by cases h) (Or.inr fun n hle => ?_)
      rcases Nat.eq_or_lt_of_le hle with rfl | hlt
      · exact hfails
      · exact hall' n hlt
  · have hlt' : n < parsed.length := hlt.trans_eq (Nat.zero_add _)
    -- the write of a row fails: those before it stay
    rw [Untouched, bind_error hrun]
    by_cases hzero : n = 0
    · subst hzero
      exact iff_of_true (fun _ => hfirst rfl) (Or.inl hn)
    · have hpos' := Nat.pos_of_ne_zero hzero
      refine iff_of_false (fun h => (hwritten (Or.inl hpos')).ne (h trivial)) ?_
      rintro (hfails | hnone)
      · simp [hbefore 0 le_rfl hpos'] at hfails
      · simp [hnone n hlt'.le] at hn

/-- The batch that is let through to the writes. -/
def World.batch (w : World) (entries : String) : Option (List Entry) :=
  match w.requireApi "wallets:manage" with
  | .ok _ => (parseBatch entries).toOption
  | .error _ => none

/-- Of a batch the first write fails, or none does; the last is that to the audit log. -/
def World.BulkSafe (w : World) (entries : String) : Prop :=
  ∀ parsed ∈ w.batch entries, w.fails 0 = true ∨ ∀ n ≤ parsed.length, w.fails n = false

theorem bulk_untouched_iff (w : World) (entries : String) :
    Untouched w (createWalletsBulkAction w entries) ↔ w.BulkSafe entries := by
  rw [createWalletsBulkAction, World.BulkSafe, World.batch]
  cases w.requireApi "wallets:manage" with
  | error e => exact iff_of_true (untouched_pure _) fun _ h => absurd h (Option.not_mem_none _)
  | ok actor =>
    cases hparsed : parseBatch entries with
    | error message =>
      exact iff_of_true (untouched_pure _) fun _ h => absurd h (Option.not_mem_none _)
    | ok parsed =>
      refine (createBatch_untouched actor (parseBatch_ne_nil hparsed)).trans ⟨fun h parsed' hp => ?_,
        fun h => h parsed rfl⟩
      obtain rfl := Option.some_inj.mp hp
      exact h

section

variable {C : Crypto} {masterKeyB64 : String} {publicKeyB64 : Option String}
  {managedKeyAddress : String → Option String} {fingerprint : String → String}

/-- The wallet that the user has selected, if any, is the one of the address, be it there or
still to come. -/
def World.Selects (w : World) (input : ImportInput) (address : String) : Prop :=
  ∀ walletId ∈ input.walletId, walletId = "" ∨
    walletId = (w.wallets.get? (Text.lower address)).elim (w.newId 0) Wallet.id

/-- The writes for a key touch nothing if the first fails, and are not refused if the key belongs
to the wallet selected, can be sealed, and no write fails. -/
theorem importKey_untouched {input : ImportInput} {actor key address : String} :
    Untouched w (importKey w C masterKeyB64 publicKeyB64 fingerprint input actor key address) ↔
      w.fails 0 = true ∨ w.Selects input address ∧
        (sealKey w C masterKeyB64 publicKeyB64 key).isOk ∧ w.fails 1 = false ∧ w.fails 2 = false := by
  rw [importKey, Untouched]
  cases hfirst : w.fails 0 with
  | true =>
    rw [bind_error (createWallet_failed w.start hfirst)]
    exact iff_of_true (fun _ => rfl) (Or.inl rfl)
  | false =>
    obtain ⟨row, db₁, hdone, hwrites, hwritten, hid⟩ :=
      createWallet_done w.start address (input.label.bind nonBlank) none hfirst
    rw [bind_ok hdone]
    have hrow : row.id = (w.wallets.get? (Text.lower address)).elim (w.newId 0) Wallet.id := hid
    have hselects : (input.walletId.any fun walletId => walletId ≠ "" ∧ walletId ≠ row.id) = false ↔
        w.Selects input address := by
      rw [World.Selects, ← hrow]
      cases input.walletId with
      | none => simp
      | some walletId => simp [or_iff_not_imp_left]
    cases hany : input.walletId.any fun walletId => walletId ≠ "" ∧ walletId ≠ row.id with
    | true =>
      have hnot : ¬w.Selects input address := fun h => by
        rw [hselects.mpr h] at hany
        cases hany
      -- refused, with the wallet of the key's address written
      simp only [hany, if_true]
      exact iff_of_false (fun h => hwritten.ne (h rfl)) (by simp [hnot])
    | false =>
      have hselected := hselects.mp hany
      simp only [hany, Bool.false_eq_true, if_false]
      cases hseal : sealKey w C masterKeyB64 publicKeyB64 key with
      | error e =>
        have hthrow : (MonadExcept.ofExcept (Except.error e : Except Thrown String) : Web String) db₁ =
            (.error e, db₁) := rfl
        rw [bind_error hthrow]
        exact iff_of_false (fun h => hwritten.ne (h trivial)) (by simp [Except.isOk, Except.toBool])
      | ok sealedJson =>
        have hsealed : (MonadExcept.ofExcept (Except.ok sealedJson : Except Thrown String) :
            Web String) db₁ = (.ok sealedJson, db₁) := rfl
        rw [bind_ok hsealed]
        have hwrites₁ : db₁.writes = 1 := hwrites
        cases hsecond : w.fails 1 with
        | true =>
          rw [bind_error (setWalletSigningKey_failed db₁ (hwrites₁ ▸ hsecond))]
          exact iff_of_false (fun h => hwritten.ne (h trivial)) (by simp)
        | false =>
          obtain ⟨found, db₂, hset, hwrites₂, hwritten₂⟩ := setWalletSigningKey_done db₁ row.id
            sealedJson (fingerprint key) (hwrites₁ ▸ hsecond) hwritten
          rw [bind_ok hset]
          have hwrites₂' : db₂.writes = 2 := by omega
          cases hthird : w.fails 2 with
          | true =>
            rw [bind_error (recordAudit_failed db₂ (hwrites₂' ▸ hthird))]
            exact iff_of_false (fun h => hwritten₂.ne (h trivial)) (by simp)
          | false =>
            obtain ⟨db₃, haudit, -⟩ := recordAudit_done db₂ (hwrites₂' ▸ hthird)
            rw [bind_ok haudit]
            exact iff_of_true (fun h => by cases h) (Or.inr ⟨hselected, rfl, rfl, rfl⟩)

/-- The key that is let through to the writes, and its address. -/
def World.key (w : World) (managedKeyAddress : String → Option String) (input : ImportInput) :
    Option (String × String) :=
  match w.requireFreshStepUp "execution:configure" with
  | .ok _ => (parseKey managedKeyAddress input.privateKey).toOption
  | .error _ => none

/-- Of a key the first write fails; or the key belongs to the wallet selected, if any, it can be
sealed, and no write fails. -/
def World.ImportSafe (w : World) (C : Crypto) (masterKeyB64 : String) (publicKeyB64 : Option String)
    (managedKeyAddress : String → Option String) (input : ImportInput) : Prop :=
  ∀ key address, (key, address) ∈ w.key managedKeyAddress input →
    w.fails 0 = true ∨ w.Selects input address ∧
      (sealKey w C masterKeyB64 publicKeyB64 key).isOk ∧ w.fails 1 = false ∧ w.fails 2 = false

theorem import_untouched_iff (w : World) (input : ImportInput) :
    Untouched w (importWalletKeyAction w C masterKeyB64 publicKeyB64 managedKeyAddress fingerprint
      input) ↔ w.ImportSafe C masterKeyB64 publicKeyB64 managedKeyAddress input := by
  rw [importWalletKeyAction, World.ImportSafe, World.key]
  cases w.requireFreshStepUp "execution:configure" with
  | error e =>
    cases e <;> exact iff_of_true (untouched_pure _) fun _ _ h => absurd h (Option.not_mem_none _)
  | ok actor =>
    cases parseKey managedKeyAddress input.privateKey with
    | error message =>
      exact iff_of_true (untouched_pure _) fun _ _ h => absurd h (Option.not_mem_none _)
    | ok parsed =>
      obtain ⟨key, address⟩ := parsed
      refine importKey_untouched.trans ⟨fun h key' address' hp => ?_, fun h => h key address rfl⟩
      obtain ⟨rfl, rfl⟩ := Prod.mk.inj (Option.some_inj.mp hp)
      exact h

end

/-- **A refused action touches nothing** exactly when its first write fails or nothing after it
does: no write, no seal, no check of the wallet selected. -/
theorem untouched_iff (w : World) (C : Crypto) (masterKeyB64 : String) (publicKeyB64 : Option String)
    (managedKeyAddress : String → Option String) (fingerprint : String → String) :
    (∀ entries, Untouched w (createWalletsBulkAction w entries) ↔ w.BulkSafe entries) ∧
    ∀ input, Untouched w (importWalletKeyAction w C masterKeyB64 publicKeyB64 managedKeyAddress
      fingerprint input) ↔ w.ImportSafe C masterKeyB64 publicKeyB64 managedKeyAddress input :=
  ⟨bulk_untouched_iff w, import_untouched_iff w⟩

namespace Sample

/-- Two wallets. -/
def wallets : Wallets where
  rows :=
    [⟨"w1", "0xaaaaaaaaaaaaaaaaaaaaaaaaaaaaaaaaaaaaaaaa", none, none, none, none, none, 0⟩,
      ⟨"w2", "0xbbbbbbbbbbbbbbbbbbbbbbbbbbbbbbbbbbbbbbbb", some "hot", none, none, none, none, 0⟩]
  nodup := by decide

/-- An operator, and a database of which some writes fail. -/
def world (fails : ℕ → Bool) : World where
  wallets := wallets
  requireApi _ := .ok "operator"
  requireFreshStepUp _ := .ok "operator"
  random := (⟨List.replicate 32 0, rfl⟩, ⟨List.replicate 12 0, rfl⟩)
  fails := fails
  newId _ := "w3"
  now _ := 1
  now_mono := fun _ => le_rfl
  stamped := by decide

/-- The key of the second wallet, for the first. -/
def wrongWallet : ImportInput :=
  ⟨"0x1111111111111111111111111111111111111111111111111111111111111111", some "mine", some "w1"⟩

def noCrypto : Crypto :=
  ⟨fun _ => [], fun _ _ => none, fun _ _ _ => [], fun _ _ _ => ([], []), fun _ _ _ _ => none⟩

end Sample

open Sample

/-- With nothing failing, a key that is refused because it belongs to another wallet relabels that
wallet; and a batch whose second write fails adds its first wallet. -/
theorem relabelled :
    (¬ ∀ w C masterKeyB64 publicKeyB64 managedKeyAddress fingerprint input,
      Untouched w (importWalletKeyAction w C masterKeyB64 publicKeyB64 managedKeyAddress fingerprint
        input)) ∧
    ¬ ∀ w entries, Untouched w (createWalletsBulkAction w entries) := by
  constructor
  · intro h
    have hsafe := import_untouched_iff (world fun _ => false) wrongWallet |>.mp
      (h _ noCrypto "" none (fun _ => some "0xbbbbbbbbbbbbbbbbbbbbbbbbbbbbbbbbbbbbbbbb") id _)
    have hkey : (wrongWallet.privateKey, "0xbbbbbbbbbbbbbbbbbbbbbbbbbbbbbbbbbbbbbbbb") ∈
        (world fun _ => false).key (fun _ => some "0xbbbbbbbbbbbbbbbbbbbbbbbbbbbbbbbbbbbbbbbb")
          wrongWallet := by
      decide
    rcases hsafe _ _ hkey with hfails | ⟨hselects, -⟩
    · cases hfails
    · have hwrong : ¬ ("w1" = "" ∨ "w1" = (wallets.get? (Text.lower
          "0xbbbbbbbbbbbbbbbbbbbbbbbbbbbbbbbbbbbbbbbb")).elim "w3" Wallet.id) := by
        decide
      exact hwrong (hselects "w1" rfl)
  · intro h
    have hsafe := bulk_untouched_iff (world fun n => n = 1)
      ("0xcccccccccccccccccccccccccccccccccccccccc\n" ++
        "0xdddddddddddddddddddddddddddddddddddddddd") |>.mp (h _ _)
    have hbatch : ∃ parsed, parsed.length = 2 ∧ parsed ∈ (world fun n => n = 1).batch
        ("0xcccccccccccccccccccccccccccccccccccccccc\n" ++
          "0xdddddddddddddddddddddddddddddddddddddddd") :=
      ⟨[⟨"0xcccccccccccccccccccccccccccccccccccccccc", none⟩,
        ⟨"0xdddddddddddddddddddddddddddddddddddddddd", none⟩], rfl, by decide +kernel⟩
    obtain ⟨parsed, hlength, hparsed⟩ := hbatch
    rcases hsafe parsed hparsed with hfirst | hnone
    · cases hfirst
    · cases hnone 1 (by omega)

end WalletActions
