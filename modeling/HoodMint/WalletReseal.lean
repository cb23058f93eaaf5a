/-
The maintenance worker seals a wallet's key again, to the envelope
(`apps/worker/src/workers/maintenance.ts`, `packages/db/src/repositories/wallets.ts`).

Passes interleave at every command, with the statements of operators between them.  A statement
that fails has not been executed, or has, and the pass does not hear of it.

* `resealLegacyWalletKeys` — a pass: list, open, seal, compare and set;
* `sealImported` — the text that an import stores;
* `Act` — what operators do to the column: import, revoke, and a wallet's creation and deletion;
* `KeyRun`, `step` — the system, with what the last act on each wallet left, and the replacements
  made since the start;
* `Replacement.Faithful` — a legacy blob by an envelope of the same key.
-/
import HoodMint.Lib.Interleave
import HoodMint.Lib.Table
import HoodMint.Lib.Transition
import HoodMint.WalletKeys

namespace WalletKeys

open Effect Relational
open MonadExcept (ofExcept)

/-! ### The pass -/

/-- The worker's keys. -/
structure Config where
  APP_ENCRYPTION_KEY : String
  WALLET_KEY_PUBLIC_KEY : Option String
  WALLET_KEY_PRIVATE_KEY : Option String

/-- What a pass asks for: rows, random bytes, and a row's replacement if it still is what was
read. -/
inductive Cmd
  | walletsWithLegacySealedKey
  | random
  | resealWalletSigningKey (walletId expectedSealedJson newSealedJson : String)
deriving DecidableEq

/-- A wallet's id, and its sealed key. -/
structure LegacyRow where
  id : String
  sealed : String
deriving DecidableEq

abbrev Cmd.Resp : Cmd → Type
  | .walletsWithLegacySealedKey => List LegacyRow
  | .random => Sized 32 × Sized 12
  | .resealWalletSigningKey .. => Bool

abbrev signature : Signature := ⟨Cmd, Cmd.Resp⟩

abbrev Worker (α : Type) := Prog signature Thrown α

section

variable (C : Crypto) (masterKeyB64 pub : String)

/-- One row. -/
def resealRow (row : LegacyRow) : Worker Bool := do
  let plaintext ← ofExcept (openWalletKey C row.sealed ⟨masterKeyB64, none⟩)
  let (ephemeral, nonce) ← Prog.issue (S := signature) .random
  let sealed ← ofExcept (sealToRecipient C plaintext pub ephemeral nonce)
  Prog.issue (S := signature) (.resealWalletSigningKey row.id row.sealed sealed.stringify)

/-- The loop over the rows, with the number of those sealed again. -/
def resealRows : List LegacyRow → ℕ → Worker ℕ
  | [], count => pure count
  | row :: rows, count => do
    let done ← tryCatch (resealRow C masterKeyB64 pub row) fun _ => pure false
    resealRows rows (if done then count + 1 else count)

end

/-- `resealLegacyWalletKeys`. -/
def resealLegacyWalletKeys (C : Crypto) (config : Config) : Worker ℕ :=
  match config.WALLET_KEY_PUBLIC_KEY, config.WALLET_KEY_PRIVATE_KEY with
  | some pub, some priv => do
    let own ← ofExcept (walletPublicKeyFor C priv)
    if own ≠ pub then pure 0
    else
      let legacy ← Prog.issue (S := signature) .walletsWithLegacySealedKey
      resealRows C config.APP_ENCRYPTION_KEY pub legacy 0
  | _, _ => pure 0

/-- `importWalletKeyAction`: the text that is stored, under the web app's keys. -/
def sealImported (C : Crypto) (masterKeyB64 : String) (publicKeyB64 : Option String) (key : String)
    (ephemeral : Sized 32) (nonce : Sized 12) : Except Thrown String :=
  match publicKeyB64 with
  | some pub => (sealToRecipient C key pub ephemeral nonce).map SealedWalletKey.stringify
  | none => (sealSecret C key masterKeyB64 CURRENT_KEY_VERSION nonce).map SealedWalletKey.stringify

/-- The second text is an envelope of the key that the first, a legacy one, opens to. -/
def Reseals (C : Crypto) (config : Config) (old new : String) : Prop :=
  ∃ plaintext pub priv ephemeral nonce sealed,
    openWalletKey C old ⟨config.APP_ENCRYPTION_KEY, none⟩ = .ok plaintext ∧
      config.WALLET_KEY_PRIVATE_KEY = some priv ∧ IsKeyPair C pub priv ∧
        sealToRecipient C plaintext pub ephemeral nonce = .ok sealed ∧ new = sealed.stringify

/-! ### The table -/

structure Wallet where
  id : String
  encryptedSigningKey : Option String
deriving DecidableEq

abbrev Wallets := Table Wallet String Wallet.id

/-- The sealed key of a wallet. -/
def column (wallets : Wallets) (id : String) : Option String :=
  (wallets.get? id).bind (·.encryptedSigningKey)

/-- The row, when its blob names the symmetric scheme. -/
def Wallet.legacy (w : Wallet) : Option LegacyRow :=
  w.encryptedSigningKey.bind fun sealed =>
    if algorithmOf sealed = some SYMMETRIC_ALGORITHM then some ⟨w.id, sealed⟩ else none

/-- `resealWalletSigningKey`. -/
def resealWalletSigningKey (wallets : Wallets) (walletId expected sealedJson : String) : Wallets :=
  wallets.update (fun w => w.id = walletId ∧ w.encryptedSigningKey = some expected)
    (fun w => { w with encryptedSigningKey := some sealedJson }) fun _ => rfl

/-- What operators do. -/
inductive Act
  | setWalletSigningKey (walletId sealedJson : String)
  | clearWalletSigningKey (walletId : String)
  | createWallet (walletId : String)
  | deleteWallet (walletId : String)

namespace Act

def walletId : Act → String
  | .setWalletSigningKey id _ | .clearWalletSigningKey id | .createWallet id | .deleteWallet id => id

def exec (wallets : Wallets) : Act → Wallets
  | .setWalletSigningKey id sealedJson => wallets.update (fun w => w.id = id)
      (fun w => { w with encryptedSigningKey := some sealedJson }) fun _ => rfl
  | .clearWalletSigningKey id => wallets.update (fun w => w.id = id)
      (fun w => { w with encryptedSigningKey := none }) fun _ => rfl
  | .createWallet id => wallets.insert ⟨id, none⟩
  | .deleteWallet id => wallets.delete fun w => w.id = id

/-- What the act leaves in the column: the imported key where there is such a wallet, and no key
after a revoke. -/
def leaves (wallets : Wallets) : Act → Option String
  | .setWalletSigningKey id sealedJson => (wallets.get? id).map fun _ => sealedJson
  | .clearWalletSigningKey _ | .deleteWallet _ => none
  | .createWallet id => column wallets id

end Act

/-! ### The system -/

/-- A blob that has been replaced by another. -/
structure Replacement where
  walletId : String
  old : String
  new : String
deriving DecidableEq

/-- What a pass has listed. -/
abbrev Here := List LegacyRow

/-- The table, the passes under way, what the last act on each wallet left, and the replacements. -/
structure KeyRun where
  wallets : Wallets
  tasks : List (Task signature Thrown ℕ Here)
  owned : String → Option String
  replaced : List Replacement

/-- The rows listed are the legacy ones. -/
def Lists (wallets : Wallets) (rows : List LegacyRow) : Prop :=
  rows.Perm (wallets.rows.filterMap Wallet.legacy)

instance decidableLists (wallets : Wallets) : DecidablePred (Lists wallets) := fun rows =>
  (inferInstance : Decidable (rows.Perm (wallets.rows.filterMap Wallet.legacy)))

/-- A replacement is acknowledged when the row still was what had been read. -/
def Acknowledges (wallets : Wallets) (id expected : String) (done : Bool) : Prop :=
  done = decide (column wallets id = some expected)

instance decidableAcknowledges (wallets : Wallets) (id expected : String) :
    DecidablePred (Acknowledges wallets id expected) := fun done =>
  (inferInstance : Decidable (done = decide (column wallets id = some expected)))

/-- The wallets, under the commands of a pass. -/
def world : Monitor signature Thrown Wallets where
  guard _ _ := True
  allowed wallets c x :=
    match c, x with
    | .walletsWithLegacySealedKey, .ok rows => Lists wallets rows
    | .resealWalletSigningKey id expected _, .ok done => Acknowledges wallets id expected done
    | _, _ => True
  next wallets c x :=
    match c, x with
    | .resealWalletSigningKey id expected sealedJson, .ok _ =>
      resealWalletSigningKey wallets id expected sealedJson
    | _, _ => wallets

instance decidableAllowed (wallets : Wallets) (c : Cmd) (x : Except Thrown c.Resp) :
    Decidable (world.allowed wallets c x) := by
  induction c using Cmd.casesOn with
  | walletsWithLegacySealedKey =>
    exact match x with
      | .error _ => isTrue trivial
      | .ok rows => decidableLists wallets rows
  | random => exact match x with
      | .error _ => isTrue trivial
      | .ok _ => isTrue trivial
  | resealWalletSigningKey id expected sealedJson =>
    exact match x with
      | .error _ => isTrue trivial
      | .ok done => decidableAcknowledges wallets id expected done

/-- A pass keeps to what it has listed: a replacement is of such a row, by an envelope of the key
that the row's blob opens to. -/
def reads (C : Crypto) (config : Config) : Monitor signature Thrown Here where
  guard here c :=
    match c with
    | .resealWalletSigningKey id expected sealedJson =>
      ⟨id, expected⟩ ∈ here ∧ Reseals C config expected sealedJson
    | _ => True
  allowed _ _ _ := True
  next here c x :=
    match c, x with
    | .walletsWithLegacySealedKey, .ok rows => rows
    | _, _ => here

/-- What can happen.  A pass that crashes issues no further command. -/
inductive KeyStep
  | start
  | advance (i : ℕ) (answer : (c : Cmd) → Except Thrown c.Resp)
  /-- A command is executed, and its answer is lost. -/
  | lose (i : ℕ) (answer : (c : Cmd) → Except Thrown c.Resp) (error : Thrown)
  | crash (i : ℕ)
  | act (a : Act)

namespace KeyRun

/-- The replacements after a command. -/
def replacedAfter (d : KeyRun) (c : Cmd) (x : Except Thrown c.Resp) : List Replacement :=
  match c, x with
  | .resealWalletSigningKey id expected sealedJson, .ok true => ⟨id, expected, sealedJson⟩ :: d.replaced
  | _, _ => d.replaced

/-- After an act. -/
def after (d : KeyRun) (a : Act) : KeyRun :=
  { d with
    wallets := a.exec d.wallets
    owned := Function.update d.owned a.walletId (a.leaves d.wallets) }

/-- A command of a pass, with its answer, and with what the pass hears. -/
def command (C : Crypto) (config : Config) (d : KeyRun) (i : ℕ)
    (answer heard : (c : Cmd) → Except Thrown c.Resp) : Option KeyRun :=
  match d.tasks[i]? with
  | some ⟨.call c k, here⟩ =>
    if world.allowed d.wallets c (answer c) then
      some
        { d with
          wallets := world.next d.wallets c (answer c)
          tasks := d.tasks.set i ⟨k (heard c), (reads C config).next here c (heard c)⟩
          replaced := d.replacedAfter c (answer c) }
    else none
  | _ => none

/-- One step. -/
def step (C : Crypto) (config : Config) (d : KeyRun) : KeyStep → Option KeyRun
  | .start => some { d with tasks := d.tasks ++ [⟨resealLegacyWalletKeys C config, []⟩] }
  | .advance i answer => d.command C config i answer answer
  | .lose i answer error => d.command C config i answer fun _ => .error error
  | .crash i => d.tasks[i]?.map fun t => { d with tasks := d.tasks.set i ⟨.ret 0, t.here⟩ }
  | .act a => some (d.after a)

/-- Any wallets, and no pass under way. -/
def init (wallets : Wallets) : KeyRun := ⟨wallets, [], column wallets, []⟩

end KeyRun

/-! ### What is kept -/

def Config.openers (config : Config) : WalletKeyOpeners :=
  ⟨config.APP_ENCRYPTION_KEY, config.WALLET_KEY_PRIVATE_KEY⟩

/-- A legacy blob has been replaced by an envelope, and both open to the same key. -/
structure Replacement.Faithful (C : Crypto) (config : Config) (r : Replacement) : Prop where
  legacy : algorithmOf r.old = some SYMMETRIC_ALGORITHM
  envelope : algorithmOf r.new = some ASYMMETRIC_ALGORITHM
  sameKey : ∃ plaintext, openWalletKey C r.old config.openers = .ok plaintext ∧
    openWalletKey C r.new config.openers = .ok plaintext

/-- **Keys are kept.**  Every replacement is faithful, and what the last act on a wallet left is
what is stored, or its replacement is. -/
structure Kept (C : Crypto) (config : Config) (d : KeyRun) : Prop where
  replaced : ∀ r ∈ d.replaced, r.Faithful C config
  remains : ∀ id, column d.wallets id = d.owned id ∨ ∃ old new, d.owned id = some old ∧
    column d.wallets id = some new ∧ ⟨id, old, new⟩ ∈ d.replaced

/-- What is sealed opens again, under every master key and every key pair, as what was sealed and as
what was stored, and what an import stores opens to the imported key. -/
structure RoundTrips (C : Crypto) : Prop where
  sealSecret : ∀ plaintext masterKeyB64 keyVersion nonce, (Base64.decode masterKeyB64).length = 32 →
    ∃ sealed, sealSecret C plaintext masterKeyB64 keyVersion nonce = .ok sealed ∧
      openSecret C sealed.ciphertext sealed.algorithm masterKeyB64 = .ok plaintext ∧
      ∀ priv, openWalletKey C sealed.stringify ⟨masterKeyB64, priv⟩ = .ok plaintext
  sealToRecipient : ∀ plaintext pub priv ephemeral nonce, IsKeyPair C pub priv →
    ∃ sealed, sealToRecipient C plaintext pub ephemeral nonce = .ok sealed ∧
      openFromRecipient C sealed.ciphertext sealed.algorithm priv = .ok plaintext ∧
      ∀ masterKeyB64, openWalletKey C sealed.stringify ⟨masterKeyB64, some priv⟩ = .ok plaintext
  sealImported : ∀ masterKeyB64 pub priv key ephemeral nonce sealedJson,
    (∀ p ∈ pub, IsKeyPair C p priv) →
      sealImported C masterKeyB64 pub key ephemeral nonce = .ok sealedJson →
        openWalletKey C sealedJson ⟨masterKeyB64, some priv⟩ = .ok key

/-- The command does not list the legacy rows. -/
def NotListing (_ : Here) (c : Cmd) (_ : Except Thrown c.Resp) : Prop :=
  c ≠ .walletsWithLegacySealedKey

/-- No act on the wallet, and no pass lists the legacy rows. -/
def Apart (id : String) (d : KeyRun) : KeyStep → Prop
  | .act a => a.walletId ≠ id
  | .advance i answer | .lose i answer _ => AtCommand (S := signature) d.tasks i answer NotListing
  | .start | .crash _ => True

/-- No pass under way has listed what the wallet's column holds, which an import makes of random
bytes of its own. -/
def Unread (d : KeyRun) (id : String) : Prop :=
  ∀ text, column d.wallets id = some text → ∀ t ∈ d.tasks, ¬ t.Done → ⟨id, text⟩ ∉ t.here

/-! ### The column -/

theorem column_reseal (wallets : Wallets) (id expected sealedJson id' : String) :
    column (resealWalletSigningKey wallets id expected sealedJson) id' =
      if id' = id ∧ column wallets id' = some expected then some sealedJson
      else column wallets id' := by
  rw [column, resealWalletSigningKey, Table.get?_update, column]
  cases hrow : wallets.get? id' with
  | none => simp
  | some w =>
    obtain ⟨_, hkey⟩ := Table.get?_eq_some.mp hrow
    subst hkey
    simp only [Option.map_some, Option.bind_some]
    split
    · rfl
    · rfl

/-- The column after an update of one wallet. -/
theorem column_update (wallets : Wallets) (walletId : String) (key : Option String) (id : String) :
    column (wallets.update (fun w => w.id = walletId)
      (fun w => { w with encryptedSigningKey := key }) fun _ => rfl) id =
        if id = walletId then (wallets.get? id).bind fun _ => key else column wallets id := by
  rw [column, Table.get?_update, column]
  cases hrow : wallets.get? id with
  | none => simp
  | some w =>
    obtain ⟨_, hkey⟩ := Table.get?_eq_some.mp hrow
    subst hkey
    simp only [Option.map_some, Option.bind_some]
    split
    · rfl
    · rfl

/-- An act leaves what it says in the column of its wallet, and the others alone. -/
theorem column_exec (wallets : Wallets) (a : Act) (id : String) :
    column (a.exec wallets) id = if id = a.walletId then a.leaves wallets else column wallets id := by
  cases a with
  | setWalletSigningKey walletId sealedJson =>
    refine (column_update wallets walletId (some sealedJson) id).trans (ite_congr rfl ?_ fun _ => rfl)
    rintro rfl
    rw [Act.leaves]
    cases wallets.get? id with
    | none => rfl
    | some w => rfl
  | clearWalletSigningKey walletId =>
    refine (column_update wallets walletId none id).trans (ite_congr rfl ?_ fun _ => rfl)
    rintro rfl
    rw [Act.leaves]
    cases wallets.get? id with
    | none => rfl
    | some w => rfl
  | createWallet walletId =>
    rw [column, Act.exec, Table.get?_insert, Act.walletId, Act.leaves]
    by_cases h : walletId = id
    · rw [if_pos h, if_pos h.symm, column, ← h]
      cases wallets.get? walletId with
      | none => rfl
      | some w => rfl
    · rw [if_neg h, if_neg fun h' => h h'.symm, column]
  | deleteWallet walletId =>
    rw [column, Act.exec, Table.get?_delete, Act.walletId, Act.leaves]
    by_cases h : id = walletId
    · rw [if_pos h, if_pos h]
      rfl
    · rw [if_neg h, if_neg h, column]

/-! ### One pass -/

section

variable {C : Crypto} {config : Config} {α : Type} {here : Here}

/-- One row of those listed. -/
theorem resealRow_wp {pub priv : String} {row : LegacyRow}
    (hpriv : config.WALLET_KEY_PRIVATE_KEY = some priv) (hpair : IsKeyPair C pub priv)
    (hrow : row ∈ here) :
    (resealRow C config.APP_ENCRYPTION_KEY pub row).wp (reads C config)
      (fun _ here' => here = here') here := by
  refine Prog.wp_bind_of (R := fun r here' => r = openWalletKey C row.sealed
    ⟨config.APP_ENCRYPTION_KEY, none⟩ ∧ here = here') (Prog.wp_ofExcept.mpr ⟨rfl, rfl⟩) ?_ ?_
  · rintro plaintext _ ⟨hopen, rfl⟩
    refine Prog.wp_issue_bind trivial ?_ fun e _ => rfl
    intro bytes _
    obtain ⟨ephemeral, nonce⟩ := bytes
    refine Prog.wp_bind_of (R := fun r here' => r = sealToRecipient C plaintext pub ephemeral nonce ∧
      here = here') (Prog.wp_ofExcept.mpr ⟨rfl, rfl⟩) ?_ ?_
    · rintro sealed _ ⟨hsealed, rfl⟩
      refine Prog.wp_issue.mpr ⟨⟨hrow, plaintext, pub, priv, ephemeral, nonce, sealed, hopen.symm,
        hpriv, hpair, hsealed.symm, rfl⟩, fun x _ => rfl⟩
    · rintro e _ ⟨_, rfl⟩
      rfl
  · rintro e _ ⟨_, rfl⟩
    rfl

/-- The rows that are left are among those listed. -/
theorem resealRows_wp {pub priv : String} {rows : List LegacyRow}
    (hpriv : config.WALLET_KEY_PRIVATE_KEY = some priv) (hpair : IsKeyPair C pub priv)
    (hrows : ∀ row ∈ rows, row ∈ here) (count : ℕ) :
    (resealRows C config.APP_ENCRYPTION_KEY pub rows count).wp (reads C config)
      (fun _ _ => True) here := by
  induction rows generalizing count with
  | nil => trivial
  | cons row rows ih =>
    obtain ⟨hrow, hrows⟩ := List.forall_mem_cons.mp hrows
    refine Prog.wp_bind_of (R := fun _ here' => here = here') ?_ ?_ fun _ _ _ => trivial
    · exact Prog.wp_tryCatch_of (resealRow_wp hpriv hpair hrow) (fun _ _ h => h) fun _ _ h => h
    · rintro done _ rfl
      exact ih hrows _

/-- **A pass** replaces what it has listed, by envelopes of the same keys. -/
theorem resealLegacyWalletKeys_wp :
    (resealLegacyWalletKeys C config).wp (reads C config) (fun _ _ => True) here := by
  rw [resealLegacyWalletKeys]
  cases hpub : config.WALLET_KEY_PUBLIC_KEY with
  | none => trivial
  | some pub =>
    cases hpriv : config.WALLET_KEY_PRIVATE_KEY with
    | none => trivial
    | some priv =>
      refine Prog.wp_bind_of (R := fun r _ => r = walletPublicKeyFor C priv) (Prog.wp_ofExcept.mpr rfl) ?_
        fun _ _ _ => trivial
      intro own here' hown
      refine Prog.wp_ite (fun _ => trivial) fun hmatch => ?_
      rw [not_not] at hmatch
      subst hmatch
      have hpair := IsKeyPair.of_walletPublicKeyFor hown.symm
      exact Prog.wp_issue_bind trivial
        (fun legacy _ => resealRows_wp hpriv hpair (fun row hrow => hrow) 0) fun _ _ => trivial

end

/-! ### One step -/

section

variable {C : Crypto} {config : Config} {d d' : KeyRun}

/-- A command of a pass. -/
theorem command_cases {i : ℕ} {answer heard : (c : Cmd) → Except Thrown c.Resp}
    (h : d.command C config i answer heard = some d') :
    ∃ c k here, d.tasks[i]? = some ⟨.call c k, here⟩ ∧ world.allowed d.wallets c (answer c) ∧
      d' =
        { d with
          wallets := world.next d.wallets c (answer c)
          tasks := d.tasks.set i ⟨k (heard c), (reads C config).next here c (heard c)⟩
          replaced := d.replacedAfter c (answer c) } := by
  rw [KeyRun.command] at h
  split at h
  · next c k here hi =>
    split at h
    · next hx => exact ⟨c, k, here, hi, hx, (Option.some_inj.mp h).symm⟩
    · exact absurd h.symm (Option.some_ne_none d')
  · exact absurd h.symm (Option.some_ne_none d')

/-- The passes keep to what they have listed, the replacements are of legacy blobs by envelopes of
their keys, and of what the last acts left. -/
structure Sound (C : Crypto) (config : Config) (d : KeyRun) : Prop where
  safe : ∀ t ∈ d.tasks, t.Safe (reads C config) fun _ _ => True
  replaced : ∀ r ∈ d.replaced, Reseals C config r.old r.new
  remains : ∀ id, column d.wallets id = d.owned id ∨ ∃ old new, d.owned id = some old ∧
    column d.wallets id = some new ∧ ⟨id, old, new⟩ ∈ d.replaced

/-- An envelope is not replaced. -/
theorem Reseals.not_again {old new new' : String} (h : Reseals C config old new)
    (h' : Reseals C config new new') : False := by
  obtain ⟨_, _, _, _, _, sealed, _, _, _, hsealed, rfl⟩ := h
  obtain ⟨plaintext, _, _, _, _, _, hopen, _⟩ := h'
  exact not_openWalletKey_sealToRecipient hsealed _ plaintext hopen

/-- A replacement that was acknowledged: the column held what had been read. -/
theorem sound_reseal (hs : Sound C config d) {id expected sealedJson : String}
    (hreseals : Reseals C config expected sealedJson)
    (hcolumn : column d.wallets id = some expected) :
    ∀ id', column (resealWalletSigningKey d.wallets id expected sealedJson) id' = d.owned id' ∨
      ∃ old new, d.owned id' = some old ∧
        column (resealWalletSigningKey d.wallets id expected sealedJson) id' = some new ∧
          ⟨id', old, new⟩ ∈ (⟨id, expected, sealedJson⟩ :: d.replaced : List Replacement) := by
  intro id'
  rw [column_reseal]
  by_cases hid : id' = id
  · subst hid
    rw [if_pos ⟨rfl, hcolumn⟩]
    rcases hs.remains id' with howned | ⟨old, new, howned, hnew, hmem⟩
    · exact Or.inr ⟨expected, sealedJson, howned ▸ hcolumn, rfl, List.mem_cons_self⟩
    · -- what is stored is an envelope already
      rw [hnew] at hcolumn
      obtain rfl := Option.some_inj.mp hcolumn
      exact ((hs.replaced _ hmem).not_again hreseals).elim
  · rw [if_neg fun h => hid h.1]
    exact (hs.remains id').imp_right fun ⟨old, new, howned, hnew, hmem⟩ =>
      ⟨old, new, howned, hnew, List.mem_cons_of_mem _ hmem⟩

/-- A row that is no longer what had been read is left alone. -/
theorem resealWalletSigningKey_stale {wallets : Wallets} {id expected : String}
    (hcolumn : column wallets id ≠ some expected) (sealedJson id' : String) :
    column (resealWalletSigningKey wallets id expected sealedJson) id' = column wallets id' := by
  rw [column_reseal, if_neg]
  rintro ⟨rfl, hheld⟩
  exact hcolumn hheld

/-- One command: whatever it is answered, and whatever the pass hears, what remains is what
remained or its replacement. -/
theorem sound_command (hs : Sound C config d) {i : ℕ}
    {answer heard : (c : Cmd) → Except Thrown c.Resp}
    (h : d.command C config i answer heard = some d') : Sound C config d' := by
  obtain ⟨c, k, here, hi, hx, rfl⟩ := command_cases h
  obtain ⟨hguard, hsafe⟩ := safe_advance hi hs.safe (x := heard c) trivial
  generalize answer c = x at hx ⊢
  cases c with
  | walletsWithLegacySealedKey => exact ⟨hsafe, hs.replaced, hs.remains⟩
  | random => exact ⟨hsafe, hs.replaced, hs.remains⟩
  | resealWalletSigningKey id expected sealedJson =>
    cases x with
    | error e => exact ⟨hsafe, hs.replaced, hs.remains⟩
    | ok done =>
      have hdone : done = decide (column d.wallets id = some expected) := hx
      by_cases hcolumn : column d.wallets id = some expected
      · rw [decide_eq_true hcolumn] at hdone
        subst hdone
        refine ⟨hsafe, ?_, sound_reseal hs hguard.2 hcolumn⟩
        intro r hr
        rcases List.mem_cons.mp hr with rfl | hr
        · exact hguard.2
        · exact hs.replaced r hr
      · rw [decide_eq_false hcolumn] at hdone
        subst hdone
        refine ⟨hsafe, hs.replaced, fun id' => ?_⟩
        show column (resealWalletSigningKey d.wallets id expected sealedJson) id' = _ ∨ _
        have hstale := resealWalletSigningKey_stale hcolumn sealedJson id'
        rcases hs.remains id' with howned | ⟨old, new, howned, hnew, hmem⟩
        · exact Or.inl (hstale.trans howned)
        · exact Or.inr ⟨old, new, howned, hstale.trans hnew, hmem⟩

/-- An act leaves what it says. -/
theorem sound_after (hs : Sound C config d) (a : Act) : Sound C config (d.after a) := by
  refine ⟨hs.safe, hs.replaced, fun id => ?_⟩
  show column (a.exec d.wallets) id = Function.update d.owned a.walletId _ id ∨ _
  rw [column_exec]
  by_cases hid : id = a.walletId
  · subst hid
    rw [if_pos rfl, Function.update_self]
    exact Or.inl rfl
  · have howned : (d.after a).owned id = d.owned id := Function.update_of_ne hid _ _
    have hcolumn : column (d.after a).wallets id = column d.wallets id :=
      (column_exec d.wallets a id).trans (if_neg hid)
    rw [if_neg hid, Function.update_of_ne hid, howned, hcolumn]
    exact hs.remains id

/-- **Step.** -/
theorem sound_step (hs : Sound C config d) {l : KeyStep} (h : d.step C config l = some d') :
    Sound C config d' := by
  cases l with
  | start =>
    obtain rfl := Option.some_inj.mp h
    refine ⟨fun t ht => ?_, hs.replaced, hs.remains⟩
    exact of_mem_enter ht hs.safe resealLegacyWalletKeys_wp
  | advance i answer => exact sound_command hs h
  | lose i answer error => exact sound_command hs h
  | crash i =>
    obtain ⟨t, ht, rfl⟩ := Option.map_eq_some_iff.mp h
    refine ⟨fun t' ht' => ?_, hs.replaced, hs.remains⟩
    rcases List.mem_or_eq_of_mem_set ht' with ht' | rfl
    · exact hs.safe t' ht'
    · trivial
  | act a =>
    obtain rfl := Option.some_inj.mp h
    exact sound_after hs a

/-- **Run.** -/
theorem sound_of_reach {wallets : Wallets}
    (h : Transition.Reachable (KeyRun.step C config) (KeyRun.init wallets) d) :
    Sound C config d := by
  refine h.invariant ⟨?_, ?_, fun id => Or.inl rfl⟩ fun _ _ _ _ hs _ hstep => sound_step hs hstep
  · intro t ht
    exact absurd ht List.not_mem_nil
  · intro r hr
    exact absurd hr List.not_mem_nil

/-! ### From an act on -/

/-- The column of a wallet holds what an act left, and no pass under way has read it there. -/
structure Held (C : Crypto) (config : Config) (id : String) (left : Option String) (d : KeyRun) :
    Prop where
  safe : ∀ t ∈ d.tasks, t.Safe (reads C config) fun _ _ => True
  column : column d.wallets id = left
  unread : Unread d id

/-- One command, of a pass that does not list the rows. -/
theorem held_command {id : String} {left : Option String} (hs : Held C config id left d) {i : ℕ}
    {answer heard : (c : Cmd) → Except Thrown c.Resp}
    (hφ : AtCommand (S := signature) d.tasks i answer NotListing)
    (h : d.command C config i answer heard = some d') : Held C config id left d' := by
  obtain ⟨c, k, here, hi, hx, rfl⟩ := command_cases h
  have hc : NotListing here c (answer c) := (atCommand_iff hi).mp hφ
  obtain ⟨hguard, hsafe⟩ := safe_advance hi hs.safe (x := heard c) trivial
  have hrunning : ¬ (⟨.call c k, here⟩ : Task signature Thrown ℕ Here).Done := fun h => h
  -- the pass has read nothing more
  have hhere : (reads C config).next here c (heard c) = here := by
    cases c with
    | walletsWithLegacySealedKey => exact absurd rfl hc
    | random => rfl
    | resealWalletSigningKey => rfl
  have hcolumn : column (world.next d.wallets c (answer c)) id = column d.wallets id := by
    cases c with
    | walletsWithLegacySealedKey => exact absurd rfl hc
    | random => rfl
    | resealWalletSigningKey id' expected sealedJson =>
      cases answer (.resealWalletSigningKey id' expected sealedJson) with
      | error e => rfl
      | ok done =>
        show column (resealWalletSigningKey d.wallets id' expected sealedJson) id = _
        rw [column_reseal, if_neg]
        rintro ⟨rfl, hheld⟩
        exact hs.unread expected hheld _ (List.mem_of_getElem? hi) hrunning hguard.1
  refine ⟨hsafe, hcolumn.trans hs.column, fun text htext t ht hdone => ?_⟩
  have htext : column d.wallets id = some text := hcolumn.symm.trans htext
  rcases List.mem_or_eq_of_mem_set ht with ht | rfl
  · exact hs.unread text htext t ht hdone
  · show _ ∉ (reads C config).next here c (heard c)
    rw [hhere]
    exact hs.unread text htext _ (List.mem_of_getElem? hi) hrunning

/-- **Step.**  Until a pass lists the rows again, or there is another act on the wallet, what the act
left stays. -/
theorem held_step {id : String} {left : Option String} (hs : Held C config id left d) {l : KeyStep}
    (hφ : Apart id d l) (h : d.step C config l = some d') : Held C config id left d' := by
  cases l with
  | start =>
    obtain rfl := Option.some_inj.mp h
    refine ⟨fun t ht => ?_, hs.column, fun text htext t ht hdone => ?_⟩
    · exact of_mem_enter ht hs.safe resealLegacyWalletKeys_wp
    · rcases List.mem_append.mp ht with ht | ht
      · exact hs.unread text htext t ht hdone
      · rw [List.mem_singleton.mp ht]
        exact List.not_mem_nil
  | advance i answer => exact held_command hs hφ h
  | lose i answer error => exact held_command hs hφ h
  | crash i =>
    obtain ⟨t, ht, rfl⟩ := Option.map_eq_some_iff.mp h
    refine ⟨fun t' ht' => ?_, hs.column, fun text htext t' ht' hdone => ?_⟩
    · rcases List.mem_or_eq_of_mem_set ht' with ht' | rfl
      · exact hs.safe t' ht'
      · trivial
    · rcases List.mem_or_eq_of_mem_set ht' with ht' | rfl
      · exact hs.unread text htext t' ht' hdone
      · exact absurd trivial hdone
  | act a =>
    obtain rfl := Option.some_inj.mp h
    have hcolumn : column (a.exec d.wallets) id = column d.wallets id :=
      (column_exec d.wallets a id).trans (if_neg fun hid => hφ hid.symm)
    refine ⟨hs.safe, hcolumn.trans hs.column, fun text htext => ?_⟩
    exact hs.unread text (hcolumn.symm.trans htext)

end

/-! ### Keys are kept -/

theorem map_eq_ok {ε α β : Type} {f : α → β} {x : Except ε α} {b : β} :
    x.map f = .ok b ↔ ∃ a, x = .ok a ∧ f a = b := by
  cases x with
  | error e => simp [Except.map]
  | ok a => simp [Except.map]

section

variable {C : Crypto} {config : Config} {d d' : KeyRun}

/-- A legacy blob has been replaced by an envelope of its key. -/
theorem Reseals.faithful (hC : C.Lawful) {r : Replacement} (h : Reseals C config r.old r.new) :
    r.Faithful C config := by
  obtain ⟨plaintext, pub, priv, ephemeral, nonce, sealed, hopen, hpriv, hpair, hsealed, hnew⟩ := h
  obtain ⟨hlegacy, hold⟩ := openWalletKey_of_legacy hopen (some priv)
  refine ⟨hlegacy, ?_, plaintext, ?_, ?_⟩
  · obtain ⟨_, _, hparts⟩ := sealToRecipient_eq_ok hsealed
    rw [hnew, algorithmOf_stringify, hparts]
  · rw [Config.openers, hpriv]
    exact hold
  · rw [Config.openers, hpriv, hnew]
    exact openWalletKey_sealToRecipient hC hpair hsealed _

theorem kept_of_reach (hC : C.Lawful) {wallets : Wallets}
    (h : Transition.Reachable (KeyRun.step C config) (KeyRun.init wallets) d) : Kept C config d :=
  have hs := sound_of_reach h
  ⟨fun r hr => (hs.replaced r hr).faithful hC, hs.remains⟩

/-- **What an act leaves stays**, whatever the passes under way do. -/
theorem column_of_apart {wallets : Wallets}
    (h : Transition.Reachable (KeyRun.step C config) (KeyRun.init wallets) d) {a : Act}
    (hunread : Unread (d.after a) a.walletId)
    (hreach : Transition.Reach (KeyRun.step C config) (Apart a.walletId) (d.after a) d') :
    column d'.wallets a.walletId = a.leaves d.wallets := by
  have hleft : column (d.after a).wallets a.walletId = a.leaves d.wallets :=
    (column_exec d.wallets a a.walletId).trans (if_pos rfl)
  have hheld : Held C config a.walletId (a.leaves d.wallets) d' :=
    hreach.invariant ⟨(sound_after (sound_of_reach h) a).safe, hleft, hunread⟩
      fun _ _ _ _ hs hφ hstep => held_step hs hφ hstep
  exact hheld.column

theorem roundTrips (hC : C.Lawful) : RoundTrips C where
  sealSecret := by
    intro plaintext masterKeyB64 keyVersion nonce hlen
    have hkey : deriveKey masterKeyB64 = .ok (Base64.decode masterKeyB64) :=
      raw32_eq_ok.mpr ⟨rfl, hlen⟩
    obtain ⟨sealed, hsealed⟩ :
        ∃ sealed, sealSecret C plaintext masterKeyB64 keyVersion nonce = .ok sealed := by
      rw [sealSecret, hkey]
      exact ⟨_, rfl⟩
    exact ⟨sealed, hsealed, openSecret_sealSecret hC hsealed, openWalletKey_sealSecret hC hsealed⟩
  sealToRecipient := by
    intro plaintext pub priv ephemeral nonce hpair
    have hraw : raw32 pub "WALLET_KEY_PUBLIC_KEY" = .ok (Base64.decode pub) := by
      refine raw32_eq_ok.mpr ⟨rfl, ?_⟩
      rw [hpair.decode]
      exact hC.publicKey_length ⟨_, hpair.length⟩
    obtain ⟨shared, hshared, _⟩ := hC.agreement ephemeral ⟨_, hpair.length⟩
    have hagree : agree C ephemeral.val (Base64.decode pub) = .ok shared := by
      rw [agree, hpair.decode, hshared]
    obtain ⟨sealed, hsealed⟩ :
        ∃ sealed, sealToRecipient C plaintext pub ephemeral nonce = .ok sealed := by
      rw [sealToRecipient, hraw]
      simp only [bind, Except.bind]
      rw [hagree]
      exact ⟨_, rfl⟩
    exact ⟨sealed, hsealed, openFromRecipient_sealToRecipient hC hpair hsealed,
      openWalletKey_sealToRecipient hC hpair hsealed⟩
  sealImported := by
    intro masterKeyB64 pub priv key ephemeral nonce sealedJson hpair h
    cases pub with
    | none =>
      obtain ⟨sealed, hsealed, rfl⟩ := map_eq_ok.mp h
      exact openWalletKey_sealSecret hC hsealed _
    | some pub =>
      obtain ⟨sealed, hsealed, rfl⟩ := map_eq_ok.mp h
      exact openWalletKey_sealToRecipient hC (hpair pub rfl) hsealed _

/-- **Sealing and resealing keep every key**: what is sealed opens again; a replacement is of a
legacy blob by an envelope of the same key; and a revoke or an import is what remains stored, but
for the envelope of the imported key, which only a pass that lists the rows after it can make. -/
theorem reseal_keeps_keys (hC : C.Lawful) (config : Config) (wallets : Wallets) :
    RoundTrips C ∧
      ∀ d, Transition.Reachable (KeyRun.step C config) (KeyRun.init wallets) d →
        Kept C config d ∧
          ∀ a d', Unread (d.after a) a.walletId →
            Transition.Reach (KeyRun.step C config) (Apart a.walletId) (d.after a) d' →
              column d'.wallets a.walletId = a.leaves d.wallets :=
  ⟨roundTrips hC, fun _ h =>
    ⟨kept_of_reach hC h, fun _ _ hunread hreach => column_of_apart h hunread hreach⟩⟩

end

/-! ### A pass before its replacement -/

section

variable {C : Crypto} {config : Config} {d : KeyRun} {pub priv plaintext : String}
  {row : LegacyRow} {ephemeral : Sized 32} {nonce : Sized 12} {sealed : SealedWalletKey}
  {wallets : Wallets}

theorem legacy_of_algorithm (id : String) {sealedJson : String}
    (h : algorithmOf sealedJson = some SYMMETRIC_ALGORITHM) :
    Wallet.legacy ⟨id, some sealedJson⟩ = some ⟨id, sealedJson⟩ := if_pos h

/-- A single pass under way, and nothing has happened to the wallets. -/
def KeyRun.single (wallets : Wallets) (p : Worker ℕ) (here : Here) : KeyRun :=
  ⟨wallets, [⟨p, here⟩], column wallets, []⟩

/-- It lists the rows. -/
theorem single_list {k : Except Thrown (List LegacyRow) → Worker ℕ} {rows : List LegacyRow}
    {answer : (c : Cmd) → Except Thrown c.Resp}
    (hanswer : answer .walletsWithLegacySealedKey = .ok rows) (hlist : Lists wallets rows) :
    (KeyRun.single wallets (.call .walletsWithLegacySealedKey k) []).step C config
      (.advance 0 answer) = some (.single wallets (k (.ok rows)) rows) := by
  show (if world.allowed wallets .walletsWithLegacySealedKey
    (answer .walletsWithLegacySealedKey) then _ else _) = _
  rw [hanswer]
  exact if_pos hlist

/-- It draws the bytes. -/
theorem single_random {k : Except Thrown (Sized 32 × Sized 12) → Worker ℕ} {here : Here}
    {answer : (c : Cmd) → Except Thrown c.Resp} :
    (KeyRun.single wallets (.call .random k) here).step C config (.advance 0 answer) =
      some (.single wallets (k (answer .random)) here) := by
  show (if world.allowed wallets .random (answer .random) then _ else _) = _
  cases answer .random with
  | error e => exact if_pos trivial
  | ok bytes => exact if_pos trivial

/-- The worker's keys match: the pass lists the rows. -/
theorem resealLegacyWalletKeys_call (hpub : config.WALLET_KEY_PUBLIC_KEY = some pub)
    (hpriv : config.WALLET_KEY_PRIVATE_KEY = some priv)
    (hown : walletPublicKeyFor C priv = .ok pub) :
    ∃ k, resealLegacyWalletKeys C config = .call .walletsWithLegacySealedKey k ∧
      ∀ rows, k (.ok rows) = resealRows C config.APP_ENCRYPTION_KEY pub rows 0 := by
  rw [resealLegacyWalletKeys, hpub, hpriv]
  simp only [hown]
  show ∃ k, (if pub ≠ pub then _ else _) = _ ∧ _
  rw [if_neg fun h => h rfl]
  exact ⟨_, rfl, fun rows => rfl⟩

/-- It opens a row, seals its key again, and is about to replace it. -/
theorem resealRows_call
    (hopen : openWalletKey C row.sealed ⟨config.APP_ENCRYPTION_KEY, none⟩ = .ok plaintext)
    (hsealed : sealToRecipient C plaintext pub ephemeral nonce = .ok sealed) :
    ∃ k, resealRows C config.APP_ENCRYPTION_KEY pub [row] 0 = .call .random k ∧
      ∃ k', k (.ok (ephemeral, nonce)) =
        .call (.resealWalletSigningKey row.id row.sealed sealed.stringify) k' ∧
          k' (.ok false) = .ret 0 := by
  rw [resealRows, resealRow, hopen]
  refine ⟨_, rfl, ?_⟩
  show ∃ k', Prog.andThen (Prog.andThen (Prog.andThen
    (ofExcept (sealToRecipient C plaintext pub ephemeral nonce)) _) _) _ = _ ∧ _
  rw [hsealed]
  exact ⟨_, rfl, rfl⟩

/-- The row is listed, the bytes are drawn, and the row is no longer what had been read. -/
def answering (row : LegacyRow) (ephemeral : Sized 32) (nonce : Sized 12) :
    (c : Cmd) → Except Thrown c.Resp
  | .walletsWithLegacySealedKey => .ok [row]
  | .random => .ok (ephemeral, nonce)
  | .resealWalletSigningKey .. => .ok false

/-- A pass can come to be about to replace the key of a row it has listed. -/
theorem exists_aboutTo (hpub : config.WALLET_KEY_PUBLIC_KEY = some pub)
    (hpriv : config.WALLET_KEY_PRIVATE_KEY = some priv)
    (hown : walletPublicKeyFor C priv = .ok pub)
    (hopen : openWalletKey C row.sealed ⟨config.APP_ENCRYPTION_KEY, none⟩ = .ok plaintext)
    (hsealed : sealToRecipient C plaintext pub ephemeral nonce = .ok sealed)
    (hlist : Lists wallets [row]) :
    ∃ k, k (.ok false) = .ret 0 ∧
      Transition.Reachable (KeyRun.step C config) (KeyRun.init wallets) (.single wallets
        (.call (.resealWalletSigningKey row.id row.sealed sealed.stringify) k) [row]) := by
  obtain ⟨k, hprog, hrows⟩ := resealLegacyWalletKeys_call hpub hpriv hown
  obtain ⟨k', hrandom, k'', hreseal, hend⟩ := resealRows_call hopen hsealed
  have hstart : (KeyRun.init wallets).step C config .start =
      some (.single wallets (.call .walletsWithLegacySealedKey k) []) := by
    rw [KeyRun.step, hprog]
    rfl
  have hlisted : (KeyRun.single wallets (.call .walletsWithLegacySealedKey k) []).step C config
      (.advance 0 (answering row ephemeral nonce)) =
        some (.single wallets (.call .random k') [row]) := by
    rw [single_list rfl hlist, hrows, hrandom]
  have hdrawn : (KeyRun.single wallets (.call .random k') [row]).step C config
      (.advance 0 (answering row ephemeral nonce)) = some (.single wallets
        (.call (.resealWalletSigningKey row.id row.sealed sealed.stringify) k'') [row]) := by
    rw [single_random, answering, hreseal]
  exact ⟨k'', hend,
    ((Transition.Reach.refl.tail trivial hstart).tail trivial hlisted).tail trivial hdrawn⟩

/-- The key is revoked before the replacement, which then finds nothing to replace. -/
theorem single_revoked {k : Except Thrown Bool → Worker ℕ} {id expected sealedJson : String}
    {here : Here} {answer : (c : Cmd) → Except Thrown c.Resp}
    (hanswer : answer (.resealWalletSigningKey id expected sealedJson) = .ok false)
    (hrun : d = .single wallets (.call (.resealWalletSigningKey id expected sealedJson) k) here) :
    Unread (d.after (.clearWalletSigningKey id)) id ∧
      ∃ d', Transition.Reach (KeyRun.step C config) (Apart id)
        (d.after (.clearWalletSigningKey id)) d' ∧ d'.tasks = [⟨k (.ok false), here⟩] := by
  subst hrun
  let revoked := (Act.clearWalletSigningKey id).exec wallets
  let owned := Function.update (column wallets) id none
  have hnone : column revoked id = none :=
    (column_exec wallets (.clearWalletSigningKey id) id).trans (if_pos rfl)
  have hallowed : Acknowledges revoked id expected false := by
    refine (decide_eq_false ?_).symm
    rw [hnone]
    exact (Option.some_ne_none expected).symm
  constructor
  · intro text htext
    exact absurd (hnone.symm.trans htext).symm (Option.some_ne_none text)
  · refine ⟨⟨resealWalletSigningKey revoked id expected sealedJson, [⟨k (.ok false), here⟩], owned,
      []⟩, Transition.Reach.refl.tail (l := .advance 0 answer) ?_ ?_, rfl⟩
    · show Cmd.resealWalletSigningKey id expected sealedJson ≠ _
      exact Cmd.noConfusion
    · show (if world.allowed _ (.resealWalletSigningKey id expected sealedJson)
        (answer (.resealWalletSigningKey id expected sealedJson)) then _ else _) = _
      rw [hanswer]
      exact if_pos hallowed

end

/-! ### Samples -/

namespace Sample

/-- Lawful, though it keeps nothing secret. -/
def crypto : Crypto where
  publicKey := id
  diffieHellman a b := some (List.zipWith (· + ·) a b)
  hkdfSync _ _ _ := List.replicate 32 0
  encrypt _ _ text := (text.toByteArray.data.toList, List.replicate 16 0)
  decrypt _ _ _ body := String.fromUTF8? ⟨body.toArray⟩

theorem crypto_lawful : crypto.Lawful where
  publicKey_length a := a.property
  agreement a b := by
    refine ⟨_, rfl, ?_⟩
    show some (List.zipWith (· + ·) b.val a.val) = some (List.zipWith (· + ·) a.val b.val)
    rw [List.zipWith_comm]
    congr 2
    funext x y
    exact UInt8.add_comm y x
  hkdfSync_length _ _ _ := rfl
  tag_length _ _ _ := rfl
  decrypt_encrypt key nonce text := by
    have hbytes : (⟨text.toByteArray.data.toList.toArray⟩ : ByteArray) = text.toByteArray := by simp
    show String.fromUTF8? ⟨text.toByteArray.data.toList.toArray⟩ = some text
    rw [hbytes, String.fromUTF8?, dif_pos text.isValidUTF8]
    rfl

def nonce : Sized 12 := ⟨List.replicate 12 3, rfl⟩

def ephemeral : Sized 32 := ⟨List.replicate 32 2, rfl⟩

def raw : Bytes := List.replicate 32 1

/-- Both halves of the pair are written alike. -/
def config : Config := ⟨Base64.encode raw, some (Base64.encode raw), some (Base64.encode raw)⟩

/-- A key sealed under the master key. -/
def blob : SealedWalletKey where
  ciphertext := Base64.encode (nonce.val ++
    ((crypto.encrypt raw nonce.val "0xkey").2 ++ (crypto.encrypt raw nonce.val "0xkey").1))
  keyVersion := CURRENT_KEY_VERSION
  algorithm := SYMMETRIC_ALGORITHM

/-- The key sealed again. -/
def envelope : SealedWalletKey where
  ciphertext := Base64.encode (ephemeral.val ++ (nonce.val ++
    ((crypto.encrypt (List.replicate 32 0) nonce.val "0xkey").2 ++
      (crypto.encrypt (List.replicate 32 0) nonce.val "0xkey").1)))
  keyVersion := CURRENT_KEY_VERSION
  algorithm := ASYMMETRIC_ALGORITHM

theorem raw32_raw (what : String) : raw32 (Base64.encode raw) what = .ok raw :=
  raw32_eq_ok.mpr ⟨(Base64.decode_encode raw).symm, rfl⟩

theorem open_blob :
    openWalletKey crypto blob.stringify ⟨config.APP_ENCRYPTION_KEY, none⟩ = .ok "0xkey" := by
  have hsealed : sealSecret crypto "0xkey" (Base64.encode raw) 1 nonce = .ok blob := by
    rw [sealSecret, deriveKey, raw32_raw]
    rfl
  exact openWalletKey_sealSecret crypto_lawful hsealed none

theorem seal_envelope :
    sealToRecipient crypto "0xkey" (Base64.encode raw) ephemeral nonce = .ok envelope := by
  rw [sealToRecipient, raw32_raw]
  rfl

theorem walletPublicKeyFor_raw :
    walletPublicKeyFor crypto (Base64.encode raw) = .ok (Base64.encode raw) := by
  rw [walletPublicKeyFor, raw32_raw]
  rfl

def row : LegacyRow := ⟨"w", blob.stringify⟩

def wallets : Wallets := ⟨[⟨"w", some blob.stringify⟩], List.nodup_singleton _⟩

theorem lists_row : Lists wallets [row] := by
  have hlegacy := legacy_of_algorithm "w" (algorithmOf_stringify blob)
  have hrows : wallets.rows.filterMap Wallet.legacy = [row] :=
    List.filterMap_cons_some hlegacy
  rw [Lists, hrows]

end Sample

/-- The key is revoked between a pass's reading it and its replacement, which then finds nothing to
replace. -/
theorem reseal_keeps_keys_revoked :
    ∃ d d', Transition.Reachable (KeyRun.step Sample.crypto Sample.config)
        (KeyRun.init Sample.wallets) d ∧
      (∃ t ∈ d.tasks, ¬ t.Done ∧ Sample.row ∈ t.here) ∧
      Transition.Reach (KeyRun.step Sample.crypto Sample.config) (Apart "w")
        (d.after (.clearWalletSigningKey "w")) d' ∧
      (∀ t ∈ d'.tasks, t.Done) ∧ column d'.wallets "w" = none := by
  obtain ⟨k, hend, hreach⟩ := @exists_aboutTo Sample.crypto Sample.config (Base64.encode Sample.raw)
    (Base64.encode Sample.raw) "0xkey" Sample.row Sample.ephemeral Sample.nonce Sample.envelope
    Sample.wallets rfl rfl Sample.walletPublicKeyFor_raw Sample.open_blob Sample.seal_envelope
    Sample.lists_row
  obtain ⟨hunread, d', hafter, htasks⟩ := @single_revoked Sample.crypto Sample.config _
    Sample.wallets k "w" Sample.row.sealed Sample.envelope.stringify [Sample.row]
    (answering Sample.row Sample.ephemeral Sample.nonce) rfl rfl
  refine ⟨_, d', hreach, ⟨_, List.mem_singleton_self _, id, List.mem_singleton_self _⟩, hafter, ?_,
    ?_⟩
  · rw [htasks, hend]
    intro t ht
    rw [List.mem_singleton.mp ht]
    trivial
  · exact ((reseal_keeps_keys Sample.crypto_lawful Sample.config Sample.wallets).2 _ hreach).2
      (.clearWalletSigningKey "w") d' hunread hafter

end WalletKeys
