/-
How a wallet's signing key is sealed and opened (`packages/secrets/src/index.ts`).

* `Crypto` — what `node:crypto` computes, and `Crypto.Lawful`, what the code relies on;
* `sealSecret`, `openSecret` — the symmetric scheme: nonce, tag and body under the master key;
* `sealToRecipient`, `openFromRecipient` — the envelope: ephemeral public key, nonce, tag and body
  under a key that both halves of the recipient's pair agree on;
* `openWalletKey` — the stored text, whichever scheme sealed it;
* `openSecret_sealSecret`, `openFromRecipient_sealToRecipient` and, for the stored texts,
  `openWalletKey_sealSecret`, `openWalletKey_sealToRecipient` — what is sealed opens again.

Random bytes are arguments.
-/
import HoodMint.Lib.Base64
import HoodMint.Lib.JsonText

namespace WalletKeys

abbrev Bytes := List UInt8

/-- So many bytes. -/
abbrev Sized (n : ℕ) := {bytes : Bytes // bytes.length = n}

/-! ### What `node:crypto` computes -/

def GCM_AUTH_TAG_LENGTH : ℕ := 16

/-- X25519, HKDF-SHA256 and AES-256-GCM; `none` where they throw.  A text is encrypted as its UTF-8
bytes, and a decrypted one is read so. -/
structure Crypto where
  /-- The public half of a private key. -/
  publicKey : Bytes → Bytes
  /-- Of a private and a public key. -/
  diffieHellman : Bytes → Bytes → Option Bytes
  /-- Of a shared secret, a salt and an info, 32 bytes. -/
  hkdfSync : Bytes → Bytes → String → Bytes
  /-- Under a key and a nonce: the body and the tag. -/
  encrypt : Bytes → Bytes → String → Bytes × Bytes
  /-- Of a key, a nonce, a tag and a body. -/
  decrypt : Bytes → Bytes → Bytes → Bytes → Option String

/-- What is known of them. -/
structure Crypto.Lawful (C : Crypto) : Prop where
  publicKey_length : ∀ a : Sized 32, (C.publicKey a.val).length = 32
  agreement : ∀ a b : Sized 32, ∃ shared, C.diffieHellman a.val (C.publicKey b.val) = some shared ∧
    C.diffieHellman b.val (C.publicKey a.val) = some shared
  hkdfSync_length : ∀ shared salt info, (C.hkdfSync shared salt info).length = 32
  tag_length : ∀ (key : Sized 32) (nonce : Sized 12) text,
    (C.encrypt key.val nonce.val text).2.length = GCM_AUTH_TAG_LENGTH
  decrypt_encrypt : ∀ (key : Sized 32) (nonce : Sized 12) text,
    C.decrypt key.val nonce.val (C.encrypt key.val nonce.val text).2
      (C.encrypt key.val nonce.val text).1 = some text

/-- What is thrown: here, or by `node:crypto`. -/
inductive Thrown
  | error (message : String)
  | crypto

/-! ### The symmetric scheme -/

/-- `SealedSecret` and `SealedToRecipient`. -/
structure SealedWalletKey where
  ciphertext : String
  keyVersion : ℕ
  algorithm : String

def CURRENT_KEY_VERSION : ℕ := 1

def SYMMETRIC_ALGORITHM : String := "aes-256-gcm"

def ASYMMETRIC_ALGORITHM : String := "x25519-hkdf-sha256-aes-256-gcm"

def HKDF_INFO : String := "hoodmint/wallet-key/v1"

/-- `raw32`. -/
def raw32 (b64 what : String) : Except Thrown Bytes :=
  if (Base64.decode b64).length ≠ 32 then
    .error (.error (what ++ " must decode to exactly 32 bytes"))
  else .ok (Base64.decode b64)

/-- `deriveKey`. -/
def deriveKey (masterKeyB64 : String) : Except Thrown Bytes := raw32 masterKeyB64 "APP_ENCRYPTION_KEY"

section

variable (C : Crypto)

/-- `sealSecret`. -/
def sealSecret (plaintext masterKeyB64 : String) (keyVersion : ℕ) (nonce : Sized 12) :
    Except Thrown SealedWalletKey := do
  let key ← deriveKey masterKeyB64
  let encrypted := C.encrypt key nonce.val plaintext
  return {
    ciphertext := Base64.encode (nonce.val ++ (encrypted.2 ++ encrypted.1))
    keyVersion := keyVersion
    algorithm := SYMMETRIC_ALGORITHM }

/-- Nonce, tag and body. -/
def decipher (key blob : Bytes) : Except Thrown String :=
  match C.decrypt key (blob.take 12) ((blob.drop 12).take GCM_AUTH_TAG_LENGTH)
      ((blob.drop 12).drop GCM_AUTH_TAG_LENGTH) with
  | some text => .ok text
  | none => .error .crypto

/-- `openSecret`, of a ciphertext and an algorithm. -/
def openSecret (ciphertext algorithm masterKeyB64 : String) : Except Thrown String :=
  if algorithm ≠ SYMMETRIC_ALGORITHM then .error (.error ("unsupported cipher " ++ algorithm))
  else do
    let key ← deriveKey masterKeyB64
    decipher C key (Base64.decode ciphertext)

/-! ### The envelope -/

/-- `walletPublicKeyFor`. -/
def walletPublicKeyFor (privateKeyB64 : String) : Except Thrown String := do
  let priv ← raw32 privateKeyB64 "WALLET_KEY_PRIVATE_KEY"
  return Base64.encode (C.publicKey priv)

/-- `diffieHellman`, or what it throws. -/
def agree (priv pub : Bytes) : Except Thrown Bytes :=
  match C.diffieHellman priv pub with
  | some shared => .ok shared
  | none => .error .crypto

/-- The key of an envelope. -/
def envelopeKey (shared ephemeralRaw recipientRaw : Bytes) : Bytes :=
  C.hkdfSync shared (ephemeralRaw ++ recipientRaw) HKDF_INFO

/-- `sealToRecipient`. -/
def sealToRecipient (plaintext recipientPublicKeyB64 : String) (ephemeral : Sized 32)
    (nonce : Sized 12) : Except Thrown SealedWalletKey := do
  let recipientRaw ← raw32 recipientPublicKeyB64 "WALLET_KEY_PUBLIC_KEY"
  let ephemeralRaw := C.publicKey ephemeral.val
  let shared ← agree C ephemeral.val recipientRaw
  let encrypted := C.encrypt (envelopeKey C shared ephemeralRaw recipientRaw) nonce.val plaintext
  return {
    ciphertext := Base64.encode (ephemeralRaw ++ (nonce.val ++ (encrypted.2 ++ encrypted.1)))
    keyVersion := CURRENT_KEY_VERSION
    algorithm := ASYMMETRIC_ALGORITHM }

/-- `openFromRecipient`, of a ciphertext and an algorithm. -/
def openFromRecipient (ciphertext algorithm recipientPrivateKeyB64 : String) :
    Except Thrown String :=
  if algorithm ≠ ASYMMETRIC_ALGORITHM then .error (.error ("unsupported cipher " ++ algorithm))
  else do
    let priv ← raw32 recipientPrivateKeyB64 "WALLET_KEY_PRIVATE_KEY"
    let blob := Base64.decode ciphertext
    let ephemeralRaw := blob.take 32
    let shared ← agree C priv ephemeralRaw
    decipher C (envelopeKey C shared ephemeralRaw (C.publicKey priv)) (blob.drop 32)

/-! ### Stored texts -/

/-- `WalletKeyOpeners`. -/
structure WalletKeyOpeners where
  masterKeyB64 : String
  walletPrivateKeyB64 : Option String

/-- `JSON.stringify` of what has been sealed. -/
def SealedWalletKey.stringify (sealed : SealedWalletKey) : String :=
  JsonText.stringify [("ciphertext", .str sealed.ciphertext), ("keyVersion", .nat sealed.keyVersion),
    ("algorithm", .str sealed.algorithm)]

/-- A property that is a text. -/
def textOf (parsed : JsonText.Json) (name : String) : Option String :=
  (parsed.get? name).bind JsonText.Json.text?

/-- The scheme that a stored text names. -/
def algorithmOf (sealedJson : String) : Option String :=
  (JsonText.parse sealedJson).bind fun parsed => textOf parsed "algorithm"

/-- A blob, by the scheme that sealed it. -/
def openBlob (openers : WalletKeyOpeners) (ciphertext algorithm : String) : Except Thrown String :=
  if algorithm = ASYMMETRIC_ALGORITHM then
    match openers.walletPrivateKeyB64 with
    | none => .error (.error
        "wallet key is sealed to the worker keypair but WALLET_KEY_PRIVATE_KEY is not configured")
    | some walletPrivateKeyB64 => openFromRecipient C ciphertext algorithm walletPrivateKeyB64
  else openSecret C ciphertext algorithm openers.masterKeyB64

/-- `openWalletKey`. -/
def openWalletKey (sealedJson : String) (openers : WalletKeyOpeners) : Except Thrown String :=
  match JsonText.parse sealedJson with
  | none => .error (.error "stored wallet key blob is not valid JSON")
  | some parsed =>
    match textOf parsed "ciphertext", textOf parsed "algorithm" with
    | some ciphertext, some algorithm => openBlob C openers ciphertext algorithm
    | _, _ => .error (.error "stored wallet key blob has an unexpected shape")

end

/-! ### What is sealed opens -/

section

variable {C : Crypto} {plaintext masterKeyB64 publicKeyB64 privateKeyB64 : String} {keyVersion : ℕ}
  {ephemeral : Sized 32} {nonce : Sized 12} {sealed : SealedWalletKey}

theorem raw32_eq_ok {b64 what : String} {raw : Bytes} :
    raw32 b64 what = .ok raw ↔ raw = Base64.decode b64 ∧ raw.length = 32 := by
  rw [raw32]
  split
  · next h =>
    refine ⟨fun hok => absurd hok (by simp), ?_⟩
    rintro ⟨rfl, hlen⟩
    exact absurd hlen h
  · next h =>
    rw [Except.ok.injEq]
    constructor
    · rintro rfl
      exact ⟨rfl, not_not.mp h⟩
    · rintro ⟨rfl, _⟩
      rfl

/-- A key pair: both halves are 32 bytes, and the public one belongs to the private one. -/
structure IsKeyPair (C : Crypto) (publicKeyB64 privateKeyB64 : String) : Prop where
  length : (Base64.decode privateKeyB64).length = 32
  decode : Base64.decode publicKeyB64 = C.publicKey (Base64.decode privateKeyB64)

/-- What the worker checks of its keys. -/
theorem IsKeyPair.of_walletPublicKeyFor
    (h : walletPublicKeyFor C privateKeyB64 = .ok publicKeyB64) :
    IsKeyPair C publicKeyB64 privateKeyB64 := by
  rw [walletPublicKeyFor] at h
  cases hraw : raw32 privateKeyB64 "WALLET_KEY_PRIVATE_KEY" with
  | error e =>
    rw [hraw] at h
    exact absurd h (by simp [bind, Except.bind])
  | ok priv =>
    obtain ⟨rfl, hlen⟩ := raw32_eq_ok.mp hraw
    rw [hraw] at h
    have hpub : Base64.encode (C.publicKey (Base64.decode privateKeyB64)) = publicKeyB64 :=
      Except.ok.inj h
    exact ⟨hlen, by rw [← hpub, Base64.decode_encode]⟩

/-- The parts of a blob. -/
theorem decipher_encrypt (hC : C.Lawful) (key : Sized 32) (nonce : Sized 12) (text : String) :
    decipher C key.val (nonce.val ++
      ((C.encrypt key.val nonce.val text).2 ++ (C.encrypt key.val nonce.val text).1)) = .ok text := by
  rw [decipher, List.take_left' nonce.property, List.drop_left' nonce.property,
    List.take_left' (hC.tag_length key nonce text), List.drop_left' (hC.tag_length key nonce text),
    hC.decrypt_encrypt]

/-- A key that is not 32 bytes long seals nothing. -/
theorem sealSecret_eq_ok
    (h : sealSecret C plaintext masterKeyB64 keyVersion nonce = .ok sealed) :
    ∃ key : Sized 32, deriveKey masterKeyB64 = .ok key.val ∧ sealed =
      { ciphertext := Base64.encode (nonce.val ++ ((C.encrypt key.val nonce.val plaintext).2 ++
          (C.encrypt key.val nonce.val plaintext).1))
        keyVersion := keyVersion
        algorithm := SYMMETRIC_ALGORITHM } := by
  rw [sealSecret] at h
  cases hkey : deriveKey masterKeyB64 with
  | error e =>
    rw [hkey] at h
    exact absurd h (by simp [bind, Except.bind])
  | ok key =>
    rw [hkey] at h
    exact ⟨⟨key, (raw32_eq_ok.mp hkey).2⟩, rfl, (Except.ok.inj h).symm⟩

/-- **What the symmetric scheme seals opens again.** -/
theorem openSecret_sealSecret (hC : C.Lawful)
    (h : sealSecret C plaintext masterKeyB64 keyVersion nonce = .ok sealed) :
    openSecret C sealed.ciphertext sealed.algorithm masterKeyB64 = .ok plaintext := by
  obtain ⟨key, hkey, rfl⟩ := sealSecret_eq_ok h
  rw [openSecret, if_neg (not_not.mpr rfl), hkey]
  show decipher C key.val (Base64.decode (Base64.encode _)) = _
  rw [Base64.decode_encode, decipher_encrypt hC]

/-- A public key of another length, or one that `node:crypto` does not take, seals nothing. -/
theorem sealToRecipient_eq_ok
    (h : sealToRecipient C plaintext publicKeyB64 ephemeral nonce = .ok sealed) :
    ∃ shared, C.diffieHellman ephemeral.val (Base64.decode publicKeyB64) = some shared ∧
      sealed =
        { ciphertext := Base64.encode (C.publicKey ephemeral.val ++ (nonce.val ++
            ((C.encrypt (envelopeKey C shared (C.publicKey ephemeral.val)
              (Base64.decode publicKeyB64)) nonce.val plaintext).2 ++
              (C.encrypt (envelopeKey C shared (C.publicKey ephemeral.val)
                (Base64.decode publicKeyB64)) nonce.val plaintext).1)))
          keyVersion := CURRENT_KEY_VERSION
          algorithm := ASYMMETRIC_ALGORITHM } := by
  rw [sealToRecipient] at h
  cases hraw : raw32 publicKeyB64 "WALLET_KEY_PUBLIC_KEY" with
  | error e =>
    rw [hraw] at h
    exact absurd h (by simp [bind, Except.bind])
  | ok recipientRaw =>
    obtain ⟨rfl, _⟩ := raw32_eq_ok.mp hraw
    rw [hraw] at h
    cases hshared : C.diffieHellman ephemeral.val (Base64.decode publicKeyB64) with
    | none =>
      have hagree : agree C ephemeral.val (Base64.decode publicKeyB64) = .error .crypto := by
        rw [agree, hshared]
      simp only [bind, Except.bind] at h
      rw [hagree] at h
      exact absurd h (by simp)
    | some shared =>
      have hagree : agree C ephemeral.val (Base64.decode publicKeyB64) = .ok shared := by
        rw [agree, hshared]
      simp only [bind, Except.bind] at h
      rw [hagree] at h
      exact ⟨shared, rfl, (Except.ok.inj h).symm⟩

/-- **What is sealed to a recipient opens with its private key.** -/
theorem openFromRecipient_sealToRecipient (hC : C.Lawful)
    (hpair : IsKeyPair C publicKeyB64 privateKeyB64)
    (h : sealToRecipient C plaintext publicKeyB64 ephemeral nonce = .ok sealed) :
    openFromRecipient C sealed.ciphertext sealed.algorithm privateKeyB64 = .ok plaintext := by
  obtain ⟨shared, hshared, rfl⟩ := sealToRecipient_eq_ok h
  have hpriv : raw32 privateKeyB64 "WALLET_KEY_PRIVATE_KEY" = .ok (Base64.decode privateKeyB64) :=
    raw32_eq_ok.mpr ⟨rfl, hpair.length⟩
  -- both sides agree on the shared secret
  obtain ⟨shared', hseal, hopen⟩ := hC.agreement ephemeral ⟨_, hpair.length⟩
  rw [hpair.decode, hseal] at hshared
  obtain rfl := Option.some_inj.mp hshared
  have hagree : agree C (Base64.decode privateKeyB64) (C.publicKey ephemeral.val) = .ok shared' := by
    rw [agree, hopen]
  rw [openFromRecipient, if_neg (not_not.mpr rfl), hpriv]
  simp only [bind, Except.bind, Base64.decode_encode,
    List.take_left' (hC.publicKey_length ephemeral),
    List.drop_left' (hC.publicKey_length ephemeral)]
  rw [hagree, hpair.decode]
  exact decipher_encrypt hC ⟨_, hC.hkdfSync_length _ _ _⟩ nonce plaintext

/-! ### What is stored opens -/

/-- A stored text is read as what was sealed. -/
theorem openWalletKey_stringify (sealed : SealedWalletKey) (openers : WalletKeyOpeners) :
    openWalletKey C sealed.stringify openers =
      openBlob C openers sealed.ciphertext sealed.algorithm := by
  rw [openWalletKey, SealedWalletKey.stringify, JsonText.parse_stringify _ (List.cons_ne_nil _ _)]
  rfl

/-- **A stored symmetric blob opens.** -/
theorem openWalletKey_sealSecret (hC : C.Lawful)
    (h : sealSecret C plaintext masterKeyB64 keyVersion nonce = .ok sealed)
    (walletPrivateKeyB64 : Option String) :
    openWalletKey C sealed.stringify ⟨masterKeyB64, walletPrivateKeyB64⟩ = .ok plaintext := by
  have hopen := openSecret_sealSecret hC h
  obtain ⟨key, hkey, rfl⟩ := sealSecret_eq_ok h
  have halgorithm : SYMMETRIC_ALGORITHM ≠ ASYMMETRIC_ALGORITHM := by decide
  rw [openWalletKey_stringify, openBlob, if_neg halgorithm]
  exact hopen

/-- **A stored envelope opens.** -/
theorem openWalletKey_sealToRecipient (hC : C.Lawful)
    (hpair : IsKeyPair C publicKeyB64 privateKeyB64)
    (h : sealToRecipient C plaintext publicKeyB64 ephemeral nonce = .ok sealed)
    (masterKeyB64 : String) :
    openWalletKey C sealed.stringify ⟨masterKeyB64, some privateKeyB64⟩ = .ok plaintext := by
  have hopen := openFromRecipient_sealToRecipient hC hpair h
  obtain ⟨shared, hshared, rfl⟩ := sealToRecipient_eq_ok h
  rw [openWalletKey_stringify, openBlob, if_pos rfl]
  exact hopen

/-- The text of a sealed key names its scheme. -/
theorem algorithmOf_stringify (sealed : SealedWalletKey) :
    algorithmOf sealed.stringify = some sealed.algorithm := by
  rw [algorithmOf, SealedWalletKey.stringify, JsonText.parse_stringify _ (List.cons_ne_nil _ _)]
  rfl

/-- Without the private key no envelope opens. -/
theorem not_openWalletKey_sealToRecipient
    (h : sealToRecipient C plaintext publicKeyB64 ephemeral nonce = .ok sealed)
    (masterKeyB64 text : String) :
    openWalletKey C sealed.stringify ⟨masterKeyB64, none⟩ ≠ .ok text := by
  obtain ⟨shared, hshared, rfl⟩ := sealToRecipient_eq_ok h
  rw [openWalletKey_stringify, openBlob, if_pos rfl]
  simp

/-- What opens without the private key is a symmetric blob, and opens with it to the same key. -/
theorem openWalletKey_of_legacy {sealedJson text : String}
    (h : openWalletKey C sealedJson ⟨masterKeyB64, none⟩ = .ok text)
    (walletPrivateKeyB64 : Option String) :
    algorithmOf sealedJson = some SYMMETRIC_ALGORITHM ∧
      openWalletKey C sealedJson ⟨masterKeyB64, walletPrivateKeyB64⟩ = .ok text := by
  rw [openWalletKey] at h ⊢
  rw [algorithmOf]
  cases hparsed : JsonText.parse sealedJson with
  | none =>
    rw [hparsed] at h
    exact absurd h (by simp)
  | some parsed =>
    rw [hparsed] at h
    simp only [Option.bind_some] at h ⊢
    cases hciphertext : textOf parsed "ciphertext" with
    | none =>
      rw [hciphertext] at h
      exact absurd h (by simp)
    | some ciphertext =>
      cases halgorithm : textOf parsed "algorithm" with
      | none =>
        rw [hciphertext, halgorithm] at h
        exact absurd h (by simp)
      | some algorithm =>
        rw [hciphertext, halgorithm] at h
        simp only [openBlob] at h ⊢
        split at h
        · exact absurd h (by simp)
        · next hother =>
          rw [if_neg hother]
          refine ⟨?_, h⟩
          rw [openSecret] at h
          split at h
          · exact absurd h (by simp)
          · next hsymmetric => rw [not_not.mp hsymmetric]

end

end WalletKeys
