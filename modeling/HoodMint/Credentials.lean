/-
The stored credentials (`packages/db/src/repositories/credentials.ts`).

A secret is sealed when it is stored and opened when it is read; here it is kept in the clear.
Rows are kept newest first, which is the order the repository lists them in.
-/
import HoodMint.Lib.Table
import Mathlib.Data.Int.Notation

namespace Credentials

open Relational

/-- `CredentialType`. -/
inductive CredentialType
  | openseaApiKey | openseaPat | openseaInstantKey
  | telegramBot | webhook | discordWebhook
  | delegatedSessionKey
  | xaiUserToken | xaiApiKey | xaiOauthClient | xaiDevicePending
  | nvtApiKey | nvtDiscordWebhook | nvtOpenseaPass
deriving DecidableEq

/-- A row of `credentials`. -/
structure Credential where
  id : String
  type : CredentialType
  name : String
  secret : String
  expiresAt : Option ℤ
deriving DecidableEq

abbrev Store := Table Credential String Credential.id

namespace Store

variable (store : Store)

/-- `createCredential`; the identifier is the database's. -/
def createCredential (id : String) (type : CredentialType) (name secret : String)
    (expiresAt : Option ℤ) : Store :=
  store.insert ⟨id, type, name, secret, expiresAt⟩

/-- `getCredentialSecret`. -/
def getCredentialSecret (id : String) : Option String := (store.get? id).map Credential.secret

/-- `findCredentialsByType`. -/
def findCredentialsByType (type : CredentialType) : List Credential :=
  store.rows.filter fun c => c.type = type

/-- `findCredentialByType`. -/
def findCredentialByType (type : CredentialType) : Option Credential :=
  (store.findCredentialsByType type).head?

variable {store}

/-- A listed credential can be read. -/
theorem getCredentialSecret_of_mem {type : CredentialType} {c : Credential}
    (h : c ∈ store.findCredentialsByType type) :
    store.getCredentialSecret c.id = some c.secret := by
  have hc : store.get? c.id = some c := Table.get?_eq_some.mpr ⟨(List.mem_filter.mp h).1, rfl⟩
  rw [getCredentialSecret, hc]
  rfl

/-- A new credential can be read. -/
theorem getCredentialSecret_createCredential {id name secret : String} {type : CredentialType}
    {expiresAt : Option ℤ} (h : ∀ c ∈ store, c.id ≠ id) :
    (store.createCredential id type name secret expiresAt).getCredentialSecret id =
      some secret := by
  have hget : (store.createCredential id type name secret expiresAt).get? id =
      some ⟨id, type, name, secret, expiresAt⟩ :=
    Table.get?_eq_some.mpr ⟨Table.mem_insert.mpr (Or.inr ⟨rfl, h⟩), rfl⟩
  rw [getCredentialSecret, hget]
  rfl

end Store

end Credentials
