/-
Which OpenSea keys a caller is handed (`apps/worker/src/credentials.ts`).

* `partitionKeys` — the part of the pool a purpose may spend;
* `resolveOpenSeaKey` — the saved keys, else the managed instant key, else a fresh one;
* `scanKey`, `mintKey` — how the background scans and the mint path ask for theirs;
* `poolsSplit_iff` — the two are handed disjoint parts of the pool exactly when one key is
  set aside for scanning, and it has not been saved twice.
-/
import HoodMint.Credentials
import HoodMint.Lib.Effect
import HoodMint.Lib.Text

namespace OpenSeaKeys

open Credentials Effect

/-! ### The partition -/

inductive KeyPurpose | scan | mint
deriving DecidableEq

/-- `partitionKeys`. -/
def partitionKeys (keys : List String) (purpose : KeyPurpose) (scanCount : ℤ) : List String :=
  if keys.length < 2 then keys
  else
    let n := (min (max 1 scanCount) (keys.length - 1)).toNat
    match purpose with
    | .scan => keys.take n
    | .mint => keys.drop n

/-! ### The resolver -/

structure Thrown where
  message : String
  category : Option String
deriving DecidableEq

/-- `ResolvedKey`. -/
structure ResolvedKey where
  apiKey : Option String
  apiKeys : List String
  instant : Bool
  expiresAt : Option ℤ
deriving DecidableEq

/-- What the resolver asks for; the backoff is a setting. -/
inductive Cmd
  | now
  | findCredentialsByType (type : CredentialType)
  | findCredentialByType (type : CredentialType)
  | getCredentialSecret (id : String)
  | getBackoffUntil
  | setBackoffUntil (ms : ℤ)
  | createInstantKey
  | createCredential (type : CredentialType) (name secret : String) (expiresAt : ℤ)
deriving DecidableEq

abbrev Cmd.Resp : Cmd → Type
  | .now => ℤ
  | .findCredentialsByType _ => List Credential
  | .findCredentialByType _ => Option Credential
  | .getCredentialSecret _ => Option String
  | .getBackoffUntil => Option ℤ
  | .setBackoffUntil _ => Unit
  | .createInstantKey => String × Option ℤ
  | .createCredential .. => Unit

abbrev signature : Signature := ⟨Cmd, Cmd.Resp⟩

abbrev Resolver := Prog signature Thrown

abbrev ask (c : Cmd) : Resolver c.Resp := Prog.issue (S := signature) c

/-- The saved keys that are not blank. -/
def portalSecrets : List Credential → Resolver (List String)
  | [] => return []
  | portal :: portals => do
    let secret ← ask (.getCredentialSecret portal.id)
    let others ← portalSecrets portals
    match secret with
    | some secret => return if Text.trim secret = "" then others else secret :: others
    | none => return others

/-- The environment's key joins the saved ones, unless it is one of them. -/
def withEnvKey (keys : List String) (envKey : Option String) : List String :=
  match envKey with
  | some key => if key = "" ∨ key ∈ keys then keys else keys ++ [key]
  | none => keys

def dayMs : ℤ := 86400000

/-- A fresh instant key; when its creation fails, none is asked for during a quarter hour. -/
def bootstrapInstantKey : Resolver ResolvedKey := do
  match ← (ask .createInstantKey).attempt with
  | .error error => do
    let nowMs ← ask .now
    let _ ← (ask (.setBackoffUntil (nowMs + 900000))).attempt
    throw error
  | .ok (apiKey, expiresAt) => do
    let nowMs ← ask .now
    let expiresAt := expiresAt.getD (nowMs + 6 * dayMs)
    ask (.createCredential .openseaInstantKey "Managed instant key" apiKey expiresAt)
    return ⟨some apiKey, [apiKey], true, some expiresAt⟩

def freshInstantKey : Resolver ResolvedKey := do
  match ← ask .getBackoffUntil with
  | none => bootstrapInstantKey
  | some backoffUntil => do
    let nowMs ← ask .now
    if backoffUntil > nowMs then
      throw ⟨"no OpenSea key: instant-key issuance is rate-limited — " ++
        "add a Developer API key in Admin → OpenSea", some "AuthRequired"⟩
    else bootstrapInstantKey

/-- The managed instant key, unless it expires within a day. -/
def instantKey : Resolver ResolvedKey := do
  match ← ask (.findCredentialByType .openseaInstantKey) with
  | none => freshInstantKey
  | some instant => do
    match ← ask (.getCredentialSecret instant.id), instant.expiresAt with
    | none, _ => freshInstantKey
    | some secret, none => return ⟨some secret, [secret], true, none⟩
    | some secret, some expiresAt => do
      let nowMs ← ask .now
      if expiresAt > nowMs + dayMs then return ⟨some secret, [secret], true, some expiresAt⟩
      else freshInstantKey

/-- `resolveOpenSeaKey`. -/
def resolveOpenSeaKey (envKey : Option String) (purpose : KeyPurpose := .mint)
    (scanKeyCount : ℤ := 1) : Resolver ResolvedKey := do
  let portals ← ask (.findCredentialsByType .openseaApiKey)
  let portalKeys := withEnvKey (← portalSecrets portals) envKey
  if portalKeys = [] then instantKey
  else
    let allowed := partitionKeys portalKeys purpose scanKeyCount
    return ⟨allowed.head?, allowed, false, portals.head?.bind Credential.expiresAt⟩

/-- The configuration of the worker. -/
structure Config where
  openseaApiKey : Option String
  openseaScanKeyCount : ℤ

/-- How `runDiscoveryCycle`, `runCollectionDiscovery`, `runDetailRefresh`, the eligibility and
rarity scans and the maintenance ask for their keys. -/
def scanKey (config : Config) : Resolver ResolvedKey :=
  resolveOpenSeaKey config.openseaApiKey .scan config.openseaScanKeyCount

/-- How `buildOpenSeaMintTx` and `burstBuildOpenSeaMintTx` ask for theirs. -/
def mintKey (config : Config) : Resolver ResolvedKey := resolveOpenSeaKey config.openseaApiKey

/-! ### What a caller is handed -/

section

variable {store : Store} {config : Config} {envKey : Option String} {key : String}

/-- The reads are those of the stored credentials; anything may fail. -/
def reads (store : Store) : Monitor signature Thrown Unit where
  guard _ _ := True
  allowed _ c x :=
    match c, x with
    | .findCredentialsByType type, .ok found => found = store.findCredentialsByType type
    | .findCredentialByType type, .ok found => found = store.findCredentialByType type
    | .getCredentialSecret id, .ok secret => secret = store.getCredentialSecret id
    | _, _ => True
  next _ _ _ := ()

/-- Some run of the resolver hands out the key. -/
def Handed (store : Store) (resolver : Resolver ResolvedKey) (key : String) : Prop :=
  ∃ tr resolved, resolver.Runs tr (.finished (.ok resolved)) ∧ (reads store).Admits () tr ∧
    key ∈ resolved.apiKeys

/-- The saved keys, newest first. -/
def saved (portals : List Credential) : List String :=
  (portals.map Credential.secret).filter fun secret => Text.trim secret ≠ ""

/-- All the keys there are. -/
def pool (store : Store) (envKey : Option String) : List String :=
  withEnvKey (saved (store.findCredentialsByType .openseaApiKey)) envKey

theorem saved_cons (portal : Credential) (portals : List Credential) :
    saved (portal :: portals) =
      if Text.trim portal.secret = "" then saved portals
      else portal.secret :: saved portals := by
  rw [saved, List.map_cons, List.filter_cons]
  by_cases h : Text.trim portal.secret = ""
  · rw [if_pos h, if_neg (by rw [h]; decide)]
    rfl
  · rw [if_neg h, if_pos (decide_eq_true h)]
    rfl

/-- The secrets of listed credentials are read back. -/
theorem portalSecrets_wp {portals : List Credential}
    (h : ∀ portal ∈ portals, portal ∈ store.findCredentialsByType .openseaApiKey) :
    (portalSecrets portals).wp (reads store)
      (Prog.onReturn fun keys _ => keys = saved portals) () := by
  induction portals with
  | nil => rfl
  | cons portal portals ih =>
    refine Prog.onReturn_issue_bind trivial fun secret hsecret => ?_
    have hread : secret = some portal.secret :=
      hsecret.trans (Store.getCredentialSecret_of_mem (h portal List.mem_cons_self))
    refine Prog.onReturn_bind (ih fun p hp => h p (List.mem_cons_of_mem _ hp)) ?_
    rintro others _ rfl
    subst hread
    exact (saved_cons portal portals).symm

theorem portalSecrets_may {portals : List Credential}
    (h : ∀ portal ∈ portals, portal ∈ store.findCredentialsByType .openseaApiKey) :
    (portalSecrets portals).may (reads store) (fun r _ => r = .ok (saved portals)) () := by
  induction portals with
  | nil => rfl
  | cons portal portals ih =>
    have hread := Store.getCredentialSecret_of_mem (h portal List.mem_cons_self)
    refine Prog.may_bind (some portal.secret) (Prog.may_issue (.ok _) hread.symm ⟨rfl, ?_⟩)
    refine Prog.may_bind (saved portals)
      (Prog.may_mono (ih fun p hp => h p (List.mem_cons_of_mem _ hp)) ?_)
    rintro r ⟨⟩ rfl
    refine ⟨rfl, ?_⟩
    exact congrArg Except.ok (saved_cons portal portals).symm

/-- **A caller is handed its part of the pool.** -/
theorem handed_iff (hpool : pool store envKey ≠ []) {purpose : KeyPurpose} {count : ℤ} :
    Handed store (resolveOpenSeaKey envKey purpose count) key ↔
      key ∈ partitionKeys (pool store envKey) purpose count := by
  constructor
  · rintro ⟨tr, resolved, hruns, hadmits, hkey⟩
    have hwp : (resolveOpenSeaKey envKey purpose count).wp (reads store) (Prog.onReturn
        fun resolved _ => resolved.apiKeys = partitionKeys (pool store envKey) purpose count) () := by
      refine Prog.onReturn_issue_bind trivial fun portals hportals => ?_
      obtain rfl : portals = store.findCredentialsByType .openseaApiKey := hportals
      refine Prog.onReturn_bind (portalSecrets_wp fun portal hp => hp) ?_
      rintro keys _ rfl
      show Prog.wp _ (if pool store envKey = [] then _ else _) _ _
      rw [if_neg hpool]
      exact rfl
    have hkeys : resolved.apiKeys = partitionKeys (pool store envKey) purpose count :=
      (Prog.sound hwp hruns hadmits).2 _ rfl
    rwa [hkeys] at hkey
  · intro hkey
    have hmay : (resolveOpenSeaKey envKey purpose count).may (reads store)
        (fun r _ => ∃ resolved, r = .ok resolved ∧
          resolved.apiKeys = partitionKeys (pool store envKey) purpose count) () := by
      refine Prog.may_bind (store.findCredentialsByType .openseaApiKey)
        (Prog.may_issue (.ok _) rfl ⟨rfl, ?_⟩)
      refine Prog.may_bind (saved (store.findCredentialsByType .openseaApiKey))
        (Prog.may_mono (portalSecrets_may fun portal hp => hp) ?_)
      rintro r ⟨⟩ rfl
      refine ⟨rfl, ?_⟩
      show Prog.may _ (if pool store envKey = [] then _ else _) _ _
      rw [if_neg hpool]
      exact ⟨_, rfl, rfl⟩
    obtain ⟨tr, r, hruns, hadmits, resolved, rfl, hkeys⟩ := Prog.exists_run hmay
    exact ⟨tr, resolved, hruns, hadmits, hkeys ▸ hkey⟩

/-! ### The two pools -/

/-- Scanning has the first key and perhaps some of the others. -/
theorem partitionKeys_scan (first second : String) (rest : List String) (count : ℤ) :
    ∃ m, partitionKeys (first :: second :: rest) .scan count =
        first :: (second :: rest).take m ∧ (m = 0 ↔ count ≤ 1 ∨ rest = []) := by
  have hlength : ((first :: second :: rest).length : ℤ) = rest.length + 2 := rfl
  refine ⟨(min (max 1 count) (rest.length + 1)).toNat - 1, ?_, ?_⟩
  · rw [partitionKeys, if_neg (by rw [List.length_cons, List.length_cons]; omega), hlength]
    have hn : (min (max 1 count) ((rest.length : ℤ) + 2 - 1)).toNat =
        (min (max 1 count) (rest.length + 1)).toNat - 1 + 1 := by omega
    show List.take (min (max 1 count) ((rest.length : ℤ) + 2 - 1)).toNat _ = _
    rw [hn, List.take_succ_cons]
  · rw [← List.length_eq_zero_iff]
    omega

/-- Minting has all keys but the first. -/
theorem partitionKeys_mint (first second : String) (rest : List String) :
    partitionKeys (first :: second :: rest) .mint 1 = second :: rest := by
  have hlength : ((first :: second :: rest).length : ℤ) = rest.length + 2 := rfl
  rw [partitionKeys, if_neg (by rw [List.length_cons, List.length_cons]; omega), hlength]
  have hn : (min (max 1 1) ((rest.length : ℤ) + 2 - 1)).toNat = 1 := by omega
  show List.drop (min (max 1 1) ((rest.length : ℤ) + 2 - 1)).toNat _ = _
  rw [hn]
  rfl

/-- The scans and the mint path are handed no key in common, and together all of them. -/
def PoolsSplit (store : Store) (config : Config) : Prop :=
  (∀ key, ¬ (Handed store (scanKey config) key ∧ Handed store (mintKey config) key)) ∧
    ∀ key, Handed store (scanKey config) key ∨ Handed store (mintKey config) key ↔
      key ∈ pool store config.openseaApiKey

/-- **Scan and mint keys.**  With two keys or more, the scans and the mint path have disjoint
parts of the pool exactly when one key is set aside for scanning, or there are two keys only,
and the newest saved key has not been saved a second time. -/
theorem poolsSplit_iff (store : Store) (config : Config)
    (hdistinct : ∃ a ∈ pool store config.openseaApiKey,
      ∃ b ∈ pool store config.openseaApiKey, a ≠ b) :
    PoolsSplit store config ↔
      (config.openseaScanKeyCount ≤ 1 ∨ (pool store config.openseaApiKey).length = 2) ∧
        ∀ newest ∈ (pool store config.openseaApiKey).head?,
          newest ∉ (pool store config.openseaApiKey).tail := by
  obtain ⟨a, ha, b, hb, hab⟩ := hdistinct
  have hpool := List.ne_nil_of_mem ha
  simp only [PoolsSplit, scanKey, mintKey, handed_iff hpool]
  generalize pool store config.openseaApiKey = keys at ha hb hpool
  -- with fewer than two keys no two of them differ
  match keys, ha, hb with
  | [only], ha, hb =>
    exact absurd ((List.mem_singleton.mp ha).trans (List.mem_singleton.mp hb).symm) hab
  | first :: second :: rest, _, _ =>
    obtain ⟨m, hscan, hm⟩ := partitionKeys_scan first second rest config.openseaScanKeyCount
    rw [hscan, partitionKeys_mint]
    have hcount : (first :: second :: rest).length = 2 ↔ rest = [] := by
      rw [List.length_cons, List.length_cons, ← List.length_eq_zero_iff]
      omega
    have hall : ∀ key, (key ∈ first :: (second :: rest).take m ∨ key ∈ second :: rest) ↔
        key ∈ first :: second :: rest := by
      intro key
      constructor
      · rintro (h | h)
        · exact (List.take_sublist m (second :: rest)).cons_cons first |>.subset h
        · exact List.mem_cons_of_mem _ h
      · intro h
        rcases List.mem_cons.mp h with rfl | h
        · exact Or.inl List.mem_cons_self
        · exact Or.inr h
    rw [and_iff_left hall, hcount, ← hm]
    constructor
    · intro hdisjoint
      constructor
      · -- otherwise the second key is in both parts
        by_contra hpos
        obtain ⟨n, rfl⟩ := Nat.exists_eq_succ_of_ne_zero hpos
        exact hdisjoint second ⟨List.mem_cons_of_mem _ List.mem_cons_self, List.mem_cons_self⟩
      · rintro newest ⟨⟩ htwice
        exact hdisjoint first ⟨List.mem_cons_self, htwice⟩
    · rintro ⟨rfl, htwice⟩ key ⟨hs, hmint⟩
      obtain rfl : key = first := List.mem_singleton.mp hs
      exact htwice key rfl hmint

end

namespace Sample

/-- Keys saved under the identifiers 1, 2, 3, newest first. -/
def store (keys : String × String × String) : Store :=
  ((Relational.Table.empty.insert ⟨"1", .openseaApiKey, "OpenSea", keys.2.2, none⟩).insert
    ⟨"2", .openseaApiKey, "OpenSea", keys.2.1, none⟩).insert
    ⟨"3", .openseaApiKey, "OpenSea", keys.1, none⟩

def distinct : Store := store ("a", "b", "c")

end Sample

theorem poolsSplit_one : PoolsSplit Sample.distinct ⟨none, 1⟩ :=
  (poolsSplit_iff Sample.distinct ⟨none, 1⟩
    ⟨"a", by decide, "b", by decide, by decide⟩).mpr ⟨Or.inl (by decide), by decide⟩

/-- Two keys set aside: the second is handed to the mint path all the same. -/
theorem not_poolsSplit_two :
    (∃ a ∈ pool Sample.distinct none, ∃ b ∈ pool Sample.distinct none, a ≠ b) ∧
      ¬ PoolsSplit Sample.distinct ⟨none, 2⟩ := by
  refine ⟨⟨"a", by decide, "b", by decide, by decide⟩, fun h => h.1 "b" ?_⟩
  exact ⟨(handed_iff (by decide)).mpr (by decide), (handed_iff (by decide)).mpr (by decide)⟩

end OpenSeaKeys
