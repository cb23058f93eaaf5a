/-
What the OpenSea endpoints answer, and the upserts it is normalised to
(`packages/providers/src/opensea/schemas.ts`, `normalizer.ts`).

* `matchesChain` — the chain test that the listings share;
* `parseCollectionRow` — a row of the collections listing, by its first contract on the chain;
* `stageTypeToKind`, `toStageUpsert` — a stage of a payload;
* `normalizeDropRow`, `normalizeCollectionRow`, `normalizeDropDetail` — the three drafts, on the
  chain that their caller gives.

Payloads are those the schemas accept, their times as milliseconds.  What only evidence rows
keep of them is left out.
-/
import HoodMint.Projects

namespace Projects

/-! ### Payloads -/

/-- `stageSchema`. -/
structure StagePayload where
  uuid : String
  stageType : String
  startTime : ℤ
  endTime : Option ℤ
  label : Option String
  price : Option String
  priceCurrencyAddress : Option String
  maxPerWallet : Option ℕ
  paused : Option Bool
deriving DecidableEq

/-- `dropRowSchema`: a row of the drops listing, or the answer of the drop endpoint. -/
structure DropRow where
  chain : String
  collectionSlug : String
  contractAddress : Option String
  collectionName : Option String
  imageUrl : Option String
  activeStage : Option StagePayload
  nextStage : Option StagePayload
  stages : Option (List StagePayload)
deriving DecidableEq

/-- `collectionContractSchema`. -/
structure CollectionContract where
  address : String
  chain : String
deriving DecidableEq

/-- `collectionRowSchema`. -/
structure CollectionRow where
  collection : String
  name : Option String
  imageUrl : Option String
  contracts : List CollectionContract
  createdDate : Option String
deriving DecidableEq

/-- `ParsedCollectionRow`. -/
structure ParsedCollectionRow where
  slug : String
  name : String
  imageUrl : Option String
  contractAddress : String
  createdDate : Option String
deriving DecidableEq

/-! ### Chains -/

/-- `matchesChain`. -/
def matchesChain (rowChain targetSlug : String) : Bool :=
  let normalized := Text.lower rowChain
  let target := Text.lower targetSlug
  normalized = target ∨ normalized = "4663" ∨
    Text.without ['-', '_'] normalized = Text.without ['-', '_'] target ∨
    Text.includes normalized target

/-- A row of `parseCollectionsPage`: its contract on the chain, if there is one. -/
def parseCollectionRow (chainSlug : String) (row : CollectionRow) : Option ParsedCollectionRow :=
  (row.contracts.find? fun c => matchesChain c.chain chainSlug).map fun onChain =>
    ⟨row.collection, row.name.getD row.collection, row.imageUrl, onChain.address,
      row.createdDate⟩

/-! ### Stages -/

/-- `STAGE_KIND_MAP`. -/
def stageKindMap : List (String × StageKind) :=
  [("public_sale", .publicSale), ("public", .publicSale), ("open", .publicSale),
    ("signed_public", .publicSale), ("allowlist", .allowlist), ("allowlist_sale", .allowlist),
    ("allow_list", .allowlist), ("allowlist_presale", .allowlist), ("signed_presale", .allowlist),
    ("presale", .presale), ("pre_sale", .presale), ("gtd", .gtd), ("guaranteed", .gtd),
    ("community", .community), ("community_sale", .community), ("token_gated", .community),
    ("holder", .community), ("holders", .community)]

/-- `[^a-z]`, or the end of the text. -/
def isBreak (c : Option Char) : Bool := c.elim true fun c => ¬ c.isLower

/-- `/(?:^|[^a-z])wl(?:[^a-z]|$)/`, where `before` is the character in front. -/
def mentionsWl (before : Option Char) : List Char → Bool
  | [] => false
  | c :: rest =>
    (isBreak before && c = 'w' && rest.head? = some 'l' && isBreak rest.tail.head?) ||
      mentionsWl (some c) rest

/-- `stageTypeToKind`. -/
def stageTypeToKind (stageType : String) : StageKind :=
  let raw := Text.lower stageType
  match stageKindMap.find? fun entry => entry.1 = raw with
  | some entry => entry.2
  | none =>
    if Text.includes raw "gtd" ∨ Text.includes raw "guarantee" then .gtd
    else if Text.includes raw "holder" ∨ Text.includes raw "token_gated" ∨
        Text.includes raw "community" then .community
    else if Text.includes raw "presale" ∨ Text.includes raw "allowlist" ∨
        Text.includes raw "allow_list" ∨ Text.includes raw "signed" ∨
        Text.includes raw "whitelist" ∨ Text.includes raw "fcfs" ∨
        mentionsWl none raw.toList then .allowlist
    else if Text.includes raw "public" ∨ Text.includes raw "open" then .publicSale
    else .unknown

/-- `normalizeStageId`. -/
def normalizeStageId (raw : String) : String := Text.without ['-'] (Text.lower (Text.trim raw))

/-- A normalised stage id is in the spelling that stages are matched in. -/
theorem canonicalStageId_normalizeStageId (raw : String) :
    canonicalStageId (normalizeStageId raw) = normalizeStageId raw := by
  have hdash : (normalizeStageId raw).toList.filter (· ≠ '-') = (normalizeStageId raw).toList := by
    rw [normalizeStageId, Text.without, String.toList_ofList, List.filter_eq_self]
    intro c hc
    obtain ⟨-, hc⟩ := List.mem_filter.mp hc
    exact decide_eq_true fun h => of_decide_eq_true hc (List.mem_singleton.mpr h)
  have hlower : (normalizeStageId raw).toList.map Char.toLower = (normalizeStageId raw).toList := by
    refine (List.map_congr_left (g := id) fun c hc => ?_).trans (List.map_id _)
    rw [normalizeStageId, Text.without, String.toList_ofList] at hc
    obtain ⟨hc, -⟩ := List.mem_filter.mp hc
    rw [Text.lower, String.toList_ofList] at hc
    obtain ⟨c, -, rfl⟩ := List.mem_map.mp hc
    exact Text.toLower_toLower c
  rw [canonicalStageId, hdash, String.ofList_toList, Text.lower, hlower, String.ofList_toList]

/-- `toStageUpsert`. -/
def toStageUpsert (stage : StagePayload) : StageUpsert where
  providerStageId := normalizeStageId stage.uuid
  label := stage.label.getD stage.stageType
  kind := stageTypeToKind stage.stageType
  priceWei := stage.price
  currency := stage.priceCurrencyAddress
  maxPerWallet := stage.maxPerWallet
  startsAt := stage.startTime
  endsAt := stage.endTime
  paused := stage.paused.getD false

/-! ### Drafts -/

/-- `NormalizeOptions`. -/
structure NormalizeOptions where
  chainId : ℕ
  now : ℤ
  feedType : Option String
deriving DecidableEq

/-- `normalizeDropRow`. -/
def normalizeDropRow (row : DropRow) (options : NormalizeOptions) : ProjectUpsert where
  providerKind := "opensea"
  externalId := row.collectionSlug
  chainId := options.chainId
  contractAddress := row.contractAddress
  name := row.collectionName.getD row.collectionSlug
  slug := some row.collectionSlug
  imageUrl := row.imageUrl
  confidence := .singleSource
  stages := (row.activeStage.toList ++ row.nextStage.toList).map toStageUpsert
  supply := none
  evidenceKind := some ("drops:" ++ options.feedType.getD "list")
  now := options.now

/-- `normalizeCollectionRow`. -/
def normalizeCollectionRow (row : ParsedCollectionRow) (options : NormalizeOptions) :
    ProjectUpsert where
  providerKind := "opensea"
  externalId := row.slug
  chainId := options.chainId
  contractAddress := some row.contractAddress
  name := row.name
  slug := some row.slug
  imageUrl := row.imageUrl
  confidence := .singleSource
  stages := []
  supply := none
  evidenceKind := some "collections:list"
  now := options.now

/-- A stage that the list does not name yet. -/
def mergeStage (merged : List StageUpsert) (extra : StageUpsert) : List StageUpsert :=
  if merged.any fun s => s.providerStageId = extra.providerStageId then merged
  else merged ++ [extra]

/-- `normalizeDropDetail`. -/
def normalizeDropDetail (row : DropRow) (options : NormalizeOptions) : ProjectUpsert where
  providerKind := "opensea"
  externalId := row.collectionSlug
  chainId := options.chainId
  contractAddress := row.contractAddress
  name := row.collectionName.getD row.collectionSlug
  slug := some row.collectionSlug
  imageUrl := row.imageUrl
  confidence := .verified
  stages := ((row.activeStage.toList ++ row.nextStage.toList).map toStageUpsert).foldl mergeStage
    ((row.stages.getD []).map toStageUpsert)
  supply := none
  evidenceKind := some "drops:detail"
  now := options.now

end Projects
