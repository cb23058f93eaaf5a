/-
A pass of the NeverFuckingTrade scanner (`packages/notifications/src/nvt-scanner.ts`,
`packages/notifications/src/render.ts`).

* `Pass` — what a pass finds: the settings, the mints, the accounts with what the whitelist scan
  lists for them, and how Discord answers each message;
* `hits`, `eligibleMints` — what of it an account may mint;
* `buildUpcomingDigestEmbeds` — the digest: eight mints an embed, five embeds, four thousand
  characters an embed; `Part.shows`, the hits whose lines it still has;
* `dispatch`, `trimmedKeys` — the messages of the pass, and the keys it stores.

Instants are milliseconds.  How an instant is written, and `toUpperCase`, are parameters.
-/
import HoodMint.Lib.Text
import Mathlib.Algebra.GroupWithZero.Nat
import Mathlib.Data.Int.Notation
import Mathlib.Data.List.Sort
import Mathlib.Data.String.Basic

namespace NvtScan

open Text

/-! ### Text -/

/-- The formatting of the platform. -/
structure Formats where
  /-- `formatDiscordRelativeTime`. -/
  relativeTime : ℤ → String
  /-- `formatDateTimeGmt7`. -/
  dateTimeGmt7 : ℤ → String
  toUpperCase : String → String

/-- The code units of a character. -/
def units (c : Char) : ℕ := if c.toNat < 0x10000 then 1 else 2

/-- `text.length`. -/
def jsLength (text : String) : ℕ := (text.toList.map units).sum

/-- `text.slice(0, n)`; a character that would be cut in two is left out. -/
def takeUnits : ℕ → List Char → List Char
  | _, [] => []
  | n, c :: cs => if units c ≤ n then c :: takeUnits (n - units c) cs else []

/-- `truncateDiscordString`. -/
def truncateDiscordString (value : String) (max : ℕ) : String :=
  if jsLength value ≤ max then value
  else String.ofList (takeUnits (max - 1) value.toList) ++ "…"

/-- The first of some texts that is not empty. -/
def firstOf (texts : List (Option String)) : String :=
  ((texts.filterMap id).find? (· ≠ "")).getD ""

/-! ### What a pass finds -/

/-- A price as it is written, and whether it is the number 0. -/
structure Price where
  text : String
  isZero : Bool

structure Stage where
  label : String
  kind : String
  price : Option Price
  currency : String
  start : ℤ
  endAt : Option ℤ

structure Links where
  opensea : Option String
  mint : Option String
  site : Option String

structure Mint where
  id : String
  chain : String
  contract : String
  name : String
  slug : String
  links : Links
  stages : List Stage
  status : String
  tier : String

structure Account where
  address : String
  label : String

/-- What the whitelist scan lists for an account. -/
structure ListedItem where
  slug : Option String
  contract : Option String
  /-- Of each stage, `label` and `kind`. -/
  stages : List (Option String × Option String)

structure MatchedStage where
  stage : Stage
  wallets : List Account

/-- `EligibleMintDigestItem`. -/
structure Item where
  mint : Mint
  stages : List MatchedStage

structure Hit where
  mint : Mint
  stage : Stage
  account : Account

/-- The alerted key of a mint, a stage and an account. -/
def keyOf (mintId label address : String) : String := mintId ++ ":" ++ label ++ ":" ++ lower address

def Hit.key (h : Hit) : String := keyOf h.mint.id h.stage.label h.account.address

/-- What a pass finds, and the answers to its messages. -/
structure Pass where
  now : ℤ
  lookForwardHours : ℕ
  notifyWhitelistHits : Option Bool
  notifyUpcomingDigest : Option Bool
  includeLivePublic : Option Bool
  forceSend : Bool
  sendUpcomingDigest : Bool
  mints : List Mint
  accounts : List Account
  /-- By lowercase address; nothing where the scan failed. -/
  listed : String → List ListedItem
  /-- Whether Discord acknowledges the `n`-th message. -/
  acknowledged : ℕ → Bool
  /-- Whether the settings are written in the end. -/
  written : Bool

/-! ### Hits -/

def Stage.isPublic (s : Stage) : Bool :=
  lower s.kind = "public" || includes (lower s.label) "public"

/-- The earliest start. -/
def Item.start (item : Item) : ℤ := ((item.stages.map (·.stage.start)).min?).getD 0

/-- An entry of `accountHits`. -/
def ListedItem.entries (item : ListedItem) : List (String × List String) :=
  let stages := item.stages.map fun s => firstOf [s.1, s.2, some "Whitelisted"]
  ([item.slug, item.contract].filterMap id).filterMap fun name =>
    if name = "" then none else some (lower name, stages)

namespace Pass

variable (p : Pass)

def hours : ℕ := if p.lookForwardHours = 0 then 24 else p.lookForwardHours

def windowEnd : ℤ := p.now + p.hours * 3600000

/-- The stage neither is over nor starts after the window. -/
def inWindow (s : Stage) : Bool := ! s.endAt.any (· < p.now) && ! (s.start > p.windowEnd)

def relevantMints : List Mint :=
  p.mints.filter fun m =>
    m.status = "live" ||
      (! (m.status = "sold_out" || m.status = "ended") && m.stages.any p.inWindow)

/-- `accountHits.get`, for the entry set last. -/
def accountHits (account : Account) (name : String) : Option (List String) :=
  if name = "" then none
  else (((p.listed (lower account.address)).flatMap ListedItem.entries).reverse.find? fun entry =>
    entry.1 = lower name).map Prod.snd

/-- The account is on the list of the stage. -/
def isEligible (m : Mint) (s : Stage) (account : Account) : Bool :=
  ((p.accountHits account m.slug).or (p.accountHits account m.contract)).any fun stages =>
    stages.any fun name => lower name = lower s.label || lower name = lower s.kind

def matchedWallets (m : Mint) (s : Stage) : List Account := p.accounts.filter (p.isEligible m s)

/-- The stages of the relevant mints that are in the window. -/
def candidates : List (Mint × Stage) :=
  p.relevantMints.flatMap fun m => (m.stages.filter p.inWindow).map fun s => (m, s)

/-- The hits that are reported, alerted or not. -/
def reported : List Hit :=
  p.candidates.flatMap fun (m, s) => (p.matchedWallets m s).map fun account => ⟨m, s, account⟩

/-- The hits to alert. -/
def hits (lastAlerted : List String) : List Hit :=
  p.reported.filter fun h => p.forceSend || h.key ∉ lastAlerted

/-- `eligibleMintsMap`, with one more matched stage. -/
def addMatched (m : Mint) (matched : MatchedStage) : List Item → List Item
  | [] => [⟨m, [matched]⟩]
  | item :: items =>
    if item.mint.id = m.id then { item with stages := item.stages ++ [matched] } :: items
    else item :: addMatched m matched items

/-- A public stage that anyone can mint now. -/
def isOpenPublic (m : Mint) (s : Stage) : Bool :=
  p.includeLivePublic ≠ some false && s.isPublic &&
    (s.start ≤ p.now && ! s.endAt.any (· ≤ p.now)) && m.status ≠ "sold_out" && m.status ≠ "ended"

/-- A candidate, in `eligibleMintsMap`. -/
def addCandidate (items : List Item) (candidate : Mint × Stage) : List Item :=
  let (m, s) := candidate
  if p.matchedWallets m s ≠ [] then addMatched m ⟨s, p.matchedWallets m s⟩ items
  else if p.isOpenPublic m s then addMatched m ⟨s, [⟨"", "Mở tự do"⟩]⟩ items
  else items

def eligibleMints : List Item :=
  (p.candidates.foldl p.addCandidate []).insertionSort fun a b => a.start ≤ b.start

end Pass

/-! ### The digest -/

structure DiscordEmbed where
  title : String
  description : String

section

variable (f : Formats) (now : ℤ)

/-- The lines of a stage and its wallets. -/
def stageLine (matched : MatchedStage) : String :=
  let stage := matched.stage
  let isLive := stage.start ≤ now ∧ ¬ stage.endAt.any (· ≤ now)
  let isPublicOpen := stage.isPublic && matched.wallets.head?.all (·.address = "")
  let relTime := if stage.start > 0 then f.relativeTime stage.start else "soon"
  let gmt7Time := if stage.start > 0 then f.dateTimeGmt7 stage.start else "TBD"
  let priceDisplay := match stage.price with
    | some price => if price.isZero then "FREE" else price.text ++ " " ++ stage.currency
    | none => "—"
  let timingText :=
    if isLive then "🟢 **ĐANG MỞ BÁN (Live Now)**" ++
      (stage.endAt.elim "" fun endAt => " (kết thúc " ++ f.relativeTime endAt ++ ")")
    else "Bắt đầu: **" ++ gmt7Time ++ " GMT+7** (" ++ relTime ++ ")"
  let walletLine :=
    if isPublicOpen then "    🌐 `Mở tự do cho tất cả (Không cần WL)`"
    else "    👤 Ví: `" ++ ", ".intercalate (matched.wallets.map (·.label)) ++ "`"
  "  └ **" ++ truncateDiscordString stage.label 30 ++ "** (`" ++ f.toUpperCase stage.kind ++
    "`) · Giá: `" ++ priceDisplay ++ "` · " ++ timingText ++ "\n" ++ walletLine

/-- The first line of a mint. -/
def mintLine (m : Mint) : String :=
  let bySlug := if m.slug = "" then none else some ("https://opensea.io/collection/" ++ m.slug)
  let openSeaLink := firstOf [m.links.opensea, bySlug, m.links.mint, m.links.site]
  let name := truncateDiscordString m.name 35
  let nameFormatted :=
    if openSeaLink = "" then "**" ++ name ++ "**" else "[" ++ name ++ "](" ++ openSeaLink ++ ")"
  let tierBadge :=
    if m.tier = "hot" then "🔥 HOT" else if m.tier = "warm" then "⚡ WARM" else f.toUpperCase m.tier
  let openseaAction := if openSeaLink = "" then "" else " · [⛵ OpenSea](" ++ openSeaLink ++ ")"
  "• " ++ nameFormatted ++ " (`" ++ f.toUpperCase m.chain ++ "`" ++
    (if tierBadge = "" then "" else " · " ++ tierBadge) ++ ")" ++ openseaAction

/-- The lines of a mint, as far as its first `n` stages. -/
def itemLines (item : Item) (n : ℕ) : String :=
  mintLine f item.mint ++ "\n" ++ "\n".intercalate ((item.stages.take n).map (stageLine f now))

/-- How a description starts. -/
def intro (total hours : ℕ) : String :=
  "Tổng hợp **" ++ toString total ++
    "** dự án ví của bạn có Whitelist / đủ điều kiện mint trong " ++ toString hours ++
      "h tới:\n\n"

/-- A part of the digest: so many mints in all, and those of the part. -/
structure Part where
  total : ℕ
  hours : ℕ
  slice : List Item

namespace Part

variable (part : Part)

/-- The description before it is cut. -/
def text : String :=
  intro part.total part.hours ++
    "\n\n".intercalate (part.slice.map fun item => itemLines f now item item.stages.length)

/-- The description that Discord is sent. -/
def description : String := truncateDiscordString (part.text f now) 4000

/-- The description as far as the `j`-th stage of the `k`-th mint. -/
def textTo (k : ℕ) (item : Item) (j : ℕ) : String :=
  intro part.total part.hours ++ "\n\n".intercalate
    ((part.slice.take k).map (fun item => itemLines f now item item.stages.length) ++
      [itemLines f now item (j + 1)])

/-- The keys of the hits of the `k`-th mint whose lines the description has. -/
def showsAt (k : ℕ) : List String :=
  (part.slice[k]?).elim [] fun item => item.stages.zipIdx.flatMap fun (matched, j) =>
    if startsWith (part.description f now) (part.textTo f now k item j) then
      matched.wallets.map fun w => keyOf item.mint.id matched.stage.label w.address
    else []

/-- The keys of the hits that the part shows. -/
def shows : List String := (List.range part.slice.length).flatMap (part.showsAt f now)

end Part

/-- The title of a part. -/
def digestTitle (hours partNum totalParts : ℕ) : String :=
  "🎯 MINTS BẠN CÓ THỂ MINT (" ++ toString hours ++ "h tới) · " ++
    if totalParts > 1 then "Phần " ++ toString partNum ++ "/" ++ toString totalParts
    else "HoodMint Radar"

/-- The embed of the part that starts at the `i`-th mint. -/
def Part.embed (part : Part) (i : ℕ) : DiscordEmbed :=
  { title := truncateDiscordString
      (digestTitle part.hours (i / 8 + 1) ((part.total + 7) / 8)) 256
    description := part.description f now }

/-- The embed of an empty digest. -/
def emptyDigest (hours : ℕ) : DiscordEmbed :=
  { title := truncateDiscordString
      ("🎯 MINTS BẠN CÓ THỂ MINT (" ++ toString hours ++ "h tới) · HoodMint Radar") 256
    description := truncateDiscordString
      ("Không có dự án nào ví của bạn đủ điều kiện mint (Whitelist / Allowlist) trong " ++
        toString hours ++ "h tới.") 4000 }

/-- A message, with the keys of the hits it shows. -/
structure Message where
  embed : DiscordEmbed
  shows : List String

/-- The part that starts at the `i`-th mint. -/
def partAt (sorted : List Item) (hours i : ℕ) : Part :=
  ⟨sorted.length, hours, (sorted.drop i).take 8⟩

/-- The loop over the chunks, with the embeds that there is still room for. -/
def digestParts (sorted : List Item) (hours : ℕ) : ℕ → ℕ → List Message
  | 0, _ => []
  | room + 1, i =>
    if i < sorted.length then
      ⟨(partAt sorted hours i).embed f now i, (partAt sorted hours i).shows f now⟩ ::
        digestParts sorted hours room (i + 8)
    else []

/-- `buildUpcomingDigestEmbeds`. -/
def buildUpcomingDigestEmbeds (items : List Item) (hours : ℕ) : List Message :=
  if items = [] then [⟨emptyDigest hours, []⟩]
  else digestParts f now (items.insertionSort fun a b => a.start ≤ b.start) hours 5 0

/-- The card of a single hit. -/
def hitCard (h : Hit) (hours : ℕ) : Message :=
  { embed :=
      { title := truncateDiscordString
          ("🎯 NVT WL HIT: " ++ truncateDiscordString h.mint.name 100) 256
        description := truncateDiscordString
          ("Your account **" ++ h.account.label ++ "** is whitelisted for **" ++ h.mint.name ++
            "** starting within the next " ++ toString hours ++ "h!") 4000 }
    shows := [h.key] }

end

/-! ### The pass -/

/-- `new Set(keys)` with one more key. -/
def addKey (keys : List String) (key : String) : List String :=
  if key ∈ keys then keys else keys ++ [key]

/-- `trimmedKeys`. -/
def trimmedKeys (keys : List String) : List String := keys.drop (keys.length - 200)

/-- How the hits of a pass are sent. -/
inductive Shape | digest | card (hit : Hit) | list (hits : List Hit) | nothing

namespace Pass

variable (f : Formats) (p : Pass) (lastAlerted : List String)

/-- Which messages the pass sends. -/
def shape : Shape :=
  if p.sendUpcomingDigest = true ∨ p.notifyUpcomingDigest ≠ some false then
    if p.eligibleMints.length > 0 ∨ p.sendUpcomingDigest = true then .digest else .nothing
  else if p.notifyWhitelistHits ≠ some false then
    match p.hits lastAlerted with
    | [] => .nothing
    | [hit] => if p.forceSend then .list [hit] else .card hit
    | hits => .list hits
  else .nothing

/-- The mints listed. -/
def listedMints : Shape → List Item
  | .list hits => p.eligibleMints.filter fun item => item.mint.id ∈ hits.map (·.mint.id)
  | _ => p.eligibleMints

/-- The messages. -/
def messages : List Message :=
  match p.shape lastAlerted with
  | .digest => buildUpcomingDigestEmbeds f p.now (p.listedMints .digest) p.hours
  | .card hit => [hitCard hit p.hours]
  | .list hits => buildUpcomingDigestEmbeds f p.now (p.listedMints (.list hits)) p.hours
  | .nothing => []

/-- `newAlertedKeys`: a card's key is added when it has been acknowledged. -/
def newAlertedKeys : List String :=
  match p.shape lastAlerted with
  | .digest | .list _ => ((p.hits lastAlerted).map Hit.key).foldl addKey lastAlerted
  | .card hit => if p.acknowledged 0 then addKey lastAlerted hit.key else lastAlerted
  | .nothing => lastAlerted

/-- The keys of the hits that an acknowledged message shows. -/
def delivered : List String :=
  (p.messages f lastAlerted).zipIdx.flatMap fun (message, n) =>
    if p.acknowledged n then message.shows else []

end Pass

end NvtScan
