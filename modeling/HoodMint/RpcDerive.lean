/-
RPC URLs for other networks (`packages/core/src/rpc-derive.ts`, `apps/worker/src/mint-rpc.ts`).

* `UrlApi`, `Whatwg` — the URLs of the platform, and what is relied on of them: a component that
  is set to a plain value is set, and the text of the URL is read back;
* `detectRpcProvider`, `deriveRpcUrl`, `rpcUrlNetwork`, `rpcUrlServesChain` — one table of
  spellings, written and recognised;
* `mintRpcUrlsForChain` — the endpoints of a fire on any chain;
* `deriveRpcUrl_spec` — all that a derived URL is: the template with its network written anew;
* `derived_iff` — a derived URL serves its chain and no other, and is derived again like the
  template; the rest of it is the template's just where nothing else had to be written
  (`Rewritable`).
-/
import HoodMint.FireChain
import HoodMint.Lib.Segments
import HoodMint.Lib.Text

namespace RpcDerive

open Segments

/-! ### URLs -/

/-- A `URL`, by its components. -/
structure Url where
  protocol : String
  username : String
  password : String
  hostname : String
  port : String
  pathname : String
  search : String
  hash : String
deriving DecidableEq

/-- `new URL(text)`, `url.toString()`, and the setters of two components. -/
structure UrlApi where
  parse : String → Option Url
  toString : Url → String
  setHostname : Url → String → Url
  setPathname : Url → String → Url

/-- `host.endsWith(suffix)`. -/
def endsWith (host suffix : String) : Bool := decide (suffix.toList <:+ host.toList)

/-- A path of segments. -/
def pathOf (segs : List (List Char)) : String := String.ofList (joined '/' segs)

/-! ### Providers -/

inductive RpcProvider where
  | alchemy
  | drpc
  | chainstack
  | unknown
deriving DecidableEq

/-- A row of `PROVIDER_SLUGS`. -/
structure Slugs where
  alchemy : Option String
  drpc : Option String

/-- `CHAIN_NETWORK_KEYS`. -/
def chainNetworkKeys : List (ℕ × String) :=
  [(1, "ethereum"), (10, "optimism"), (137, "polygon"), (4663, "robinhood"), (8453, "base"),
    (42161, "arbitrum"), (81457, "blast"), (7777777, "zora")]

/-- `PROVIDER_SLUGS`. -/
def providerSlugs : List (String × Slugs) :=
  [("ethereum", ⟨some "eth-mainnet", some "ethereum"⟩),
    ("optimism", ⟨some "opt-mainnet", some "optimism"⟩),
    ("polygon", ⟨some "polygon-mainnet", some "polygon"⟩),
    ("robinhood", ⟨some "robinhood-mainnet", some "robinhood"⟩),
    ("base", ⟨some "base-mainnet", some "base"⟩),
    ("arbitrum", ⟨some "arb-mainnet", some "arbitrum"⟩),
    ("blast", ⟨some "blast-mainnet", some "blast"⟩),
    ("zora", ⟨some "zora-mainnet", some "zora"⟩)]

/-- The provider of a host. -/
def hostProvider (host : String) : RpcProvider :=
  if endsWith host ".g.alchemy.com" then .alchemy
  else if endsWith host ".drpc.org" ∨ endsWith host ".drpc.live" then .drpc
  else if endsWith host ".core.chainstack.com" then .chainstack
  else .unknown

section Api

variable (api : UrlApi)

/-- `detectRpcProvider`. -/
def detectRpcProvider (url : String) : RpcProvider :=
  match api.parse url with
  | none => .unknown
  | some url => hostProvider (Text.lower url.hostname)

/-- `deriveRpcUrl`. -/
def deriveRpcUrl (template : String) (chainId : ℕ) : Option String := do
  let network ← chainNetworkKeys.lookup chainId
  let slugs ← providerSlugs.lookup network
  let url ← api.parse template
  match detectRpcProvider api template with
  | .alchemy => do
    let slug ← slugs.alchemy
    some (api.toString (api.setHostname url (slug ++ ".g.alchemy.com")))
  | .drpc => do
    let slug ← slugs.drpc
    match segments '/' url.pathname.toList with
    | [] => none
    | _ :: rest => some (api.toString (api.setPathname url (pathOf (slug.toList :: rest))))
  | .chainstack | .unknown => none

/-- The label without a `-mainnet` at its end. -/
def withoutMainnet (label : String) : String :=
  if endsWith label "-mainnet" then String.ofList (label.toList.take (label.toList.length - 8))
  else label

/-- `rpcUrlNetwork`. -/
def rpcUrlNetwork (template : String) : Option String := do
  let url ← api.parse template
  match detectRpcProvider api template with
  | .alchemy | .chainstack =>
    let label := (url.hostname.toList.splitOn '.').headD []
    let network := withoutMainnet (String.ofList label)
    if network = "" then none else some network
  | .drpc => (segments '/' url.pathname.toList).head?.map String.ofList
  | .unknown => none

/-- `rpcUrlServesChain`. -/
def rpcUrlServesChain (template : String) (chainId : ℕ) : Bool :=
  match chainNetworkKeys.lookup chainId, rpcUrlNetwork api template with
  | some want, some network =>
    decide (network = want) || (providerSlugs.lookup want).any fun slugs =>
      decide (slugs.alchemy.map withoutMainnet = some network ∨ slugs.drpc = some network)
  | _, _ => false

open MintWorker (Config pushUrl)

/-- `mintRpcUrlsForChain`. -/
def mintRpcUrlsForChain (config : Config) (chainId : ℕ) (registryUrls : List String) :
    List String :=
  let templates := [config.alchemyRobinhoodRpc, config.chainstackRobinhoodRpc,
    config.drpcRobinhoodRpc].filterMap id
  let premium := (templates.filter fun template => Text.trim template ≠ "").filterMap
    fun template =>
      if rpcUrlServesChain api template chainId then some template
      else deriveRpcUrl api template chainId
  ((premium ++ registryUrls).filter fun url => Text.trim url ≠ "").foldl pushUrl []

end Api

/-! ### What is relied on -/

/-- A host name that a URL keeps as it is written: lower-case letters, single hyphens and dots. -/
def PlainName (name : String) : Prop :=
  (name.toList.all fun c => c.isLower || c = '-' || c = '.') = true ∧ '.' ∈ name.toList ∧
    ¬ ['-', '-'] <:+: name.toList

instance : DecidablePred PlainName := fun name =>
  (inferInstance : Decidable ((name.toList.all fun c => c.isLower || c = '-' || c = '.') = true ∧
    '.' ∈ name.toList ∧ ¬ ['-', '-'] <:+: name.toList))

/-- A path segment of lower-case letters. -/
def PlainSegment (segment : String) : Prop :=
  segment.toList ≠ [] ∧ (segment.toList.all Char.isLower) = true

instance : DecidablePred PlainSegment := fun segment =>
  (inferInstance : Decidable (segment.toList ≠ [] ∧ (segment.toList.all Char.isLower) = true))

/-- In a URL with a host, a plain host name, and a path of the URL's own segments behind a plain
one, are set as they are, and the URL is read back from its text. -/
structure Whatwg (api : UrlApi) : Prop where
  hostname : ∀ {text name : String} {url : Url}, api.parse text = some url → url.hostname ≠ "" →
    PlainName name →
      api.setHostname url name = { url with hostname := name } ∧
        api.parse (api.toString { url with hostname := name }) =
          some { url with hostname := name }
  pathname : ∀ {text segment : String} {rest : List (List Char)} {url : Url},
    api.parse text = some url → url.hostname ≠ "" → PlainSegment segment →
      (∀ s ∈ rest, s ∈ segments '/' url.pathname.toList) →
        api.setPathname url (pathOf (segment.toList :: rest)) =
            { url with pathname := pathOf (segment.toList :: rest) } ∧
          api.parse (api.toString { url with pathname := pathOf (segment.toList :: rest) }) =
            some { url with pathname := pathOf (segment.toList :: rest) }

/-! ### The table -/

/-- The spellings of a network. -/
def spellings (network : String) : List String :=
  network :: ((providerSlugs.lookup network).elim [] fun slugs =>
    (slugs.alchemy.map withoutMainnet).toList ++ slugs.drpc.toList)

theorem mem_of_lookup {α β : Type*} [BEq α] [LawfulBEq α] {a : α} {b : β} {l : List (α × β)}
    (h : l.lookup a = some b) : (a, b) ∈ l := by
  induction l with
  | nil => cases h
  | cons p l ih =>
    rw [List.lookup_cons] at h
    split at h
    · next heq =>
      rw [← Option.some_inj.mp h, eq_of_beq heq]
      exact List.mem_cons_self
    · exact List.mem_cons_of_mem p (ih h)

/-- No spelling stands for two networks. -/
theorem spellings_disjoint : ∀ p ∈ chainNetworkKeys, ∀ q ∈ chainNetworkKeys,
    ∀ network ∈ spellings p.2, network ∈ spellings q.2 → p.1 = q.1 := by
  decide

/-- What is written into a URL is plain, and is read as the network it stands for. -/
theorem alchemy_plain : ∀ p ∈ providerSlugs, ∀ slug ∈ p.2.alchemy,
    PlainName (slug ++ ".g.alchemy.com") ∧ '.' ∉ slug.toList ∧ withoutMainnet slug ≠ "" := by
  decide

theorem drpc_plain : ∀ p ∈ providerSlugs, ∀ slug ∈ p.2.drpc,
    PlainSegment slug ∧ '/' ∉ slug.toList := by
  decide

theorem endsWith_append (host suffix : String) (h : Text.lower suffix = suffix) :
    endsWith (Text.lower (host ++ suffix)) suffix = true := by
  rw [endsWith, Text.lower, String.toList_append, List.map_append, String.toList_ofList]
  have hlower : suffix.toList.map Char.toLower = suffix.toList := by
    have hlist := congrArg String.toList h
    rwa [Text.lower, String.toList_ofList] at hlist
  rw [hlower]
  exact decide_eq_true (List.suffix_append _ _)

theorem hostProvider_alchemy (slug : String) :
    hostProvider (Text.lower (slug ++ ".g.alchemy.com")) = .alchemy :=
  if_pos (endsWith_append slug _ (by decide))

theorem hostname_ne_empty {url : Url} (h : hostProvider (Text.lower url.hostname) ≠ .unknown) :
    url.hostname ≠ "" := by
  intro hempty
  rw [hempty] at h
  exact h (by decide)

/-! ### Derived URLs -/

section Derived

variable {api : UrlApi} {template url' : String} {chainId : ℕ}

/-- The URL with a network written into it, where its provider has the network. -/
inductive Written (slugs : Slugs) : RpcProvider → Url → Url → Prop
  | alchemy {url : Url} {slug : String} : slugs.alchemy = some slug →
      Written slugs .alchemy url { url with hostname := slug ++ ".g.alchemy.com" }
  | drpc {url : Url} {slug : String} {first : List Char} {rest : List (List Char)} :
      slugs.drpc = some slug → segments '/' url.pathname.toList = first :: rest →
        Written slugs .drpc url { url with pathname := pathOf (slug.toList :: rest) }

theorem detectRpcProvider_eq {url : Url} (h : api.parse template = some url) :
    detectRpcProvider api template = hostProvider (Text.lower url.hostname) := by
  rw [detectRpcProvider, h]

theorem setHostname_eq (hapi : Whatwg api) {url : Url} (hurl : api.parse template = some url)
    (hdetect : detectRpcProvider api template = .alchemy) {p : String × Slugs}
    (hp : p ∈ providerSlugs) {slug : String} (hslug : p.2.alchemy = some slug) :
    api.setHostname url (slug ++ ".g.alchemy.com") =
        { url with hostname := slug ++ ".g.alchemy.com" } ∧
      api.parse (api.toString { url with hostname := slug ++ ".g.alchemy.com" }) =
        some { url with hostname := slug ++ ".g.alchemy.com" } := by
  have hhost : url.hostname ≠ "" := by
    apply hostname_ne_empty
    rw [← detectRpcProvider_eq hurl, hdetect]
    decide
  exact hapi.hostname hurl hhost (alchemy_plain p hp slug hslug).1

theorem setPathname_eq (hapi : Whatwg api) {url : Url} (hurl : api.parse template = some url)
    (hdetect : detectRpcProvider api template = .drpc) {p : String × Slugs}
    (hp : p ∈ providerSlugs) {slug : String} (hslug : p.2.drpc = some slug) {first : List Char}
    {rest : List (List Char)} (hsegs : segments '/' url.pathname.toList = first :: rest) :
    api.setPathname url (pathOf (slug.toList :: rest)) =
        { url with pathname := pathOf (slug.toList :: rest) } ∧
      api.parse (api.toString { url with pathname := pathOf (slug.toList :: rest) }) =
        some { url with pathname := pathOf (slug.toList :: rest) } := by
  have hhost : url.hostname ≠ "" := by
    apply hostname_ne_empty
    rw [← detectRpcProvider_eq hurl, hdetect]
    decide
  exact hapi.pathname hurl hhost (drpc_plain p hp slug hslug).1
    fun s hs => hsegs ▸ List.mem_cons_of_mem first hs

/-- **What is derived** is the template with the network of the chain written into it. -/
theorem deriveRpcUrl_spec (hapi : Whatwg api) {url : Url} (hurl : api.parse template = some url) :
    deriveRpcUrl api template chainId = some url' ↔
      ∃ network slugs written, chainNetworkKeys.lookup chainId = some network ∧
        providerSlugs.lookup network = some slugs ∧
          Written slugs (detectRpcProvider api template) url written ∧
            api.toString written = url' := by
  simp only [deriveRpcUrl, Option.bind_eq_bind, Option.bind_eq_some_iff, hurl, Option.some_inj,
    exists_eq_left']
  refine exists_congr fun network => ?_
  constructor
  · rintro ⟨hnetwork, slugs, hslugs, h⟩
    have hmem := mem_of_lookup hslugs
    refine ⟨slugs, ?_⟩
    split at h
    · next hdetect =>
      obtain ⟨slug, hslug, h⟩ := Option.bind_eq_some_iff.mp h
      rw [(setHostname_eq hapi hurl hdetect hmem hslug).1] at h
      rw [hdetect]
      exact ⟨_, hnetwork, hslugs, .alchemy hslug, Option.some_inj.mp h⟩
    · next hdetect =>
      obtain ⟨slug, hslug, h⟩ := Option.bind_eq_some_iff.mp h
      split at h
      · cases h
      · next first rest hsegs =>
        rw [(setPathname_eq hapi hurl hdetect hmem hslug hsegs).1] at h
        rw [hdetect]
        exact ⟨_, hnetwork, hslugs, .drpc hslug hsegs, Option.some_inj.mp h⟩
    all_goals cases h
  · rintro ⟨slugs, written, hnetwork, hslugs, hwritten, rfl⟩
    have hmem := mem_of_lookup hslugs
    refine ⟨hnetwork, slugs, hslugs, ?_⟩
    generalize hdetect : detectRpcProvider api template = provider at hwritten
    cases hwritten with
    | alchemy hslug =>
      rw [← (setHostname_eq hapi hurl hdetect hmem hslug).1]
      simp [hslug]
    | drpc hslug hsegs =>
      rw [← (setPathname_eq hapi hurl hdetect hmem hslug hsegs).1]
      simp [hslug, hsegs]

/-- **The text** of what is derived is read as what was written. -/
theorem parse_written (hapi : Whatwg api) {url written : Url}
    (hurl : api.parse template = some url) {p : String × Slugs} (hp : p ∈ providerSlugs)
    (hwritten : Written p.2 (detectRpcProvider api template) url written) :
    api.parse (api.toString written) = some written := by
  generalize hdetect : detectRpcProvider api template = provider at hwritten
  cases hwritten with
  | alchemy hslug => exact (setHostname_eq hapi hurl hdetect hp hslug).2
  | drpc hslug hsegs => exact (setPathname_eq hapi hurl hdetect hp hslug hsegs).2

/-- A derived URL is one of the same provider. -/
theorem hostProvider_written {slugs : Slugs} {provider : RpcProvider} {url written : Url}
    (hprovider : hostProvider (Text.lower url.hostname) = provider)
    (hwritten : Written slugs provider url written) :
    hostProvider (Text.lower written.hostname) = provider := by
  cases hwritten with
  | alchemy hslug => exact hostProvider_alchemy _
  | drpc hslug hsegs => exact hprovider

theorem segments_pathOf {slug : String} (hslug : PlainSegment slug ∧ '/' ∉ slug.toList)
    {url : Url} {first : List Char} {rest : List (List Char)}
    (hsegs : segments '/' url.pathname.toList = first :: rest) :
    segments '/' (pathOf (slug.toList :: rest)).toList = slug.toList :: rest := by
  rw [pathOf, String.toList_ofList]
  refine segments_joined (fun s hs => ?_) (List.cons_ne_nil _ _)
  rcases List.mem_cons.mp hs with rfl | hs
  · exact ⟨hslug.1.1, hslug.2⟩
  · exact mem_segments (hsegs ▸ List.mem_cons_of_mem first hs)

/-- What is written over leaves no trace. -/
theorem written_iff {p : String × Slugs} (hp : p ∈ providerSlugs) {slugs : Slugs}
    {provider : RpcProvider} {url written : Url} (hwritten : Written p.2 provider url written)
    (again : Url) : Written slugs provider written again ↔ Written slugs provider url again := by
  cases hwritten with
  | alchemy hslug =>
    constructor
    · rintro ⟨hslug'⟩
      exact .alchemy hslug'
    · rintro ⟨hslug'⟩
      exact .alchemy hslug'
  | @drpc _ slug first rest hslug hsegs =>
    have hsegs' := segments_pathOf (drpc_plain p hp slug hslug) hsegs
    constructor
    · intro hagain
      cases hagain with
      | drpc hslug' hsegs'' =>
        obtain ⟨-, rfl⟩ := List.cons.inj (hsegs'.symm.trans hsegs'')
        exact .drpc hslug' hsegs
    · intro hagain
      cases hagain with
      | drpc hslug' hsegs'' =>
        obtain ⟨-, rfl⟩ := List.cons.inj (hsegs.symm.trans hsegs'')
        exact .drpc hslug' hsegs'

/-- A derived URL, taken apart. -/
theorem exists_written (hapi : Whatwg api)
    (hderived : deriveRpcUrl api template chainId = some url') :
    ∃ network slugs url written, chainNetworkKeys.lookup chainId = some network ∧
      providerSlugs.lookup network = some slugs ∧ api.parse template = some url ∧
        Written slugs (detectRpcProvider api template) url written ∧
          api.parse url' = some written ∧
            detectRpcProvider api url' = detectRpcProvider api template := by
  cases hurl : api.parse template with
  | none => simp [deriveRpcUrl, hurl] at hderived
  | some url =>
    obtain ⟨network, slugs, written, hnetwork, hslugs, hwritten, rfl⟩ :=
      (deriveRpcUrl_spec hapi hurl).mp hderived
    have hread := parse_written hapi hurl (mem_of_lookup hslugs) hwritten
    refine ⟨network, slugs, url, written, hnetwork, hslugs, rfl, hwritten, hread, ?_⟩
    rw [detectRpcProvider_eq hread]
    exact hostProvider_written (detectRpcProvider_eq hurl).symm hwritten

/-- **A derived URL** is derived again like its template. -/
theorem deriveRpcUrl_derived (hapi : Whatwg api)
    (hderived : deriveRpcUrl api template chainId = some url') (chainId' : ℕ) :
    deriveRpcUrl api url' chainId' = deriveRpcUrl api template chainId' := by
  obtain ⟨network, slugs, url, written, hnetwork, hslugs, hurl, hwritten, hread, hprovider⟩ :=
    exists_written hapi hderived
  ext again
  rw [deriveRpcUrl_spec hapi hread, deriveRpcUrl_spec hapi hurl, hprovider]
  simp only [written_iff (mem_of_lookup hslugs) hwritten]

theorem rpcUrlServesChain_iff : rpcUrlServesChain api template chainId = true ↔
    ∃ network, chainNetworkKeys.lookup chainId = some network ∧
      ∃ name ∈ rpcUrlNetwork api template, name ∈ spellings network := by
  rw [rpcUrlServesChain]
  cases chainNetworkKeys.lookup chainId with
  | none => simp
  | some want =>
    cases rpcUrlNetwork api template with
    | none => simp
    | some name =>
      cases hslugs : providerSlugs.lookup want with
      | none => simp [spellings, hslugs]
      | some slugs => simp [spellings, hslugs, Option.mem_toList]

/-- **A URL** serves no two chains. -/
theorem eq_of_rpcUrlServesChain {chainId' : ℕ}
    (h : rpcUrlServesChain api template chainId = true)
    (h' : rpcUrlServesChain api template chainId' = true) : chainId = chainId' := by
  obtain ⟨network, hnetwork, name, hname, hspelled⟩ := rpcUrlServesChain_iff.mp h
  obtain ⟨network', hnetwork', name', hname', hspelled'⟩ := rpcUrlServesChain_iff.mp h'
  obtain rfl := Option.mem_unique hname hname'
  exact spellings_disjoint _ (mem_of_lookup hnetwork) _ (mem_of_lookup hnetwork') name hspelled
    hspelled'

/-- **A derived URL** serves its chain. -/
theorem rpcUrlServesChain_derived (hapi : Whatwg api)
    (hderived : deriveRpcUrl api template chainId = some url') :
    rpcUrlServesChain api url' chainId = true := by
  obtain ⟨network, slugs, url, written, hnetwork, hslugs, hurl, hwritten, hread, hprovider⟩ :=
    exists_written hapi hderived
  refine rpcUrlServesChain_iff.mpr ⟨network, hnetwork, ?_⟩
  have hmem := mem_of_lookup hslugs
  generalize detectRpcProvider api template = provider at hwritten hprovider
  cases hwritten with
  | @alchemy _ slug hslug =>
    obtain ⟨-, hlabel, hne⟩ := alchemy_plain _ hmem slug hslug
    have hsplit : (slug ++ ".g.alchemy.com").toList.splitOn '.' =
        slug.toList :: ['g', '.', 'a', 'l', 'c', 'h', 'e', 'm', 'y', '.', 'c', 'o', 'm'].splitOn
          '.' := by
      rw [String.toList_append]
      exact List.splitOn_append_cons_self_of_not_mem hlabel _
    have hnetwork' : rpcUrlNetwork api url' = some (withoutMainnet slug) := by
      rw [rpcUrlNetwork, hread, Option.bind_eq_bind, Option.bind_some, hprovider]
      simp only [hsplit, List.headD_cons, String.ofList_toList, if_neg hne]
    refine ⟨_, hnetwork', ?_⟩
    rw [spellings, hslugs]
    simp [hslug]
  | @drpc _ slug first rest hslug hsegs =>
    have hsegs' := segments_pathOf (drpc_plain _ hmem slug hslug) hsegs
    have hnetwork' : rpcUrlNetwork api url' = some slug := by
      rw [rpcUrlNetwork, hread, Option.bind_eq_bind, Option.bind_some, hprovider]
      simp only [hsegs', List.head?_cons, Option.map_some, String.ofList_toList]
    refine ⟨slug, hnetwork', ?_⟩
    rw [spellings, hslugs]
    simp [hslug]

/-! ### What else is in a URL -/

/-- Two URLs of a provider are the same but for where it has the network. -/
def SameButNetwork : RpcProvider → Url → Url → Prop
  | .alchemy, url, other =>
    { other with hostname := url.hostname } = url ∧
      other.hostname.toList.dropWhile (fun c => c ≠ '.') =
        url.hostname.toList.dropWhile fun c => c ≠ '.'
  | .drpc, url, other =>
    { other with pathname := url.pathname } = url ∧
      around '/' other.pathname.toList = around '/' url.pathname.toList
  | _, url, other => other = url

/-- The rest of a URL is what `deriveRpcUrl` makes of it. -/
def Rewritable : RpcProvider → Url → Prop
  | .alchemy, url => url.hostname.toList.dropWhile (fun c => c ≠ '.') = ".g.alchemy.com".toList
  | .drpc, url => Tidy '/' url.pathname.toList
  | _, _ => True

theorem sameButNetwork_iff {p : String × Slugs} (hp : p ∈ providerSlugs) {provider : RpcProvider}
    {url written : Url} (hwritten : Written p.2 provider url written) :
    SameButNetwork provider url written ↔ Rewritable provider url := by
  cases hwritten with
  | @alchemy _ slug hslug =>
    obtain ⟨-, hlabel, -⟩ := alchemy_plain p hp slug hslug
    have hbehind : (slug ++ ".g.alchemy.com").toList.dropWhile (fun c => c ≠ '.') =
        ".g.alchemy.com".toList := by
      have hall : ∀ c ∈ slug.toList, decide (c ≠ '.') = true :=
        fun c hc => decide_eq_true fun heq => hlabel (heq ▸ hc)
      rw [String.toList_append, List.dropWhile_append_of_pos hall]
      rfl
    rw [SameButNetwork, Rewritable, hbehind]
    exact (and_iff_right rfl).trans eq_comm
  | @drpc _ slug first rest hslug hsegs =>
    obtain ⟨⟨hne, -⟩, hsep⟩ := drpc_plain p hp slug hslug
    rw [SameButNetwork, Rewritable, pathOf, String.toList_ofList]
    exact (and_iff_right rfl).trans (around_joined_iff hsegs hne hsep)

/-- Everything but the network is the template's. -/
def Kept (api : UrlApi) (template derived : String) : Prop :=
  ∃ url other, api.parse template = some url ∧ api.parse derived = some other ∧
    SameButNetwork (detectRpcProvider api template) url other

theorem kept_iff (hapi : Whatwg api) (hderived : deriveRpcUrl api template chainId = some url') :
    Kept api template url' ↔
      ∃ url, api.parse template = some url ∧ Rewritable (detectRpcProvider api template) url := by
  obtain ⟨network, slugs, url, written, hnetwork, hslugs, hurl, hwritten, hread, hprovider⟩ :=
    exists_written hapi hderived
  rw [Kept]
  simp only [hurl, hread, Option.some_inj, exists_and_left, exists_eq_left']
  exact sameButNetwork_iff (mem_of_lookup hslugs) hwritten

/-! ### The endpoints of a fire -/

open MintWorker (Config pushUrl)

theorem nodup_foldl_pushUrl {urls : List String} :
    ∀ {acc : List String}, acc.Nodup → (urls.foldl pushUrl acc).Nodup := by
  induction urls with
  | nil => exact fun hacc => hacc
  | cons url urls ih =>
    intro acc hacc
    apply ih
    rw [pushUrl]
    split
    · exact hacc
    · next hnew =>
      rw [List.nodup_append]
      refine ⟨hacc, List.nodup_singleton url, ?_⟩
      rintro other hother _ hmem rfl
      exact hnew (List.mem_singleton.mp hmem ▸ hother)

/-- **What is asked** on a chain serves it, unless the registry has it. -/
theorem mem_mintRpcUrlsForChain (hapi : Whatwg api) {config : Config} {registryUrls : List String}
    {url : String} (h : url ∈ mintRpcUrlsForChain api config chainId registryUrls) :
    url ∈ registryUrls ∨ rpcUrlServesChain api url chainId = true := by
  rcases MintWorker.mem_foldl_pushUrl h with h | h
  · cases h
  obtain ⟨hmem, -⟩ := List.mem_filter.mp h
  rcases List.mem_append.mp hmem with hpremium | hregistry
  · obtain ⟨template, -, hurl⟩ := List.mem_filterMap.mp hpremium
    right
    split at hurl
    · next hserves =>
      rw [← Option.some_inj.mp hurl]
      exact hserves
    · exact rpcUrlServesChain_derived hapi hurl
  · exact Or.inl hregistry

/-- **Derived URLs.** A derived URL serves its chain and no other, and is derived again like its
template; what else is in it is the template's just where nothing else had to be written. The
endpoints of a fire are distinct, and those that are not of the registry serve its chain alone. -/
theorem derived_iff (hapi : Whatwg api) :
    (∀ template chainId url', deriveRpcUrl api template chainId = some url' →
      (rpcUrlServesChain api url' chainId = true ∧
        (∀ other, other ≠ chainId → rpcUrlServesChain api url' other = false) ∧
          ∀ chainId', deriveRpcUrl api url' chainId' = deriveRpcUrl api template chainId') ∧
      (Kept api template url' ↔ ∃ url, api.parse template = some url ∧
        Rewritable (detectRpcProvider api template) url)) ∧
    ∀ config chainId registryUrls,
      (mintRpcUrlsForChain api config chainId registryUrls).Nodup ∧
        ∀ url ∈ mintRpcUrlsForChain api config chainId registryUrls, url ∉ registryUrls →
          rpcUrlServesChain api url chainId = true ∧
            ∀ other, other ≠ chainId → rpcUrlServesChain api url other = false := by
  have halone {url : String} {chainId : ℕ} (h : rpcUrlServesChain api url chainId = true) :
      ∀ other, other ≠ chainId → rpcUrlServesChain api url other = false := by
    intro other hne
    refine Bool.eq_false_iff.mpr fun hother => hne ?_
    exact eq_of_rpcUrlServesChain hother h
  constructor
  · intro template chainId url' hderived
    have hserves := rpcUrlServesChain_derived hapi hderived
    exact ⟨⟨hserves, halone hserves, deriveRpcUrl_derived hapi hderived⟩, kept_iff hapi hderived⟩
  · intro config chainId registryUrls
    refine ⟨nodup_foldl_pushUrl List.nodup_nil, fun url hmem hnew => ?_⟩
    have hserves := (mem_mintRpcUrlsForChain hapi hmem).resolve_left hnew
    exact ⟨hserves, halone hserves⟩

end Derived

/-! ### The URLs of a plain form -/

/-- The URL of a host and a path. -/
def plainUrl (host path : List Char) : Url :=
  { protocol := "https:", username := "", password := "", hostname := String.ofList host,
    port := "", pathname := String.ofList path, search := "", hash := "" }

/-- A path of letters and digits. -/
def plainPath (path : List Char) : Bool :=
  path.head? = some '/' && path.all fun c => c.isAlphanum || c = '/'

/-- `https` URLs of a plain host name and a plain path, and no others. -/
def parsePlain (text : String) : Option Url :=
  let rest := text.toList.drop 8
  let host := rest.takeWhile fun c => c ≠ '/'
  let path := rest.dropWhile fun c => c ≠ '/'
  if text.toList.take 8 = "https://".toList ∧ PlainName (String.ofList host) ∧
      plainPath path = true then some (plainUrl host path)
  else none

def plainUrls : UrlApi where
  parse := parsePlain
  toString url := url.protocol ++ "//" ++ url.hostname ++ url.pathname ++ url.search ++ url.hash
  setHostname url name := { url with hostname := name }
  setPathname url path := { url with pathname := path }

theorem PlainName.not_mem {host : List Char} (h : PlainName (String.ofList host)) :
    ∀ c ∈ host, decide (c ≠ '/') = true := by
  obtain ⟨hchars, -⟩ := h
  rw [String.toList_ofList, List.all_eq_true] at hchars
  intro c hc
  apply decide_eq_true
  rintro rfl
  exact absurd (hchars _ hc) (by decide)

theorem plainUrls_toString (host path : List Char) :
    (plainUrls.toString (plainUrl host path)).toList = "https://".toList ++ (host ++ path) := by
  show ("https:" ++ "//" ++ String.ofList host ++ String.ofList path ++ "" ++ "").toList = _
  rw [String.append_empty, String.append_empty, String.toList_append, String.toList_append,
    String.toList_ofList, String.toList_ofList, List.append_assoc]
  exact congrArg (· ++ (host ++ path)) (by decide)

theorem parse_plainUrl {host path : List Char} (hhost : PlainName (String.ofList host))
    (hpath : plainPath path = true) :
    plainUrls.parse (plainUrls.toString (plainUrl host path)) = some (plainUrl host path) := by
  have hhead := hpath
  rw [plainPath, Bool.and_eq_true, decide_eq_true_eq] at hhead
  obtain ⟨tail, rfl⟩ := List.head?_eq_some_iff.mp hhead.1
  have hrest : (plainUrls.toString (plainUrl host ('/' :: tail))).toList.drop 8 =
      host ++ '/' :: tail := by
    rw [plainUrls_toString]
    rfl
  have hhostOf : (host ++ '/' :: tail).takeWhile (fun c => c ≠ '/') = host := by
    rw [List.takeWhile_append_of_pos hhost.not_mem]
    simp
  have hpathOf : (host ++ '/' :: tail).dropWhile (fun c => c ≠ '/') = '/' :: tail := by
    rw [List.dropWhile_append_of_pos hhost.not_mem]
    simp
  show parsePlain _ = _
  rw [parsePlain]
  simp only [hrest, hhostOf, hpathOf]
  refine if_pos ⟨?_, hhost, hpath⟩
  rw [plainUrls_toString]
  rfl

theorem plainUrls_parse_eq_some {text : String} {url : Url}
    (h : plainUrls.parse text = some url) : ∃ host path, PlainName (String.ofList host) ∧
      plainPath path = true ∧ url = plainUrl host path := by
  change parsePlain text = some url at h
  rw [parsePlain] at h
  split at h
  · next hplain => exact ⟨_, _, hplain.2.1, hplain.2.2, (Option.some_inj.mp h).symm⟩
  · cases h

theorem whatwg_plainUrls : Whatwg plainUrls where
  hostname := by
    intro text name url hurl _ hname
    obtain ⟨host, path, -, hpath, rfl⟩ := plainUrls_parse_eq_some hurl
    have hread := @parse_plainUrl name.toList path (by rwa [String.ofList_toList]) hpath
    rw [plainUrl, String.ofList_toList] at hread
    exact ⟨rfl, hread⟩
  pathname := by
    intro text segment rest url hurl _ hsegment hrest
    obtain ⟨host, path, hhost, hpath, rfl⟩ := plainUrls_parse_eq_some hurl
    refine ⟨rfl, parse_plainUrl hhost ?_⟩
    rw [plainPath, Bool.and_eq_true, List.all_eq_true] at hpath ⊢
    refine ⟨rfl, fun c hc => ?_⟩
    rw [joined, intercalate_cons, List.mem_cons, List.mem_append, List.mem_flatMap] at hc
    rcases hc with rfl | hc | ⟨s, hs, hc⟩
    · rfl
    · have hlower := List.all_eq_true.mp hsegment.2 c hc
      show ((c.isUpper || c.isLower) || c.isDigit || decide (c = '/')) = true
      rw [hlower, Bool.or_true, Bool.true_or, Bool.true_or]
    · rcases List.mem_cons.mp hc with rfl | hc
      · rfl
      · have hmem := mem_of_mem_segments (hrest s hs) hc
        rw [plainUrl, String.toList_ofList] at hmem
        exact hpath.2 c hmem

/-- A slash at the end of the path is lost, though it is not of the network. -/
theorem trailing_slash_lost :
    Whatwg plainUrls ∧
      deriveRpcUrl plainUrls "https://lb.drpc.live/ethereum/key/" 42161 =
        some "https://lb.drpc.live/arbitrum/key" ∧
      ¬ Kept plainUrls "https://lb.drpc.live/ethereum/key/" "https://lb.drpc.live/arbitrum/key" := by
  refine ⟨whatwg_plainUrls, by decide, ?_⟩
  have hurl : plainUrls.parse "https://lb.drpc.live/ethereum/key/" =
      some (plainUrl "lb.drpc.live".toList "/ethereum/key/".toList) := by decide
  have hother : plainUrls.parse "https://lb.drpc.live/arbitrum/key" =
      some (plainUrl "lb.drpc.live".toList "/arbitrum/key".toList) := by decide
  have hprovider : detectRpcProvider plainUrls "https://lb.drpc.live/ethereum/key/" = .drpc := by
    decide
  rintro ⟨url, other, hurl', hother', hsame⟩
  obtain rfl := Option.some_inj.mp (hurl.symm.trans hurl')
  obtain rfl := Option.some_inj.mp (hother.symm.trans hother')
  rw [hprovider] at hsame
  exact absurd hsame.2 (by decide)

/-- An Ethereum endpoint, derived for Arbitrum. -/
theorem derived_arbitrum :
    rpcUrlServesChain plainUrls "https://arb-mainnet.g.alchemy.com/v2/key" 42161 = true ∧
      Kept plainUrls "https://eth-mainnet.g.alchemy.com/v2/key"
        "https://arb-mainnet.g.alchemy.com/v2/key" := by
  have h := (derived_iff whatwg_plainUrls).1 "https://eth-mainnet.g.alchemy.com/v2/key" 42161
    "https://arb-mainnet.g.alchemy.com/v2/key" (by decide)
  have hurl : plainUrls.parse "https://eth-mainnet.g.alchemy.com/v2/key" =
      some (plainUrl "eth-mainnet.g.alchemy.com".toList "/v2/key".toList) := by decide
  have hprovider : detectRpcProvider plainUrls "https://eth-mainnet.g.alchemy.com/v2/key" =
      .alchemy := by decide
  refine ⟨h.1.1, h.2.mpr ⟨_, hurl, ?_⟩⟩
  rw [hprovider, Rewritable]
  decide

end RpcDerive
