/-
The chain a fire is made on.

`fireChain` follows one pass of the fire path over a plan whose project is stored on one
chain.  It demands that whatever the pass signs carries a given chain id, and that it is handed
to endpoints of that chain alone: rows of the registry, or the operator's own URLs, which are
those of `ROBINHOOD_CHAIN_ID`.  Of the mint providers it assumes that they build for the chain
they are asked for, which is how they fill the field in.

`presignChain` follows one pre-sign pass in the same way, for one of its plans: what the pass signs
for that plan carries the chain id, and it sends nothing.

* `mem_broadcastRpcUrls`, `mem_mintRpcUrls` — where the URLs of a fire come from;
* `firesOn` — on the chain of the configuration every pass of either kind keeps to it.
-/
import HoodMint.ServerStages
import HoodMint.SignerFrame

namespace MintWorker

open Effect

/-! ### Endpoints -/

/-- The URLs of the configuration. -/
def Config.ownUrls (config : Config) : List String :=
  [config.alchemyRobinhoodRpc, config.chainstackRobinhoodRpc, config.drpcRobinhoodRpc].filterMap
    id ++ config.rpcUrl.toList

/-- The URL is an endpoint of the chain: a row of the registry, or one of the configuration's. -/
def Config.Serves (config : Config) (endpoints : List RpcEndpoint) (chainId : ℕ) (url : String) :
    Prop :=
  (∃ e ∈ endpoints, e.chainId = chainId ∧ e.httpUrl = url) ∨
    (chainId = config.robinhoodChainId ∧ url ∈ config.ownUrls)

theorem mem_foldl_pushUrl {url : String} :
    ∀ {l acc : List String}, url ∈ l.foldl pushUrl acc → url ∈ acc ∨ url ∈ l := by
  intro l
  induction l with
  | nil => exact fun h => Or.inl h
  | cons u l ih =>
    intro acc h
    rcases ih h with h | h
    · rw [pushUrl] at h
      split at h
      · exact Or.inl h
      · refine (List.mem_append.mp h).imp id fun h => ?_
        rw [List.mem_singleton.mp h]
        exact List.mem_cons_self
    · exact Or.inr (List.mem_cons_of_mem u h)

theorem mem_broadcastRpcUrls {endpoints : List RpcEndpoint} {chainId : ℕ}
    {fallback : Option String} {url : String}
    (h : url ∈ broadcastRpcUrls endpoints chainId fallback) :
    (∃ e ∈ endpoints, e.chainId = chainId ∧ e.httpUrl = url) ∨ url ∈ fallback := by
  have hranked : url ∈ (((rankRpcEndpoints endpoints chainId).filter fun e =>
      e.healthStatus ≠ .down).map RpcEndpoint.httpUrl).foldl pushUrl [] →
        ∃ e ∈ endpoints, e.chainId = chainId ∧ e.httpUrl = url := by
    intro h
    obtain ⟨e, he, rfl⟩ := List.mem_map.mp ((mem_foldl_pushUrl h).resolve_left List.not_mem_nil)
    have he := (List.perm_insertionSort _ _).mem_iff.mp (List.mem_of_mem_filter he)
    obtain ⟨he, hchain⟩ := List.mem_filter.mp he
    exact ⟨e, he, of_decide_eq_true (Bool.and_eq_true_iff.mp hchain).1, rfl⟩
  have h := List.mem_of_mem_take h
  cases fallback with
  | none => exact Or.inl (hranked h)
  | some last =>
    dsimp only at h
    split at h
    · exact Or.inl (hranked h)
    · rw [pushUrl] at h
      split at h
      · exact Or.inl (hranked h)
      · refine (List.mem_append.mp h).imp hranked fun h => ?_
        rw [List.mem_singleton.mp h]
        rfl

theorem mem_mintRpcUrls {config : Config} {registryUrls : List String} {url : String}
    (h : url ∈ mintRpcUrls config registryUrls) : url ∈ config.ownUrls ∨ url ∈ registryUrls := by
  have h := List.mem_of_mem_filter ((mem_foldl_pushUrl h).resolve_left List.not_mem_nil)
  rw [Config.ownUrls, List.mem_append]
  rcases List.mem_append.mp h with h | h
  · exact (List.mem_append.mp h).imp Or.inl id
  · exact Or.inl (Or.inr h)

/-! ### The monitor -/

/-- One pass over a plan whose project is stored on the chain `stored`; it signs for `chainId`,
and sends to endpoints of it.  `registry` holds the rows of `rpc_endpoints`. -/
def fireChain (config : Config) (registry : List RpcEndpoint) (stored chainId : ℕ) :
    Monitor signature Thrown Unit where
  guard _ c :=
    match c with
    | .signManagedMintTransaction tx _ => tx.tx.chainId = chainId
    | .signExecutorTransaction tx _ => tx.inner.chainId = chainId
    | .raceRawTransaction urls _ => ∀ url ∈ urls, config.Serves registry chainId url
    | .broadcastRawTransaction url _ => config.Serves registry chainId url
    | _ => True
  allowed _ c x :=
    match c, x with
    | .listRpcEndpoints _, .ok rows => rows ⊆ registry
    | .claimArmedMintPlan .., .ok (some plan) => ∀ tx ∈ plan.cachedTx, tx.chainId = stored
    | .selectProject _, .ok (some project) => project.chainId = stored
    | .buildSelfServedPublicMint _ _ _ _ _ chainId _, .ok (.built tx ..) => tx.chainId = chainId
    | .buildOpenSeaMintTx target, .ok tx => tx.chainId = target.chainId
    | .burstBuildOpenSeaMintTx target _ _, .ok tx => tx.chainId = target.chainId
    | _, _ => True
  next _ _ _ := ()

/-- One pre-sign pass, and the plan `planId` among its candidates, whose project is stored on the
chain `stored`.  The state is the plan the pass is at. -/
def presignChain (planId : String) (stored chainId : ℕ) :
    Monitor signature Thrown (Option String) where
  guard current c :=
    match c with
    | .signManagedMintTransaction tx _ => current = some planId → tx.tx.chainId = chainId
    | .signExecutorTransaction .. | .raceRawTransaction .. | .broadcastRawTransaction .. => False
    | _ => True
  allowed current c x :=
    match c, x with
    | .armedManagedPlansForPresign _, .ok plans =>
      ∀ plan ∈ plans, plan.planId = planId → ∀ tx ∈ plan.cachedTx, tx.chainId = stored
    | .selectProject _, .ok (some project) => current = some planId → project.chainId = stored
    | .buildOpenSeaMintTx target, .ok tx => tx.chainId = target.chainId
    | _, _ => True
  next current c _ :=
    match c with
    | .underfundedRecheckAt planId => some planId
    | _ => current

/-- Every pass over a plan of such a project signs for the chain and sends on it: those that fire,
and those that sign in advance. -/
structure FiresOn (config : Config) (stored chainId : ℕ) : Prop where
  fires : ∀ registry tr en, (runMintExecutionPass config).Runs tr en →
    (fireChain config registry stored chainId).Admits () tr →
    (fireChain config registry stored chainId).Keeps () tr en
  presigns : ∀ planId localNowMs clockOffsetMs tr en,
    (runPresignPass config localNowMs clockOffsetMs).Runs tr en →
    (presignChain planId stored chainId).Admits none tr →
    (presignChain planId stored chainId).Keeps none tr en

section

variable {α : Type} {config : Config} {registry : List RpcEndpoint} {stored chainId : ℕ} {plan : Plan}
  {tx : Tx} {wallet : Wallet} {mode : FireMode} {rpcUrl : String} {s : Unit}

theorem clerical_maintains :
    (fireChain config registry stored chainId).Maintains Cmd.Clerical fun _ => True := by
  intro s c hc _
  cases c <;> first | exact absurd hc id | exact ⟨trivial, fun _ _ => trivial⟩

theorem clerical_chain {p : Worker α} (hp : Clerical p) :
    p.wp (fireChain config registry stored chainId) (fun _ _ => True) s :=
  hp.wp_of clerical_maintains trivial

theorem quietKeeps_chain :
    QuietKeeps (fireChain config registry stored chainId) (fun _ => True) fun _ => True where
  guard s c hc _ := by cases c <;> first | exact trivial | exact absurd hc id
  next _ _ _ _ _ _ := trivial
  ends _ _ := trivial

/-- What is established of a result, whatever the state. -/
theorem endsIn_chain {p : Worker α} {R : Except Thrown α → Unit → Prop}
    (hp : p.wp (fireChain config registry stored chainId) R s) :
    p.wp (fireChain config registry stored chainId) (EndsIn (fun _ => True) fun _ => True) s := by
  refine Prog.wp_mono hp ?_
  rintro (e | a) _ _
  · trivial
  · trivial

section

variable (hhome : chainId = config.robinhoodChainId)
include hhome

/-- What the registry is asked for are endpoints of its chain, as is the fallback. -/
theorem resolveBroadcastRpcUrls_chain {fallback : Option String}
    (hfallback : ∀ url ∈ fallback, config.Serves registry chainId url) :
    (resolveBroadcastRpcUrls config.robinhoodChainId fallback).wp
      (fireChain config registry stored chainId)
      (fun r _ => ∀ urls, r = .ok urls → ∀ url ∈ urls, config.Serves registry chainId url) s := by
  refine Prog.wp_issue_bind trivial (fun rows hrows => ?_) fun _ _ => nofun
  rintro _ ⟨⟩ url hurl
  rcases mem_broadcastRpcUrls hurl with ⟨e, he, hchain, rfl⟩ | hurl
  · exact Or.inl ⟨e, hrows he, hchain.trans hhome.symm, rfl⟩
  · exact hfallback url hurl

end

/-! ### The signers on the server -/

theorem raceBroadcast_chain {urls : List String} {rawTx : String}
    (hurls : ∀ url ∈ urls, config.Serves registry chainId url) :
    (raceBroadcast urls rawTx).wp (fireChain config registry stored chainId) (fun _ _ => True) s := by
  refine Prog.wp_bind.mpr (Prog.wp_issue.mpr ⟨hurls, ?_⟩)
  rintro (e | errors | txHash) _
  · trivial
  · trivial
  · trivial

/-- The endpoints resolved for a race, or else the fire's own. -/
theorem serves_urls {urls : List String}
    (hurls : ∀ url ∈ urls, config.Serves registry chainId url)
    (hrpc : config.Serves registry chainId rpcUrl) :
    ∀ url ∈ (if urls = [] then [rpcUrl] else urls), config.Serves registry chainId url := by
  split
  · intro url hurl
    rw [List.mem_singleton.mp hurl]
    exact hrpc
  · exact hurls

section

variable (hhome : chainId = config.robinhoodChainId)
  (hrpc : config.Serves registry chainId rpcUrl)
  (hmode : ∀ url ∈ mode.fireUrls, config.Serves registry chainId url)
  (htx : tx.chainId = chainId)

include hhome hrpc

theorem raceBlob_chain {rawTx : String} :
    (raceBlob config rpcUrl rawTx).wp (fireChain config registry stored chainId)
      (fun _ _ => True) s := by
  refine Prog.wp_bind_of (resolveBroadcastRpcUrls_chain hhome fun url hurl => ?_)
    (fun urls _ h => raceBroadcast_chain (serves_urls (h urls rfl) hrpc)) fun _ _ _ => trivial
  obtain rfl := Option.mem_some_iff.mp hurl
  exact hrpc

theorem fireFast_chain {row : Presigned} {rawTx : String} :
    (fireFast config plan wallet rpcUrl mode row rawTx).wp (fireChain config registry stored chainId)
      (fun _ _ => True) s := by
  refine wp_attempt_of (raceBlob_chain hhome hrpc) ?_
  rintro (e | txHash) _ _
  · exact clerical_chain clerical_discardBlob
  · exact clerical_chain (.bind (clerical_settleFast.tryCatch fun _ =>
      quiet_rescueFast.clerical) fun _ => .pure _)

include hmode

theorem sendLive_chain {signed : Signed} :
    (sendLive config plan rpcUrl mode signed).wp (fireChain config registry stored chainId)
      (fun _ _ => True) s := by
  refine Prog.wp_issue_bind trivial (fun _ _ => ?_) fun _ _ => trivial
  have hlive : (liveUrls config rpcUrl mode).wp (fireChain config registry stored chainId)
      (fun r _ => ∀ urls, r = .ok urls → ∀ url ∈ urls, config.Serves registry chainId url) () := by
    rw [liveUrls]
    split
    · rintro _ ⟨⟩
      exact hmode
    · refine resolveBroadcastRpcUrls_chain hhome fun url hurl => ?_
      obtain rfl := Option.mem_some_iff.mp hurl
      exact hrpc
  exact Prog.wp_bind_of hlive
    (fun urls _ h => raceBroadcast_chain (serves_urls (h urls rfl) hrpc)) fun _ _ _ => trivial

include htx

omit hhome hrpc hmode in
theorem signLive_chain {key : String} {nonce gasEstimate : ℕ} {fees : FeeContext} :
    (signLive tx key mode nonce gasEstimate fees).wp (fireChain config registry stored chainId)
      (fun _ _ => True) s := by
  refine Prog.wp_bind_of (R := fun _ _ => True) ?_ (fun signed _ _ => ?_) fun _ _ _ => trivial
  · refine Prog.wp_tryCatch_of (R := fun _ _ => True) ?_ (fun _ _ _ => trivial) fun _ _ _ => trivial
    exact Prog.wp_issue.mpr ⟨htx, fun _ _ => trivial⟩
  · exact clerical_chain (.bind (idle_holdForOpen _).quiet.clerical fun _ => .pure _)

theorem fireLive_chain {key : String} :
    (fireLive config plan tx wallet key rpcUrl mode).wp (fireChain config registry stored chainId)
      (fun _ _ => True) s := by
  refine wp_attempt_of (clerical_chain quiet_prepareLive.clerical) ?_
  rintro (e | _ | ⟨gasEstimate, fees⟩) s₁ _
  · exact clerical_chain clerical_rescueLive
  · trivial
  · refine Prog.wp_bind.mpr (Prog.wp_attempt.mpr (Prog.wp_issue.mpr ⟨trivial, ?_⟩))
    rintro (e | nonce) _
    · exact clerical_chain clerical_rescueLive
    · refine wp_attempt_of (signLive_chain htx) ?_
      rintro (e | signed) s₃ _
      · exact clerical_chain clerical_rescueLive
      · refine wp_attempt_of (sendLive_chain hhome hrpc hmode) ?_
        rintro (e | txHash) s₄ _
        · exact clerical_chain clerical_rescueLive
        · exact clerical_chain (quiet_settleLive.clerical.tryCatch fun _ =>
            (quiet_ignoreErrors quiet_markMintPlanExecuted).clerical)

theorem runManagedFire_chain :
    (runManagedFire config plan tx wallet rpcUrl mode).wp (fireChain config registry stored chainId)
      (fun _ _ => True) s := by
  rw [runManagedFire]
  split
  · exact clerical_chain (.bind (clerical_ask trivial) fun _ => quiet_failPlanAndNotify.clerical)
  · refine Prog.wp_issue_bind trivial (fun fresh _ => ?_) fun _ _ => trivial
    split
    · refine Prog.wp_bind_of (fireFast_chain hhome hrpc) ?_ fun _ _ _ => trivial
      rintro (_ | _) s₁ _
      · exact fireLive_chain hhome hrpc hmode htx
      · trivial
    · exact fireLive_chain hhome hrpc hmode htx

omit hhome hmode in
theorem runDelegatedFire_chain {signer : Option Signer} :
    (runDelegatedFire plan tx signer rpcUrl).wp (fireChain config registry stored chainId)
      (fun _ _ => True) s := by
  refine runDelegatedFire_cases
    (P := fun p => p.wp (fireChain config registry stored chainId) (fun _ _ => True) s) ?_ ?_
  · exact clerical_chain clerical_failed
  · intro row executorAddress credentialId _ _ _
    refine Prog.wp_tryCatch_of (R := fun _ _ => True) ?_ (fun _ _ _ => trivial) fun _ _ _ =>
      clerical_chain quiet_rescueDelegated.clerical
    refine Prog.wp_issue_bind trivial ?_ fun _ _ => trivial
    rintro (_ | sessionKeyHex) _
    · exact clerical_chain clerical_failed
    · refine Prog.wp_issue_bind trivial (fun operator _ => ?_) fun _ _ => trivial
      refine Prog.wp_issue_bind trivial ?_ fun _ _ => trivial
      rintro (revertReason | gasEstimate) _
      · exact clerical_chain (.bind (clerical_ask trivial) fun _ =>
          quiet_releaseMintPlanToArmed.clerical)
      · refine Prog.wp_issue_bind trivial (fun fees _ => ?_) fun _ _ => trivial
        refine Prog.wp_issue_bind htx (fun signed _ => ?_) fun _ _ => trivial
        refine Prog.wp_issue_bind hrpc (fun txHash _ => ?_) fun _ _ => trivial
        exact clerical_chain (.bind (clerical_ask trivial) fun _ =>
          .bind quiet_markMintPlanExecuted.clerical fun _ => clerical_ask trivial)

end

/-! ### The pass -/

/-- A mint provider builds for the chain it is asked for. -/
theorem makes_chain (hplan : ∀ tx ∈ plan.cachedTx, tx.chainId = stored) :
    Makes (fireChain config registry stored chainId) (fun _ => True) (fun tx => tx.chainId = stored)
      plan stored where
  cached := hplan
  selfServed _ _ _ _ _ _ _ _ _ _ _ _ _ hx := hx
  paced _ _ _ htarget _ hx := Eq.trans hx htarget
  burst _ _ _ _ _ htarget _ hx := Eq.trans hx htarget

theorem loadPlan_chain :
    (loadPlan plan).wp (fireChain config registry stored chainId)
      (fun r _ => ∀ project wallet, r = .ok (project, wallet) →
        ∀ p ∈ project, p.chainId = stored) s := by
  refine Prog.wp_issue_bind trivial (fun project hproject => ?_) fun _ _ _ _ => nofun
  refine Prog.wp_issue_bind trivial (fun wallet _ => ?_) fun _ _ _ _ => nofun
  rintro _ _ ⟨⟩ p hp
  obtain rfl := Option.mem_def.mp hp
  exact hproject

/-- The stages of a pass, of which nothing needs to be known. -/
def anyStages : Stages Unit := ⟨fun _ => True, fun _ _ => True, fun _ _ => True, fun _ _ => True,
  fun _ => True, fun _ => True⟩

theorem firePlan_chain (hstored : stored = config.robinhoodChainId)
    (hplan : ∀ tx ∈ plan.cachedTx, tx.chainId = stored) :
    (firePlan config plan).wp (fireChain config registry stored stored)
      (EndsIn (fun _ => True) fun _ => True) s := by
  have hkeeps : PassKeeps (fireChain config registry stored stored) config plan anyStages :=
    quietKeeps_chain.passKeeps plan
  have hown : ∀ url ∈ config.ownUrls, config.Serves registry stored url := fun url hurl =>
    Or.inr ⟨hstored, hurl⟩
  refine hkeeps.firePlan_of (U := fun urls => ∀ url ∈ urls, config.Serves registry stored url)
    (L := fun project => ∀ p ∈ project, p.chainId = stored) (fun s₁ _ => ?_)
    (fun _ _ => loadPlan_chain) ?_ trivial
  · refine Prog.wp_mono (resolveBroadcastRpcUrls_chain hstored fun url hurl => ?_)
      fun r _ hr => ⟨trivial, hr⟩
    exact hown url (List.mem_append_right _ (Option.mem_toList.mpr hurl))
  · intro registryUrls rpcUrl nearFire pre project wallet s₁ hregistry hproject hrpc _
    have hserves : ∀ url ∈ mintRpcUrls config registryUrls, config.Serves registry stored url :=
      fun url hurl => (mem_mintRpcUrls hurl).elim (hown url) (hregistry url)
    refine hkeeps.idempotencyGate (P := fun _ => True) (fun s₂ c hc _ => ?_) (fun _ _ => trivial)
      (fun _ _ => endsIn_chain (clerical_chain quiet_markMintPlanExecuted.clerical))
      (fun s₂ _ => ?_) trivial
    · cases c <;> first | exact ⟨trivial, fun _ _ => trivial⟩ | exact absurd hc id
    · refine hkeeps.fireClaimed_of (Q := fun tx => tx.chainId = stored) (fun _ p hp => ?_)
        (fun fire tx s₃ htx _ _ hfireRpc hfireUrls _ => ?_) trivial
      · rw [hproject p hp]
        exact makes_chain hplan
      · refine endsIn_chain (R := fun _ _ => True) ?_
        rw [runServerFire]
        split
        · refine runManagedFire_chain hstored (hfireRpc ▸ hserves rpcUrl hrpc) ?_ htx
          show ∀ url ∈ fire.fireUrls, _
          rw [hfireUrls]
          exact hserves
        · exact runDelegatedFire_chain (hfireRpc ▸ hserves rpcUrl hrpc) htx

theorem runMintExecutionPass_chain (hstored : stored = config.robinhoodChainId) :
    (runMintExecutionPass config).wp (fireChain config registry stored stored)
      (EndsIn (fun _ => True) fun _ => True) s :=
  quietKeeps_chain.runMintExecutionPass (P := fun plan => ∀ tx ∈ plan.cachedTx, tx.chainId = stored)
    (fun _ _ _ _ _ _ hx => hx) (fun _ _ hplan _ => firePlan_chain hstored hplan) trivial

end

/-! ### Signing in advance -/

section

variable {config : Config} {planId rpcUrl : String} {stored : ℕ} {localNowMs clockOffsetMs : ℤ}
  {candidate : PresignCandidate} {tx : Tx} {current : Option String}

/-- The transaction is for the chain, when the candidate is the plan that is followed. -/
def PresignCandidate.BuildsFor (candidate : PresignCandidate) (planId : String) (stored : ℕ)
    (tx : Tx) : Prop :=
  candidate.planId = planId → tx.chainId = stored

/-- What a pre-sign pass asks about a candidate leaves it at its plan. -/
theorem surveys_presignChain :
    (presignChain planId stored stored).Maintains Cmd.Surveys fun current' => current' = current := by
  intro s c hc hs
  cases c <;> first | exact ⟨trivial, fun _ _ => hs⟩ | exact absurd hc id

theorem presignCalldata_chain {cached : Option Tx}
    (hcached : ∀ tx ∈ cached, candidate.BuildsFor planId stored tx) :
    (presignCalldata candidate cached).wp (presignChain planId stored stored)
      (fun r current => current = some candidate.planId ∧
        ∀ tx, r = .ok (some tx) → candidate.BuildsFor planId stored tx)
      (some candidate.planId) := by
  cases cached with
  | some tx =>
    refine ⟨rfl, ?_⟩
    rintro _ ⟨⟩
    exact hcached tx rfl
  | none =>
    refine Prog.wp_issue_bind trivial (fun projectId _ => ?_) fun _ _ => ⟨rfl, nofun⟩
    refine Prog.wp_issue_bind trivial (fun project hproject => ?_) fun _ _ => ⟨rfl, nofun⟩
    dsimp only
    split
    · refine Prog.wp_issue_bind trivial (fun tx htx => ?_) fun _ _ => ⟨rfl, nofun⟩
      refine ⟨rfl, ?_⟩
      rintro _ ⟨⟩ hplan
      exact Eq.trans htx (hproject (congrArg some hplan))
    · exact ⟨rfl, nofun⟩

theorem signPresign_chain {fees : FeeContext} {key : String}
    (htx : candidate.BuildsFor planId stored tx) :
    (signPresign config candidate tx fees key).wp (presignChain planId stored stored)
      (fun _ _ => True) (some candidate.planId) := by
  refine Prog.wp_issue_bind trivial (fun nonce _ => ?_) fun _ _ => trivial
  refine Prog.wp_issue_bind (fun hplan => htx (Option.some_inj.mp hplan)) (fun signed _ => ?_)
    fun _ _ => trivial
  exact Prog.wp_issue.mpr ⟨trivial, fun _ _ => trivial⟩

theorem fundPresign_chain {fees : FeeContext} (htx : candidate.BuildsFor planId stored tx) :
    (fundPresign config rpcUrl localNowMs candidate tx fees).wp (presignChain planId stored stored)
      (fun _ _ => True) (some candidate.planId) := by
  refine Prog.wp_bind_of (surveys_assessPresignFunding.wp_of surveys_presignChain rfl)
    (fun verdict current hcurrent => ?_) fun _ _ _ => trivial
  subst hcurrent
  cases verdict with
  | short =>
    refine Prog.wp_issue_bind trivial (fun _ _ => ?_) fun _ _ => trivial
    exact Prog.wp_issue.mpr ⟨trivial, fun _ _ => trivial⟩
  | ok =>
    refine Prog.wp_issue_bind trivial (fun _ _ => ?_) fun _ _ => trivial
    refine Prog.wp_issue_bind trivial ?_ fun _ _ => trivial
    rintro (_ | encrypted) _
    · trivial
    · exact Prog.wp_issue_bind trivial (fun key _ => signPresign_chain htx) fun _ _ => trivial

theorem presignClaimed_chain {cached : Option Tx}
    (hcached : ∀ tx ∈ cached, candidate.BuildsFor planId stored tx) :
    (presignClaimed config rpcUrl localNowMs clockOffsetMs candidate cached).wp
      (presignChain planId stored stored) (fun _ _ => True) (some candidate.planId) := by
  refine Prog.wp_issue_bind trivial (fun fees _ => ?_) fun _ _ => trivial
  dsimp only
  split
  · refine Prog.wp_bind_of (presignCalldata_chain hcached) ?_ fun _ _ _ => trivial
    rintro (_ | tx) current ⟨rfl, htx⟩
    · trivial
    · dsimp only
      split
      · trivial
      · exact fundPresign_chain (htx tx rfl)
  · trivial

theorem freshPresignTx_chain (hcandidate : ∀ tx ∈ candidate.cachedTx,
    candidate.BuildsFor planId stored tx) :
    (freshPresignTx candidate).wp (presignChain planId stored stored)
      (fun r current => current = some candidate.planId ∧
        ∀ cached, r = .ok cached → ∀ tx ∈ cached, candidate.BuildsFor planId stored tx)
      (some candidate.planId) := by
  rw [freshPresignTx]
  split
  · next tx _ htx _ =>
    refine Prog.wp_issue_bind trivial (fun nowMs _ => ?_) fun _ _ => ⟨rfl, fun _ h => by cases h⟩
    refine ⟨rfl, ?_⟩
    rintro _ ⟨⟩ tx' htx'
    split at htx'
    · obtain rfl := Option.mem_some_iff.mp htx'
      exact hcandidate _ htx
    · exact absurd htx' (Option.not_mem_none _)
  · refine ⟨rfl, ?_⟩
    rintro _ ⟨⟩ tx htx
    exact absurd htx (Option.not_mem_none tx)

theorem presignPlan_chain (hcandidate : ∀ tx ∈ candidate.cachedTx,
    candidate.BuildsFor planId stored tx) :
    (presignPlan config rpcUrl localNowMs clockOffsetMs candidate).wp
      (presignChain planId stored stored) (fun _ _ => True) current := by
  rw [presignPlan]
  split
  · trivial
  · trivial
  · refine Prog.wp_issue_bind trivial (fun recheckAt _ => ?_) fun _ _ => trivial
    refine Prog.wp_ite (fun _ => trivial) fun _ => ?_
    refine Prog.wp_bind_of (freshPresignTx_chain hcandidate) ?_ fun _ _ _ => trivial
    rintro cached current ⟨rfl, hcached⟩
    exact Prog.wp_tryCatch_of (presignClaimed_chain (hcached cached rfl)) (fun _ _ _ => trivial)
      fun _ _ _ => trivial

theorem presignPlans_chain (candidates : List PresignCandidate)
    (hcandidates : ∀ candidate ∈ candidates, ∀ tx ∈ candidate.cachedTx,
      candidate.BuildsFor planId stored tx) :
    (presignPlans config rpcUrl localNowMs clockOffsetMs candidates).wp
      (presignChain planId stored stored) (fun _ _ => True) current := by
  induction candidates generalizing current with
  | nil => trivial
  | cons candidate candidates ih =>
    exact Prog.wp_bind_of (presignPlan_chain (hcandidates candidate List.mem_cons_self))
      (fun _ _ _ => ih fun c hc => hcandidates c (List.mem_cons_of_mem _ hc)) fun _ _ _ => trivial

theorem runPresignPass_chain :
    (runPresignPass config localNowMs clockOffsetMs).wp (presignChain planId stored stored)
      (fun _ _ => True) current := by
  rw [runPresignPass]
  refine Prog.wp_ite (fun _ => trivial) fun _ => ?_
  refine Prog.wp_issue_bind trivial (fun candidates hcandidates => ?_) fun _ _ => trivial
  refine Prog.wp_ite (fun _ => trivial) fun _ => ?_
  have hbest : (resolveBestRpcUrl config.robinhoodChainId config.rpcUrl).wp
      (presignChain planId stored stored) (fun _ _ => True) current :=
    Prog.wp_issue_bind trivial (fun _ _ => trivial) fun _ _ => trivial
  refine Prog.wp_bind_of hbest ?_ fun _ _ _ => trivial
  rintro (_ | rpcUrl) _ _
  · trivial
  · exact Prog.wp_ite (fun _ => trivial) fun _ => presignPlans_chain candidates fun c hc tx htx hid =>
      hcandidates c hc hid tx htx

end

/-- **On the chain of the configuration** every pass signs for that chain, and sends on it. -/
theorem firesOn {config : Config} {stored : ℕ} (hstored : stored = config.robinhoodChainId) :
    FiresOn config stored stored where
  fires _ _ _ hr ha := (Prog.sound (runMintExecutionPass_chain hstored) hr ha).1
  presigns _ _ _ _ _ hr ha := (Prog.sound runPresignPass_chain hr ha).1

end MintWorker
