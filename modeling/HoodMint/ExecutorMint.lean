/-
A self-served mint, through the executor (`apps/worker/src/seadrop-public-mint.ts`,
`packages/providers/src/chain/seadrop-public.ts`, `contracts/mint-executor/src/MintExecutor.sol`).

The worker builds the calldata of a public mint itself, names the wallet as the minter, wraps it in a
call of the executor and signs that.  The contract looks at one word of the inner calldata, at the
offset its owner has set.

* `mintPublicData` — the inner calldata;
* `extractRecipient_argument` — the offset `4 + 32 i` is that of the `i`-th argument;
* `executeMint_isOk_iff` — when the contract makes the call;
* `selfServed_executed_iff` — with the offset of the minter, the wrapped call is made exactly when
  the wallet is the owner of the executor, and the caps, the balance and the caller are in order.
-/
import HoodMint.ExecutorCalldata
import HoodMint.MintPrecheck

namespace MintExecutor

open Abi (Arg)
open MintPrecheck
open ChainRadar (seadropAddress zeroAddress)

/-! ### The inner calldata -/

/-- `SEADROP_ADDRESS`, as the contract has it. -/
def seadrop : Address := 0x00005ea00ac477b1030ce78506496e8c2de24bf5

theorem addressOfText_seadropAddress : addressOfText seadropAddress = some seadrop := by
  decide

/-- The selector of `mintPublic(address,address,address,uint256)`. -/
def mintPublicSelector : Bytes4 := 0x161ac21f

def mintPublicArgs (nftContract feeRecipient minterIfNotPayer : Address) (quantity : UInt256) :
    List Arg :=
  [addressWord nftContract, addressWord feeRecipient, addressWord minterIfNotPayer, .word quantity]

def mintPublicData (nftContract feeRecipient minterIfNotPayer : Address) (quantity : UInt256) :
    Bytes :=
  Abi.digits 4 mintPublicSelector.toNat ++
    Abi.encode (mintPublicArgs nftContract feeRecipient minterIfNotPayer quantity)

theorem selectorFor_mintPublic :
    selectorFor (signatureOf "mintPublic" ["address", "address", "address", "uint256"]) =
      Abi.digits 4 mintPublicSelector.toNat := by
  decide +kernel

/-- The calldata that `buildMintPublicTx` has encoded; no text where that throws. -/
def encodeMintPublic (encodeFunctionData : String → List AbiArg → Option String)
    (nft fee minter : String) (quantity : ℕ) : String :=
  (encodeFunctionData "mintPublic"
    [.address nft, .address fee, .address minter, .uint256 quantity]).getD ""

theorem parse_mintPublic {encodeFunctionData : String → List AbiArg → Option String}
    (hencodes : EncodesFunctionData encodeFunctionData) {nft fee minter text : String} {quantity : ℕ}
    (h : encodeFunctionData "mintPublic"
      [.address nft, .address fee, .address minter, .uint256 quantity] = some text) :
    ∃ a b c, addressOfText nft = some a ∧ addressOfText fee = some b ∧
      addressOfText minter = some c ∧
        Hex.parse text = some (mintPublicData a b c (BitVec.ofNat 256 quantity)) := by
  obtain ⟨values, hvalues, hparse⟩ := hencodes _ _ _ h (by simp [AbiArg.IsHex])
  simp only [List.mapM_cons, List.mapM_nil, AbiArg.value, bind, Option.bind_eq_some_iff,
    Option.map_eq_some_iff, pure, Option.some.injEq] at hvalues
  obtain ⟨_, ⟨a, ha, rfl⟩, _, ⟨_, ⟨b, hb, rfl⟩, _, ⟨_, ⟨c, hc, rfl⟩, _, ⟨_, ⟨n, hn, rfl⟩, _, rfl,
    rfl⟩, rfl⟩, rfl⟩, rfl⟩ := hvalues
  refine ⟨a, b, c, ha, hb, hc, ?_⟩
  have hword : quantity = n.toNat := by exact_mod_cast (wordOf_eq_some.mp hn).2
  rw [hword, BitVec.ofNat_toNat, BitVec.setWidth_eq, mintPublicData, ← selectorFor_mintPublic]
  exact hparse

/-! ### What the contract looks at -/

/-- The word of an argument. -/
theorem calldataload_argument {args before after : List Arg} {n : UInt256}
    (hargs : args = before ++ .word n :: after) (s : Bytes4) :
    calldataload (Abi.digits 4 s.toNat ++ Abi.encode args) (4 + 32 * before.length) = n ∧
      4 + 32 * before.length + 32 ≤ (Abi.digits 4 s.toNat ++ Abi.encode args).length := by
  have hword := Abi.wordAt_encode hargs []
  rw [List.append_nil, Abi.wordAt] at hword
  split at hword
  · next hle =>
    refine ⟨?_, ?_⟩
    · have hdrop : (Abi.digits 4 s.toNat ++ Abi.encode args).drop (4 + 32 * before.length) =
          (Abi.encode args).drop (32 * before.length) := by
        rw [← List.drop_drop, List.drop_left' (Abi.length_digits 4 _)]
      have hvalue : bigEndian (((Abi.encode args).drop (32 * before.length)).take 32) = n.toNat :=
        Option.some_inj.mp hword
      rw [calldataload, hdrop, hvalue, BitVec.ofNat_toNat, BitVec.setWidth_eq]
    · rw [List.length_append, Abi.length_digits]
      omega
  · cases hword

theorem addressOf_setWidth (a : Address) : addressOf (a.setWidth 256) = a := by
  have hlt := a.isLt
  refine BitVec.eq_of_toNat_eq ?_
  rw [addressOf, BitVec.toNat_setWidth, BitVec.toNat_setWidth, Nat.mod_eq_of_lt (by omega),
    Nat.mod_eq_of_lt (by omega)]

/-- **An offset past the selector by whole words** is that of an argument. -/
theorem extractRecipient_argument {args before after : List Arg} {a : Address}
    (hargs : args = before ++ addressWord a :: after) (hfew : before.length < 2 ^ 64) (s : Bytes4) :
    extractRecipient (Abi.digits 4 s.toNat ++ Abi.encode args)
      (BitVec.ofNat 256 (4 + 32 * before.length)) = .ok a := by
  obtain ⟨hword, hlength⟩ := calldataload_argument hargs s
  have hoffset : (BitVec.ofNat 256 (4 + 32 * before.length)).toNat = 4 + 32 * before.length := by
    rw [BitVec.toNat_ofNat, Nat.mod_eq_of_lt (by omega)]
  refine extractRecipient_eq_ok.mpr ⟨by omega, by omega, ?_⟩
  rw [hoffset, hword, addressOf_setWidth]

/-- When the contract makes the call. -/
theorem executeMint_isOk_iff {owner : Address} {now : Timestamp} {msg : Msg} {w : World}
    {target : Address} {data : Bytes} {value : UInt256} (hfits : WindowFits w target) :
    (∃ w', executeMint owner now msg target data value w = .ok w') ↔
      msg.sender = w.operator ∧ w.reentrancyStatus ≠ ENTERED ∧ 4 ≤ data.length ∧
        (entryFor w target data).allowed = true ∧
          extractRecipient data (entryFor w target data).recipientOffset = .ok owner ∧
            value.toNat ≤
                (entryFor w target data).valueCapWei.toNat - (spentFor now w target).toNat ∧
              value.toNat ≤ w.balance := by
  constructor
  · rintro ⟨w', h⟩
    have hx := executed_of_eq_ok hfits h
    exact ⟨hx.sender, hx.unlocked, hx.selector, hx.allowed,
      extractRecipient_eq_ok.mpr ⟨hx.offsetFits, hx.longEnough, hx.recipient.symm⟩, hx.within,
      hx.funded⟩
  · rintro ⟨hsender, hunlocked, hselector, hallowed, hrecipient, hwithin, hfunded⟩
    have hentered : WindowFits { w with reentrancyStatus := ENTERED } target := hfits
    obtain ⟨remaining, hspend⟩ := spend_eq (entryFor w target data).valueCapWei value
      (spentFor now w target) fun total => { w with
        reentrancyStatus := ENTERED
        windowStart := Function.update w.windowStart target (startFor now w target)
        windowSpentWei := Function.update w.windowSpentWei target total }
    rw [if_pos hwithin] at hspend
    have hconsume : consumeRollingWindow now target (entryFor w target data).valueCapWei value
        { w with reentrancyStatus := ENTERED } = _ :=
      (consumeRollingWindow_eq hentered).trans hspend
    simp only [executeMint, bind, bind_eq_ok, revertIf_eq_ok, pure, Except.pure, Except.ok.injEq,
      exists_const, not_not, not_lt, Bool.not_eq_false]
    exact ⟨_, hsender, hunlocked, hselector, hallowed, owner, hrecipient, rfl, _, hconsume, hfunded,
      rfl⟩

/-- The step opens the frame of a mint. -/
theorem mint_frame_iff {owner : Address} {m : Machine} {msg : Msg} {target : Address} {data : Bytes}
    {value : UInt256} :
    (∃ m', step owner m (.call (msg, .executeMint target data value)) = some m' ∧
        m'.frames = .pending m.world (.mint target data value) :: m.frames) ↔
      msg.value = 0 ∧ ∃ w, executeMint owner m.now msg target data value m.world = .ok w := by
  constructor
  · rintro ⟨m', hstep, hframes⟩
    rcases Rollback.Machine.step_call_cases hstep with
      ⟨e, -, rfl⟩ | ⟨w, -, rfl⟩ | ⟨w, pending, hc, -⟩
    · exact absurd hframes.symm (List.cons_ne_self _ _)
    · exact absurd hframes.symm (List.cons_ne_self _ _)
    · simp only [executor, handOut_eq_outgoing, nonPayable_eq_ok] at hc
      exact ⟨hc.1.1, w, hc.1.2⟩
  · rintro ⟨hvalue, w, hw⟩
    have hc : (executor owner).handle m.now (msg, .executeMint target data value) m.world =
        .outgoing w (.mint target data value) := by
      simp only [executor, handOut_eq_outgoing, nonPayable_eq_ok]
      exact ⟨⟨hvalue, hw⟩, trivial⟩
    refine ⟨{ m with world := w, frames := .pending m.world (.mint target data value) :: m.frames },
      ?_, rfl⟩
    rw [step, Rollback.Machine.step, hc]

theorem unlocked_iff {owner : Address} {m : Machine} (hm : Reachable owner m) :
    m.world.reentrancyStatus ≠ ENTERED ↔ openMints m.frames = 0 := by
  have hle := hm.guarded.atMostOne
  rw [Ne, hm.guarded.status]
  omega

/-! ### The worker's mint -/

/-- What is built is for one token at least, and within the cap of the contract. -/
theorem quantity_of_built {encode : String → String → String → ℕ → String}
    {input : PublicMintInput} {nft : String} {reads : PublicReads} {tx : MintWorker.Tx}
    {startMs endMs : ℤ} {requested quantity : ℕ}
    (h : buildFromReads encode input nft reads = .built tx startMs endMs requested quantity) :
    ∃ fee, reads.feeRecipient = some fee ∧ 1 ≤ quantity ∧ quantity < 2 ^ 16 ∧
      tx = buildMintPublicTx encode nft fee quantity reads.drop.mintPriceWei input.chainId
        input.minterIfNotPayer := by
  rw [buildFromReads] at h
  split at h
  · cases h
  · next fee hfee =>
    split at h
    · cases h
    · simp only at h
      split at h
      · cases h
      · next hone =>
        obtain ⟨rfl, -, -, -, rfl⟩ := MintWorker.SelfServed.built.inj h
        refine ⟨fee, hfee, by omega, ?_, rfl⟩
        -- what is left of the cap is positive, and so the cap less what was minted
        have hcap := reads.drop.maxTotalMintableByWallet_lt
        have hleft : 0 < perWalletLeft reads.drop.maxTotalMintableByWallet reads.stats := by
          rw [mintableQuantity] at hone
          omega
        have hsafe := @cap_le_maxSafeInteger reads.drop
        have hminted : reads.stats.minterNumMinted < reads.drop.maxTotalMintableByWallet := by
          by_contra hnot
          have := (@perWalletLeft_nonpos_iff_of_safe reads.stats _ hsafe).mpr (by omega)
          omega
        have hexact := perWalletLeft_of_safe hsafe hminted
        rw [mintableQuantity]
        omega

theorem buildFromReads_of_some {encode : String → String → String → ℕ → String}
    {input : PublicMintInput} {nft fee : String} {reads : PublicReads} {quantity : ℤ}
    (hfee : reads.feeRecipient = some fee)
    (hsupply : reads.stats.currentTotalSupply < reads.stats.maxSupply)
    (hquantity : mintableQuantity input.quantity reads.drop reads.stats = quantity)
    (hone : 1 ≤ quantity) :
    buildFromReads encode input nft reads =
      .built (buildMintPublicTx encode nft fee quantity.toNat reads.drop.mintPriceWei input.chainId
        input.minterIfNotPayer) (reads.drop.startTimeSec * 1000) (reads.drop.endTimeSec * 1000)
        input.quantity quantity.toNat := by
  subst hquantity
  rw [buildFromReads, hfee]
  simp only [if_neg (Nat.not_le.mpr hsupply), if_neg (Int.not_lt.mpr hone)]

theorem built_of_selfServed {encode : String → String → String → ℕ → String}
    {input : PublicMintInput} {stage : StageRow} {nft : String} {reads : PublicReads}
    {tx : MintWorker.Tx} {startMs endMs : ℤ} {requested quantity : ℕ}
    (hnft : input.contractAddress = some nft)
    (h : buildSelfServedPublicMint encode input (some stage) (.ok reads) =
      .built tx startMs endMs requested quantity) :
    buildFromReads encode input nft reads = .built tx startMs endMs requested quantity := by
  unfold buildSelfServedPublicMint at h
  split at h
  · next hcontract hstage =>
    obtain rfl := Option.some_inj.mp (hcontract.symm.trans hnft)
    obtain rfl := Option.some_inj.mp hstage
    split at h
    · exact absurd h nofun
    · split at h
      · exact absurd h nofun
      · exact h
  · exact absurd h nofun

theorem length_mintPublicData (a b c : Address) (n : UInt256) :
    (mintPublicData a b c n).length = 132 := by
  have hlength : (Abi.encode (mintPublicArgs a b c n)).length = 128 := Abi.length_encode _
  rw [mintPublicData, List.length_append, Abi.length_digits, hlength]

/-- What the mint contract reads. -/
theorem decode_mintPublicData (a b c : Address) (n : UInt256) :
    Abi.decode [.word, .word, .word, .word] ((mintPublicData a b c n).drop 4) =
      some (mintPublicArgs a b c n) := by
  have hlength : (Abi.encode (mintPublicArgs a b c n)).length = 128 := Abi.length_encode _
  have hdecode := Abi.decode_encode (mintPublicArgs a b c n) [] (by rw [hlength]; decide)
  rw [List.append_nil] at hdecode
  rw [mintPublicData, List.drop_left' (Abi.length_digits 4 _)]
  exact hdecode

section

variable {owner : Address} {m : Machine}
  {encodeFunctionData : String → List AbiArg → Option String} {input : PublicMintInput} {stage : StageRow} {reads : PublicReads} {tx : MintWorker.Tx}
  {startMs endMs : ℤ} {requested quantity : ℕ} {nft fee wallet text : String}

/-- **A self-served mint through the executor.**  Where neither encoding throws, the bytes that the
worker signs are a call of the executor that wraps a public mint for its wallet.  Where the entry in
force looks at the minter, the contract makes that call exactly when the wallet is its owner, and the
caller, the cap and the balance are in order. -/
theorem selfServed_executed_iff (hm : Reachable owner m)
    (hencodes : EncodesFunctionData encodeFunctionData)
    (hbuilt : buildSelfServedPublicMint (encodeMintPublic encodeFunctionData) input (some stage)
      (.ok reads) = .built tx startMs endMs requested quantity)
    (hnft : input.contractAddress = some nft) (hfee : reads.feeRecipient = some fee)
    (hwallet : input.minterIfNotPayer = some wallet)
    (hinner : (encodeFunctionData "mintPublic"
      [.address nft, .address fee, .address wallet, .uint256 quantity]).isSome)
    (htext : buildExecuteMintCalldata encodeFunctionData tx.toAddress tx.data tx.valueWei =
      some text)
    (hoffset : (m.world.allowlist seadrop mintPublicSelector).recipientOffset = 68) (msg : Msg) :
    ∃ collection recipient minter bytes data value, addressOfText nft = some collection ∧
      addressOfText fee = some recipient ∧ addressOfText wallet = some minter ∧
      Hex.parse text = some bytes ∧ dispatch bytes = some (.executeMint seadrop data value) ∧
      Abi.decode [.word, .word, .word, .word] (data.drop 4) =
        some (mintPublicArgs collection recipient minter (BitVec.ofNat 256 quantity)) ∧
      value.toNat = reads.drop.mintPriceWei * quantity ∧
      ((∃ m', step owner m (.call (msg, .executeMint seadrop data value)) = some m' ∧
          m'.frames = .pending m.world (.mint seadrop data value) :: m.frames) ↔
        minter = owner ∧ msg.value = 0 ∧ msg.sender = m.world.operator ∧ openMints m.frames = 0 ∧
          (m.world.allowlist seadrop mintPublicSelector).allowed = true ∧
          value.toNat ≤ (m.world.allowlist seadrop mintPublicSelector).valueCapWei.toNat -
            (spentFor m.now m.world seadrop).toNat ∧
          value.toNat ≤ m.world.balance) := by
  obtain ⟨fee', hfee', -, -, rfl⟩ := quantity_of_built (built_of_selfServed hnft hbuilt)
  obtain rfl := Option.some_inj.mp (hfee.symm.trans hfee')
  -- what was built is the inner calldata, and what was wrapped is that
  obtain ⟨inner, hinner⟩ := Option.isSome_iff_exists.mp hinner
  obtain ⟨collection, recipient, minter, hcollection, hrecipient, hminter, hparsed⟩ :=
    parse_mintPublic hencodes hinner
  have hdata : (buildMintPublicTx (encodeMintPublic encodeFunctionData) nft fee quantity
      reads.drop.mintPriceWei input.chainId input.minterIfNotPayer).data = inner := by
    rw [buildMintPublicTx, hwallet, Option.getD_some, encodeMintPublic]
    exact congrArg (Option.getD · "") hinner
  rw [← hdata] at hparsed
  have hlength := length_mintPublicData collection recipient minter (BitVec.ofNat 256 quantity)
  have hshort := Hex.length_parse hparsed
  obtain ⟨call, bytes, hcall, hparse, hdispatch⟩ :=
    Request.dispatch_of_build hencodes (r := .executeMint _ _ _) htext
      (Request.wellFormed_executeMint (Option.isSome_iff_exists.mpr ⟨_, hparsed⟩) (by omega))
  rw [Request.call, hparsed] at hcall
  obtain ⟨target, htarget, hcall⟩ := Option.bind_eq_some_iff.mp hcall
  have htarget : addressOfText seadropAddress = some target := htarget
  rw [addressOfText_seadropAddress] at htarget
  obtain rfl := Option.some_inj.mp htarget
  rw [Option.bind_some] at hcall
  obtain ⟨value, hvalue, rfl⟩ := Option.map_eq_some_iff.mp hcall
  refine ⟨collection, recipient, minter, bytes, _, value, hcollection, hrecipient, hminter, hparse,
    hdispatch, decode_mintPublicData _ _ _ _, ?_, ?_⟩
  · exact_mod_cast (wordOf_eq_some.mp hvalue).2.symm
  have hentry : entryFor m.world seadrop
      (mintPublicData collection recipient minter (BitVec.ofNat 256 quantity)) =
        m.world.allowlist seadrop mintPublicSelector := by
    rw [entryFor, mintPublicData, selectorOf_append]
  have hword : extractRecipient
      (mintPublicData collection recipient minter (BitVec.ofNat 256 quantity)) 68 = .ok minter :=
    extractRecipient_argument (show mintPublicArgs collection recipient minter _ =
      [addressWord collection, addressWord recipient] ++ addressWord minter :: _ from rfl) (show 2 < 2 ^ 64 by decide) _
  have hselector : 4 ≤
      (mintPublicData collection recipient minter (BitVec.ofNat 256 quantity)).length := by
    omega
  rw [mint_frame_iff, executeMint_isOk_iff (hm.accounted seadrop).fits, hentry, hoffset, hword,
    unlocked_iff hm, Except.ok.injEq]
  constructor
  · rintro ⟨hzero, hsender, hunlocked, -, hallowed, howner, hwithin, hfunded⟩
    exact ⟨howner, hzero, hsender, hunlocked, hallowed, hwithin, hfunded⟩
  · rintro ⟨howner, hzero, hsender, hunlocked, hallowed, hwithin, hfunded⟩
    exact ⟨hzero, hsender, hunlocked, hselector, hallowed, howner, hwithin, hfunded⟩

end

/-! ### A mint -/

namespace Sample

def wallet : String := "0x00000000000000000000000000000000000000a1"
def collection : String := "0x00000000000000000000000000000000000000c3"
def feeRecipient : String := "0x0000a26b00c1f0df003000390027140000faa719"

def publicMint : PublicMintInput := ⟨some "stage", some collection, 2, 4663, some wallet⟩
def publicStage : StageRow := ⟨.publicSale, none⟩
def publicReads : PublicReads := ⟨⟨3, 0, 10, 1, by decide⟩, some feeRecipient, ⟨0, 5, 100⟩⟩

/-- The owner appoints the operator and allows public mints, by their minter. -/
def publicSetup : List Label :=
  [.call (fromOwner, .setOperator operator),
   .call (fromOwner, .setAllowlist seadrop mintPublicSelector true 68 10)]

end Sample

/-- The owner's mint is made. -/
theorem selfServed_executed_owner : ∃ m, Reachable Sample.owner m ∧ ∃ data value m',
    step Sample.owner m (.call (Sample.fromOperator, .executeMint seadrop data value)) = some m' ∧
      m'.frames = .pending m.world (.mint seadrop data value) :: m.frames := by
  obtain ⟨m, hrun, hoperator, hentry, hframes, hspent, hbalance⟩ : ∃ m,
      Transition.run (step Sample.owner) Sample.start Sample.publicSetup = some m ∧
        m.world.operator = Sample.operator ∧
        m.world.allowlist seadrop mintPublicSelector = ⟨true, 68, 10⟩ ∧ m.frames = [] ∧
        (spentFor m.now m.world seadrop).toNat = 0 ∧ m.world.balance = Sample.start.world.balance :=
    ⟨_, rfl, rfl, rfl, rfl, rfl, rfl⟩
  have hm : Reachable Sample.owner m :=
    Sample.run_start (Transition.reach_of_run (Transition.runMeets_true Sample.start _) hrun)
  have hquantity : mintableQuantity 2 Sample.publicReads.drop Sample.publicReads.stats = 1 := by
    decide +kernel
  have hfrom : buildSelfServedPublicMint (encodeMintPublic abiEncodeFunctionData) Sample.publicMint
      (some Sample.publicStage) (.ok Sample.publicReads) =
        buildFromReads (encodeMintPublic abiEncodeFunctionData) Sample.publicMint Sample.collection
          Sample.publicReads := rfl
  have hbuilt := hfrom.trans <|
    buildFromReads_of_some rfl (show 5 < 100 by decide) hquantity le_rfl
  have hinner : (abiEncodeFunctionData "mintPublic" [.address Sample.collection,
      .address Sample.feeRecipient, .address Sample.wallet, .uint256 (1 : ℕ)]).isSome := by
    decide +kernel
  obtain ⟨text, htext⟩ : ∃ text, buildExecuteMintCalldata abiEncodeFunctionData seadropAddress
      (encodeMintPublic abiEncodeFunctionData Sample.collection Sample.feeRecipient Sample.wallet 1)
      3 = some text := by
    obtain ⟨inner, hencoded⟩ := Option.isSome_iff_exists.mp hinner
    obtain ⟨_, _, _, -, -, -, hparsed⟩ := parse_mintPublic encodesFunctionData hencoded
    refine Option.isSome_iff_exists.mp ?_
    rw [encodeMintPublic, hencoded, Option.getD_some, buildExecuteMintCalldata,
      abiEncodeFunctionData, Option.isSome_map]
    simp only [List.mapM_cons, List.mapM_nil, AbiArg.value, addressOfText_seadropAddress, hparsed]
    rfl
  have hwallet : addressOfText Sample.wallet = some Sample.owner := by decide
  obtain ⟨-, -, minter, bytes, data, value, -, -, hminter, -, -, -, hvalue, hiff⟩ :=
    selfServed_executed_iff hm encodesFunctionData hbuilt rfl rfl rfl hinner htext
      (congrArg Allowlist.recipientOffset hentry) Sample.fromOperator
  obtain rfl := Option.some_inj.mp (hwallet.symm.trans hminter)
  have hthree : value.toNat = 3 := hvalue
  refine ⟨m, hm, data, value, hiff.mpr ⟨rfl, rfl, hoperator.symm, ?_, ?_, ?_, ?_⟩⟩
  · rw [hframes]
    rfl
  · rw [hentry]
  · rw [hthree, hentry, hspent]
    decide
  · rw [hthree, hbalance]
    decide

end MintExecutor
