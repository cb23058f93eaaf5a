/-
Which logs are decoded as mints (`packages/providers/src/chain/rpc.ts`,
`packages/providers/src/chain/seadrop.ts`).

An event is told by its first topic, the hash of its signature.

* `NftMint` — a mint as ERC-721 and ERC-1155 have it;
* `mintedBy_eq_some` — a mint as the radar has it;
* `decodes_exactly_iff` — they agree but on three kinds of logs: a transfer without its token id
  as a topic, and the batches of ERC-1155, whose topic the radar has wrong;
* `erc20_decoded` — a transfer of a fungible token.
-/
import HoodMint.ChainRadar
import HoodMint.Lib.Keccak

namespace ChainRadar

open Keccak
open Text (lower)

/-! ### Signatures -/

def transferSignature : String := "Transfer(address,address,uint256)"

def transferSingleSignature : String := "TransferSingle(address,address,address,uint256,uint256)"

def transferBatchSignature : String :=
  "TransferBatch(address,address,address,uint256[],uint256[])"

theorem erc721TransferTopic_eq : erc721TransferTopic = digestHex transferSignature := by
  decide +kernel

theorem erc1155TransferSingleTopic_eq :
    erc1155TransferSingleTopic = digestHex transferSingleSignature := by
  decide +kernel

/-- The batch topic of the radar is the topic of no batch. -/
theorem erc1155TransferBatchTopic_ne :
    erc1155TransferBatchTopic ≠ digestHex transferBatchSignature := by
  decide +kernel

/-! ### Mints -/

/-- The log is of the event, from the zero address or SeaDrop to the recipient; the sender is the
topic at `i`, the recipient the next. -/
def Log.Carries (log : Log) (topic : String) (i : ℕ) (recipient : String) : Prop :=
  ∃ topic0 sender, log.topics[0]? = some topic0 ∧ lower topic0 = topic ∧
    log.topics[i]? = some sender ∧ log.topics[i + 1]? = some recipient ∧
      isMintTransfer (addressFromTopic sender) = true

/-- The log mints that many tokens to the recipient: an ERC-721 token, whose id is the fourth
topic, or what the data of an ERC-1155 transfer say. -/
inductive NftMint (abi : Abi) (log : Log) : ℕ → String → Prop
  | erc721 {recipient : String} (h : log.Carries (digestHex transferSignature) 1 recipient)
    (hid : log.topics.length = 4) : NftMint abi log 1 recipient
  | erc1155 {recipient : String} {id value : ℕ}
    (h : log.Carries (digestHex transferSingleSignature) 2 recipient)
    (hdata : abi.decodeSingle log.data = some (id, value)) :
    NftMint abi log (min value maxQuantity) recipient
  | erc1155Batch {recipient : String} {ids values : List ℕ}
    (h : log.Carries (digestHex transferBatchSignature) 2 recipient)
    (hdata : abi.decodeBatch log.data = some (ids, values)) :
    NftMint abi log (min values.sum maxQuantity) recipient

/-- The log has been mined. -/
def Log.Mined (log : Log) : Prop :=
  log.transactionHash.isSome = true ∧ log.blockNumber.isSome = true ∧ log.blockHash.isSome = true

/-- The event of a mint. -/
def Log.event (log : Log) (chainId : ℕ) (now : ℤ) (quantity : ℕ) (recipient txHash : String)
    (blockNumber : ℕ) (blockHash : String) : MintEventInsert :=
  { chainId, txHash, logIndex := log.logIndex.getD 0, blockNumber, blockHash
    contractAddress := log.address, recipient := addressFromTopic recipient, quantity
    finalized := false, observedAt := now }

/-- The log is decoded as the event of its mint, and as nothing when it is none. -/
def DecodesExactly (abi : Abi) (chainId : ℕ) (now : ℤ) (log : Log) : Prop :=
  ∀ event, decodeMintLog abi chainId now log = some event ↔
    ∃ quantity recipient txHash blockNumber blockHash, NftMint abi log quantity recipient ∧
      log.transactionHash = some txHash ∧ log.blockNumber = some blockNumber ∧
      log.blockHash = some blockHash ∧
        event = log.event chainId now quantity recipient txHash blockNumber blockHash

/-! ### Where they differ -/

namespace Log

variable (abi : Abi) (log : Log)

/-- A mint of fungible tokens: a transfer that does not have the token's id as a topic. -/
def Fungible : Prop :=
  ∃ recipient, log.Carries erc721TransferTopic 1 recipient ∧ log.topics.length ≠ 4

/-- A mint of a batch. -/
def Batch : Prop :=
  ∃ recipient, log.Carries (digestHex transferBatchSignature) 2 recipient ∧
    (abi.decodeBatch log.data).isSome = true

/-- An event with the topic that the radar takes for a batch's, and with the data of one. -/
def Mistaken : Prop :=
  ∃ recipient, log.Carries erc1155TransferBatchTopic 2 recipient ∧
    (abi.decodeBatch log.data).isSome = true

end Log

section

variable {abi : Abi} {chainId : ℕ} {now : ℤ} {log : Log} {quantity : ℕ} {recipient : String}

/-- A log is of one event. -/
theorem Log.Carries.topic_eq {topic topic' recipient' : String} {i i' : ℕ}
    (h : log.Carries topic i recipient) (h' : log.Carries topic' i' recipient') :
    topic = topic' := by
  obtain ⟨topic0, sender, hfirst, rfl, -⟩ := h
  obtain ⟨topic0', sender', hfirst', rfl, -⟩ := h'
  rw [Option.some_inj.mp (hfirst.symm.trans hfirst')]

/-- The shape all three branches have: sender, recipient, and a quantity read from the data. -/
theorem branch_eq_some {β : Type} {i : ℕ} (data : Option β) (quantityOf : β → ℕ) :
    (do
      let sender ← log.topics[i]?
      let recipient ← log.topics[i + 1]?
      if isMintTransfer (addressFromTopic sender) then
        data.bind fun x => some (quantityOf x, recipient)
      else none) = some (quantity, recipient) ↔
    (∃ sender, log.topics[i]? = some sender ∧ log.topics[i + 1]? = some recipient ∧
      isMintTransfer (addressFromTopic sender) = true) ∧
        ∃ x, data = some x ∧ quantity = quantityOf x := by
  constructor
  · intro h
    obtain ⟨sender, hsender, h⟩ := Option.bind_eq_some_iff.mp h
    obtain ⟨recipient', hrecipient, h⟩ := Option.bind_eq_some_iff.mp h
    split at h
    · next hmint =>
      obtain ⟨x, hx, h⟩ := Option.bind_eq_some_iff.mp h
      obtain ⟨rfl, rfl⟩ := Prod.mk.inj (Option.some_inj.mp h)
      exact ⟨⟨sender, hsender, hrecipient, hmint⟩, x, hx, rfl⟩
    · cases h
  · rintro ⟨⟨sender, hsender, hrecipient, hmint⟩, x, hx, rfl⟩
    refine Option.bind_eq_some_iff.mpr ⟨sender, hsender, ?_⟩
    refine Option.bind_eq_some_iff.mpr ⟨recipient, hrecipient, (if_pos hmint).trans ?_⟩
    exact Option.bind_eq_some_iff.mpr ⟨x, hx, rfl⟩

theorem carries_iff {topic0 topic : String} {i : ℕ} (h : log.topics.head? = some topic0) :
    log.Carries topic i recipient ↔ lower topic0 = topic ∧ ∃ sender, log.topics[i]? = some sender ∧
      log.topics[i + 1]? = some recipient ∧ isMintTransfer (addressFromTopic sender) = true := by
  rw [List.head?_eq_getElem?] at h
  constructor
  · rintro ⟨topic0', sender, hfirst, htopic, hsender⟩
    rw [Option.some_inj.mp (h.symm.trans hfirst)]
    exact ⟨htopic, sender, hsender⟩
  · rintro ⟨htopic, sender, hsender⟩
    exact ⟨topic0, sender, h, htopic, hsender⟩

/-- **What the radar takes for a mint.** -/
theorem mintedBy_eq_some : mintedBy abi log = some (quantity, recipient) ↔
    (log.Carries erc721TransferTopic 1 recipient ∧ quantity = 1) ∨
    (log.Carries erc1155TransferSingleTopic 2 recipient ∧
      ∃ id value, abi.decodeSingle log.data = some (id, value) ∧
        quantity = min value maxQuantity) ∨
    (log.Carries erc1155TransferBatchTopic 2 recipient ∧
      ∃ ids values, abi.decodeBatch log.data = some (ids, values) ∧
        quantity = min values.sum maxQuantity) := by
  cases hfirst : log.topics.head? with
  | none =>
    have hnone : ∀ topic i, ¬log.Carries topic i recipient := by
      rintro topic i ⟨topic0, sender, h, -⟩
      rw [← List.head?_eq_getElem?, hfirst] at h
      cases h
    rw [mintedBy, hfirst]
    exact iff_of_false (by simp) (by simp [hnone])
  | some topic0 =>
    simp only [carries_iff hfirst]
    rw [mintedBy, hfirst]
    show (if lower topic0 = erc721TransferTopic then _ else _) = _ ↔ _
    have hdistinct : erc721TransferTopic ≠ erc1155TransferSingleTopic ∧
        erc721TransferTopic ≠ erc1155TransferBatchTopic ∧
          erc1155TransferSingleTopic ≠ erc1155TransferBatchTopic := by decide
    by_cases h721 : lower topic0 = erc721TransferTopic
    · rw [if_pos h721]
      simp only [h721, hdistinct.1, hdistinct.2.1, false_and, or_false, true_and]
      refine (branch_eq_some (some ()) fun _ => 1).trans ?_
      exact and_congr_right fun _ => ⟨fun ⟨_, _, h⟩ => h, fun h => ⟨(), rfl, h⟩⟩
    rw [if_neg h721]
    by_cases hsingle : lower topic0 = erc1155TransferSingleTopic
    · rw [if_pos hsingle]
      simp only [hsingle, hdistinct.1.symm, hdistinct.2.2, false_and, or_false, false_or, true_and]
      refine (branch_eq_some (abi.decodeSingle log.data) fun x => min x.2 maxQuantity).trans ?_
      exact and_congr_right fun _ => Prod.exists
    rw [if_neg hsingle]
    by_cases hbatch : lower topic0 = erc1155TransferBatchTopic
    · rw [if_pos hbatch]
      simp only [hbatch, hdistinct.2.1.symm, hdistinct.2.2.symm, false_and, false_or, true_and]
      refine (branch_eq_some (abi.decodeBatch log.data) fun x => min x.2.sum maxQuantity).trans ?_
      exact and_congr_right fun _ => Prod.exists
    · rw [if_neg hbatch]
      simp [h721, hsingle, hbatch]

/-- What is decoded is the event of what the radar takes for a mint. -/
theorem decodeMintLog_eq_some {event : MintEventInsert} :
    decodeMintLog abi chainId now log = some event ↔
      ∃ quantity recipient txHash blockNumber blockHash,
        mintedBy abi log = some (quantity, recipient) ∧ log.transactionHash = some txHash ∧
          log.blockNumber = some blockNumber ∧ log.blockHash = some blockHash ∧
            event = log.event chainId now quantity recipient txHash blockNumber blockHash := by
  constructor
  · intro h
    obtain ⟨⟨quantity, recipient⟩, hminted, h⟩ := Option.bind_eq_some_iff.mp h
    obtain ⟨txHash, htx, h⟩ := Option.bind_eq_some_iff.mp h
    obtain ⟨blockNumber, hblock, h⟩ := Option.bind_eq_some_iff.mp h
    obtain ⟨blockHash, hhash, h⟩ := Option.bind_eq_some_iff.mp h
    exact ⟨quantity, recipient, txHash, blockNumber, blockHash, hminted, htx, hblock, hhash,
      (Option.some_inj.mp h).symm⟩
  · rintro ⟨quantity, recipient, txHash, blockNumber, blockHash, hminted, htx, hblock, hhash, rfl⟩
    rw [decodeMintLog, hminted, htx, hblock, hhash]
    rfl

/-- What the standards take for a mint, in one line. -/
theorem nftMint_iff : NftMint abi log quantity recipient ↔
    (log.Carries erc721TransferTopic 1 recipient ∧ log.topics.length = 4 ∧ quantity = 1) ∨
    (log.Carries erc1155TransferSingleTopic 2 recipient ∧
      ∃ id value, abi.decodeSingle log.data = some (id, value) ∧
        quantity = min value maxQuantity) ∨
    (log.Carries (digestHex transferBatchSignature) 2 recipient ∧
      ∃ ids values, abi.decodeBatch log.data = some (ids, values) ∧
        quantity = min values.sum maxQuantity) := by
  rw [erc721TransferTopic_eq, erc1155TransferSingleTopic_eq]
  constructor
  · intro h
    cases h with
    | erc721 h hid => exact Or.inl ⟨h, hid, rfl⟩
    | erc1155 h hdata => exact Or.inr (Or.inl ⟨h, _, _, hdata, rfl⟩)
    | erc1155Batch h hdata => exact Or.inr (Or.inr ⟨h, _, _, hdata, rfl⟩)
  · rintro (⟨h, hid, rfl⟩ | ⟨h, id, value, hdata, rfl⟩ | ⟨h, ids, values, hdata, rfl⟩)
    · exact .erc721 h hid
    · exact .erc1155 h hdata
    · exact .erc1155Batch h hdata

/-- On other logs they agree. -/
theorem mintedBy_eq_some_iff_nftMint (hfungible : ¬log.Fungible) (hbatch : ¬log.Batch abi)
    (hmistaken : ¬log.Mistaken abi) :
    mintedBy abi log = some (quantity, recipient) ↔ NftMint abi log quantity recipient := by
  rw [mintedBy_eq_some, nftMint_iff]
  have hid : log.Carries erc721TransferTopic 1 recipient → log.topics.length = 4 := by
    intro h
    by_contra hne
    exact hfungible ⟨recipient, h, hne⟩
  refine or_congr ?_ (or_congr_right ?_)
  · constructor
    · rintro ⟨h, hquantity⟩
      exact ⟨h, hid h, hquantity⟩
    · rintro ⟨h, -, hquantity⟩
      exact ⟨h, hquantity⟩
  · constructor
    · rintro ⟨h, ids, values, hdata, -⟩
      exact absurd ⟨recipient, h, by rw [hdata]; rfl⟩ hmistaken
    · rintro ⟨h, ids, values, hdata, -⟩
      exact absurd ⟨recipient, h, by rw [hdata]; rfl⟩ hbatch

/-- A mined log that the radar takes for a mint, and the standards do not, is not decoded
exactly; nor the other way round. -/
theorem not_decodesExactly (hmined : log.Mined)
    (h : ¬((∃ quantity recipient, mintedBy abi log = some (quantity, recipient)) ↔
      ∃ quantity recipient, NftMint abi log quantity recipient)) :
    ¬DecodesExactly abi chainId now log := by
  obtain ⟨txHash, htx⟩ := Option.isSome_iff_exists.mp hmined.1
  obtain ⟨blockNumber, hblock⟩ := Option.isSome_iff_exists.mp hmined.2.1
  obtain ⟨blockHash, hhash⟩ := Option.isSome_iff_exists.mp hmined.2.2
  refine fun hexact => h ⟨?_, ?_⟩
  · rintro ⟨quantity, recipient, hminted⟩
    obtain ⟨quantity', recipient', -, -, -, hmint, -⟩ := (hexact _).mp
      (decodeMintLog_eq_some.mpr ⟨_, _, _, _, _, hminted, htx, hblock, hhash, rfl⟩)
    exact ⟨quantity', recipient', hmint⟩
  · rintro ⟨quantity, recipient, hmint⟩
    obtain ⟨quantity', recipient', -, -, -, hminted, -⟩ := decodeMintLog_eq_some.mp
      ((hexact _).mpr ⟨_, _, _, _, _, hmint, htx, hblock, hhash, rfl⟩)
    exact ⟨quantity', recipient', hminted⟩

/-- The topics of the radar, and the one it lacks. -/
theorem topics_distinct : erc721TransferTopic ≠ erc1155TransferSingleTopic ∧
    erc721TransferTopic ≠ digestHex transferBatchSignature ∧
      erc1155TransferSingleTopic ≠ digestHex transferBatchSignature ∧
        erc1155TransferBatchTopic ≠ erc721TransferTopic ∧
          erc1155TransferBatchTopic ≠ erc1155TransferSingleTopic := by
  decide +kernel

/-- **A log is decoded exactly** unless it has been mined and is one of three kinds: a transfer of
fungible tokens, a batch, or an event with the topic taken for a batch's. -/
theorem decodes_exactly_iff : DecodesExactly abi chainId now log ↔
    (log.Mined → ¬log.Fungible ∧ ¬log.Batch abi ∧ ¬log.Mistaken abi) := by
  obtain ⟨hsingle, hbatch721, hbatch1155, hmistaken721, hmistaken1155⟩ := topics_distinct
  constructor
  · intro hexact hmined
    -- each kind is decoded and no mint, or a mint and not decoded
    refine ⟨?_, ?_, ?_⟩
    · rintro ⟨recipient, hcarries, hlength⟩
      refine not_decodesExactly hmined (fun hiff => ?_) hexact
      obtain ⟨quantity, recipient', hmint⟩ :=
        hiff.mp ⟨1, recipient, mintedBy_eq_some.mpr (Or.inl ⟨hcarries, rfl⟩)⟩
      rcases nftMint_iff.mp hmint with ⟨-, hid, -⟩ | ⟨h, -⟩ | ⟨h, -⟩
      · exact hlength hid
      · exact hsingle (hcarries.topic_eq h)
      · exact hbatch721 (hcarries.topic_eq h)
    · rintro ⟨recipient, hcarries, hdata⟩
      obtain ⟨⟨ids, values⟩, hdata⟩ := Option.isSome_iff_exists.mp hdata
      refine not_decodesExactly hmined (fun hiff => ?_) hexact
      obtain ⟨quantity, recipient', hminted⟩ := hiff.mpr ⟨_, recipient, .erc1155Batch hcarries hdata⟩
      rcases mintedBy_eq_some.mp hminted with ⟨h, -⟩ | ⟨h, -⟩ | ⟨h, -⟩
      · exact hbatch721 (h.topic_eq hcarries)
      · exact hbatch1155 (h.topic_eq hcarries)
      · exact erc1155TransferBatchTopic_ne (h.topic_eq hcarries)
    · rintro ⟨recipient, hcarries, hdata⟩
      obtain ⟨⟨ids, values⟩, hdata⟩ := Option.isSome_iff_exists.mp hdata
      refine not_decodesExactly hmined (fun hiff => ?_) hexact
      obtain ⟨quantity, recipient', hmint⟩ := hiff.mp ⟨_, recipient,
        mintedBy_eq_some.mpr (Or.inr (Or.inr ⟨hcarries, ids, values, hdata, rfl⟩))⟩
      rcases nftMint_iff.mp hmint with ⟨h, -⟩ | ⟨h, -⟩ | ⟨h, -⟩
      · exact hmistaken721 (hcarries.topic_eq h)
      · exact hmistaken1155 (hcarries.topic_eq h)
      · exact erc1155TransferBatchTopic_ne (hcarries.topic_eq h)
  · intro h event
    rw [decodeMintLog_eq_some]
    by_cases hmined : log.Mined
    · obtain ⟨hfungible, hbatch, hmistaken⟩ := h hmined
      simp only [mintedBy_eq_some_iff_nftMint hfungible hbatch hmistaken]
    · refine iff_of_false ?_ ?_
      · rintro ⟨-, -, txHash, blockNumber, blockHash, -, htx, hblock, hhash, -⟩
        exact hmined ⟨by rw [htx]; rfl, by rw [hblock]; rfl, by rw [hhash]; rfl⟩
      · rintro ⟨-, -, txHash, blockNumber, blockHash, -, htx, hblock, hhash, -⟩
        exact hmined ⟨by rw [htx]; rfl, by rw [hblock]; rfl, by rw [hhash]; rfl⟩

end

/-! ### A fungible token -/

namespace Sample

/-- A transfer from the zero address of five whole tokens of eighteen digits. -/
def erc20Mint : Log :=
  { address := "0xc0ffee"
    topics := [erc721TransferTopic,
      "0x0000000000000000000000000000000000000000000000000000000000000000",
      "0x000000000000000000000000000000000000000000000000000000000000beef"]
    data := "0x0000000000000000000000000000000000000000000000004563918244f40000"
    transactionHash := some "0x1", logIndex := some 0, blockNumber := some 1
    blockHash := some "0xb1" }

theorem fungible_erc20Mint : erc20Mint.Fungible := by
  refine ⟨"0x000000000000000000000000000000000000000000000000000000000000beef",
    ⟨erc721TransferTopic, "0x0000000000000000000000000000000000000000000000000000000000000000",
      rfl, ?_, rfl, rfl, ?_⟩, by decide⟩
  · decide
  · decide

/-- One word is too short for either payload. -/
def shortData : Abi :=
  { decodeSingle := fun _ => none, decodeBatch := fun _ => none }

end Sample

/-- **A fungible token becomes a mint event.** -/
theorem erc20_decoded : ¬DecodesExactly Sample.shortData 4663 0 Sample.erc20Mint := by
  obtain ⟨recipient, hcarries, hlength⟩ := Sample.fungible_erc20Mint
  refine not_decodesExactly ⟨rfl, rfl, rfl⟩ fun hiff => ?_
  obtain ⟨quantity, recipient', hmint⟩ :=
    hiff.mp ⟨1, recipient, mintedBy_eq_some.mpr (Or.inl ⟨hcarries, rfl⟩)⟩
  rcases nftMint_iff.mp hmint with ⟨-, hid, -⟩ | ⟨h, -⟩ | ⟨h, -⟩
  · exact hlength hid
  · exact topics_distinct.1 (hcarries.topic_eq h)
  · exact topics_distinct.2.1 (hcarries.topic_eq h)

end ChainRadar
