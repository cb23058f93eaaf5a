/-
Calldata for the executor, and what the contract makes of it
(`packages/providers/src/chain/mint-executor-artifact.ts`,
`contracts/mint-executor/src/MintExecutor.sol`).

The console and the worker have calls encoded; the contract, or rather the dispatcher the compiler
puts in front of it, decodes them.

* `Fn` — the functions that change the contract, their selectors and what they expect;
* `EncodesFunctionData` — what is asked of `encodeFunctionData`, which comes from outside;
* `buildSetOperatorCalldata`, `buildSetAllowlistCalldata`, … — the builders, from texts; `Request`,
  what one of them is asked for;
* `dispatch`, `built_roundTrip` — the contract makes of what was built the call that was asked for;
* `prepareSetOperatorCalldataAction`, `prepareSetAllowlistCalldataAction` — the console's, with what
  the forms have checked;
* `prepared_entry` — what a prepared text sets is what the form said, and stays set.
-/
import HoodMint.Lib.Abi
import HoodMint.Lib.Hex
import HoodMint.Lib.Keccak
import HoodMint.MintExecutorCustody
import HoodMint.SignerActions

namespace MintExecutor

open Abi (Arg Shape)

/-! ### The functions -/

/-- The functions of the contract that change it. -/
inductive Fn | setOperator | revokeOperator | setAllowlist | withdraw | executeMint
deriving DecidableEq

namespace Fn

def name : Fn → String
  | setOperator => "setOperator"
  | revokeOperator => "revokeOperator"
  | setAllowlist => "setAllowlist"
  | withdraw => "withdraw"
  | executeMint => "executeMint"

/-- The types in the ABI of the contract. -/
def types : Fn → List String
  | setOperator => ["address"]
  | revokeOperator => []
  | setAllowlist => ["address", "bytes4", "bool", "uint256", "uint256"]
  | withdraw => ["address", "uint256"]
  | executeMint => ["address", "bytes", "uint256"]

def selector : Fn → Bytes4
  | setOperator => 0xb3ab15fb
  | revokeOperator => 0xb674759c
  | setAllowlist => 0xdd2e1988
  | withdraw => 0xf3fef3a3
  | executeMint => 0xf7f35c3e

def shapes : Fn → List Shape
  | setOperator => [.word]
  | revokeOperator => []
  | setAllowlist => [.word, .word, .word, .word, .word]
  | withdraw => [.word, .word]
  | executeMint => [.word, .bytes, .word]

def all : List Fn := [setOperator, revokeOperator, setAllowlist, withdraw, executeMint]

/-- The function of a selector. -/
def ofSelector (s : Bytes4) : Option Fn := all.find? fun f => f.selector = s

theorem ofSelector_selector (f : Fn) : ofSelector f.selector = some f := by
  cases f <;> rfl

end Fn

/-- The first four bytes of the hash of a signature. -/
def selectorFor (signature : String) : Bytes :=
  ((Keccak.keccak256 (signature.toList.map Char.toNat)).take 4).map (BitVec.ofNat 8)

def signatureOf (functionName : String) (types : List String) : String :=
  functionName ++ "(" ++ String.intercalate "," types ++ ")"

theorem selectorFor_signatureOf (f : Fn) :
    selectorFor (signatureOf f.name f.types) = Abi.digits 4 f.selector.toNat := by
  cases f <;> decide +kernel

/-! ### Words -/

def addressWord (a : Address) : Arg := .word (a.setWidth 256)

/-- A selector stands on the left of its word. -/
def selectorWord (s : Bytes4) : Arg := .word (BitVec.ofNat 256 (s.toNat * 2 ^ 224))

def boolWord (b : Bool) : Arg := .word (if b then 1 else 0)

/-- The dispatcher refuses an address with something in front of it. -/
def readAddress (word : UInt256) : Option Address :=
  if word.toNat < 2 ^ 160 then some (word.setWidth 160) else none

def readSelector (word : UInt256) : Option Bytes4 :=
  if word.toNat % 2 ^ 224 = 0 then some (BitVec.ofNat 32 (word.toNat / 2 ^ 224)) else none

def readBool (word : UInt256) : Option Bool :=
  if word = 0 then some false else if word = 1 then some true else none

theorem readAddress_eq (a : Address) : readAddress (a.setWidth 256) = some a := by
  have hlt := a.isLt
  have hword : (a.setWidth 256).toNat = a.toNat := by
    rw [BitVec.toNat_setWidth, Nat.mod_eq_of_lt (by omega)]
  rw [readAddress, if_pos (by omega)]
  refine congrArg some (BitVec.eq_of_toNat_eq ?_)
  rw [BitVec.toNat_setWidth, hword, Nat.mod_eq_of_lt hlt]

theorem readSelector_eq (s : Bytes4) :
    readSelector (BitVec.ofNat 256 (s.toNat * 2 ^ 224)) = some s := by
  have hlt := s.isLt
  have hword : (BitVec.ofNat 256 (s.toNat * 2 ^ 224)).toNat = s.toNat * 2 ^ 224 := by
    rw [BitVec.toNat_ofNat, Nat.mod_eq_of_lt (by omega)]
  rw [readSelector, hword, if_pos (Nat.mul_mod_left _ _), Nat.mul_div_cancel _ (by decide),
    BitVec.ofNat_toNat, BitVec.setWidth_eq]

theorem readBool_eq (b : Bool) : readBool (if b then 1 else 0) = some b := by
  cases b <;> rfl

/-! ### Calls as bytes -/

/-- A selector and arguments. -/
def functionData (f : Fn) (args : List Arg) : Bytes :=
  Abi.digits 4 f.selector.toNat ++ Abi.encode args

/-- The call of a function on decoded arguments. -/
def Fn.call : Fn → List Arg → Option Call
  | .setOperator, [.word a] => (readAddress a).map .setOperator
  | .revokeOperator, [] => some .revokeOperator
  | .setAllowlist, [.word target, .word selector, .word allowed, .word offset, .word cap] =>
    (readAddress target).bind fun target => (readSelector selector).bind fun selector =>
      (readBool allowed).map fun allowed => .setAllowlist target selector allowed offset cap
  | .withdraw, [.word dest, .word amount] => (readAddress dest).map (.withdraw · amount)
  | .executeMint, [.word target, .bytes data, .word value] =>
    (readAddress target).map (.executeMint · data value)
  | _, _ => none

/-- What the contract makes of calldata; nothing of what reverts, or only reads. -/
def dispatch (data : Bytes) : Option Call :=
  if data = [] then some .receive
  else if data.length < 4 then none
  else (Fn.ofSelector (selectorOf data)).bind fun f =>
    (Abi.decode f.shapes (data.drop 4)).bind f.call

theorem selectorOf_append (s : Bytes4) (rest : Bytes) :
    selectorOf (Abi.digits 4 s.toNat ++ rest) = s := by
  have hlt := s.isLt
  have hvalue : bigEndian (Abi.digits 4 s.toNat) = s.toNat := Abi.value_digits (by omega)
  rw [selectorOf, List.take_left' (Abi.length_digits 4 _), hvalue, BitVec.ofNat_toNat,
    BitVec.setWidth_eq]

theorem dispatch_functionData {f : Fn} {args : List Arg} (hshapes : args.map Arg.shape = f.shapes)
    (hfits : (Abi.encode args).length < 256 ^ 32) :
    dispatch (functionData f args) = f.call args := by
  have hdecode := Abi.decode_encode args [] hfits
  rw [List.append_nil] at hdecode
  have hlength : 4 ≤ (functionData f args).length := by
    rw [functionData, List.length_append, Abi.length_digits]
    omega
  rw [dispatch, if_neg (List.ne_nil_of_length_pos (by omega)), if_neg (by omega), functionData,
    selectorOf_append, Fn.ofSelector_selector, Option.bind_some,
    List.drop_left' (Abi.length_digits 4 _), ← hshapes, hdecode, Option.bind_some]

/-! ### `encodeFunctionData` -/

/-- A byte string of a length, in hexadecimal. -/
def bytesOfText (length : ℕ) (text : String) : Option Bytes :=
  (Hex.parse text).filter fun bytes => bytes.length = length

def addressOfText (text : String) : Option Address :=
  (bytesOfText 20 text).map fun bytes => BitVec.ofNat 160 (bigEndian bytes)

def selectorOfText (text : String) : Option Bytes4 :=
  (bytesOfText 4 text).map fun bytes => BitVec.ofNat 32 (bigEndian bytes)

/-- A number that a word holds. -/
def wordOf (n : ℤ) : Option UInt256 :=
  if 0 ≤ n ∧ n < 2 ^ 256 then some (BitVec.ofNat 256 n.toNat) else none

/-- An argument, with its type in the ABI. -/
inductive AbiArg
  | address (text : String)
  | bytes4 (text : String)
  | bool (b : Bool)
  | uint256 (n : ℤ)
  | bytes (text : String)
deriving DecidableEq

namespace AbiArg

def type : AbiArg → String
  | address _ => "address"
  | bytes4 _ => "bytes4"
  | bool _ => "bool"
  | uint256 _ => "uint256"
  | bytes _ => "bytes"

/-- What an argument says, if it says something of its type. -/
def value : AbiArg → Option Arg
  | address text => (addressOfText text).map addressWord
  | bytes4 text => (selectorOfText text).map selectorWord
  | bool b => some (boolWord b)
  | uint256 n => (wordOf n).map Arg.word
  | bytes text => (Hex.parse text).map Arg.bytes

/-- Addresses and numbers are checked when they are encoded, of byte strings only the length. -/
def IsHex : AbiArg → Prop
  | bytes4 text => (Hex.parse text).isSome
  | bytes text => (Hex.parse text).isSome
  | _ => True

end AbiArg

/-- What is documented of `encodeFunctionData`: it refuses arguments that are not of their types, and
what it returns is the selector of the function and the arguments in the contract ABI.  Nothing is
asked of it where a byte string is not hexadecimal, and nothing about what it refuses besides, such
as an address in mixed case with another checksum. -/
def EncodesFunctionData (encodeFunctionData : String → List AbiArg → Option String) : Prop :=
  ∀ functionName args text, encodeFunctionData functionName args = some text →
    (∀ arg ∈ args, arg.IsHex) → ∃ values, args.mapM AbiArg.value = some values ∧
      Hex.parse text = some
        (selectorFor (signatureOf functionName (args.map AbiArg.type)) ++ Abi.encode values)

/-- The contract ABI, where every argument is of its type. -/
def abiEncodeFunctionData (functionName : String) (args : List AbiArg) : Option String :=
  (args.mapM AbiArg.value).map fun values => Hex.text <|
    selectorFor (signatureOf functionName (args.map AbiArg.type)) ++ Abi.encode values

theorem encodesFunctionData : EncodesFunctionData abiEncodeFunctionData := by
  intro functionName args text h _
  obtain ⟨values, hvalues, rfl⟩ := Option.map_eq_some_iff.mp h
  exact ⟨values, hvalues, Hex.parse_text _⟩

/-! ### The builders -/

section

variable (encodeFunctionData : String → List AbiArg → Option String)

/-- `buildSetOperatorCalldata`; nothing where it throws. -/
def buildSetOperatorCalldata (operatorAddress : String) : Option String :=
  encodeFunctionData "setOperator" [.address operatorAddress]

/-- `buildRevokeOperatorCalldata`. -/
def buildRevokeOperatorCalldata : Option String := encodeFunctionData "revokeOperator" []

/-- `buildSetAllowlistCalldata`. -/
def buildSetAllowlistCalldata (target selector : String) (allowed : Bool)
    (recipientOffset valueCapWei : ℤ) : Option String :=
  encodeFunctionData "setAllowlist"
    [.address target, .bytes4 selector, .bool allowed, .uint256 recipientOffset,
      .uint256 valueCapWei]

/-- `buildWithdrawCalldata`. -/
def buildWithdrawCalldata (dest : String) (amountWei : ℤ) : Option String :=
  encodeFunctionData "withdraw" [.address dest, .uint256 amountWei]

/-- `buildExecuteMintCalldata`, and the calldata of `signExecutorTransaction`. -/
def buildExecuteMintCalldata (target data : String) (valueWei : ℕ) : Option String :=
  encodeFunctionData "executeMint" [.address target, .bytes data, .uint256 valueWei]

/-- What a builder is asked for. -/
inductive Request
  | setOperator (operatorAddress : String)
  | revokeOperator
  | setAllowlist (target selector : String) (allowed : Bool) (recipientOffset valueCapWei : ℤ)
  | withdraw (dest : String) (amountWei : ℤ)
  | executeMint (target data : String) (valueWei : ℕ)

namespace Request

def build : Request → Option String
  | setOperator operatorAddress => buildSetOperatorCalldata encodeFunctionData operatorAddress
  | revokeOperator => buildRevokeOperatorCalldata encodeFunctionData
  | setAllowlist target selector allowed recipientOffset valueCapWei =>
    buildSetAllowlistCalldata encodeFunctionData target selector allowed recipientOffset valueCapWei
  | withdraw dest amountWei => buildWithdrawCalldata encodeFunctionData dest amountWei
  | executeMint target data valueWei =>
    buildExecuteMintCalldata encodeFunctionData target data valueWei

def fn : Request → Fn
  | setOperator _ => .setOperator
  | revokeOperator => .revokeOperator
  | setAllowlist _ _ _ _ _ => .setAllowlist
  | withdraw _ _ => .withdraw
  | executeMint _ _ _ => .executeMint

def args : Request → List AbiArg
  | setOperator operatorAddress => [.address operatorAddress]
  | revokeOperator => []
  | setAllowlist target selector allowed recipientOffset valueCapWei =>
    [.address target, .bytes4 selector, .bool allowed, .uint256 recipientOffset,
      .uint256 valueCapWei]
  | withdraw dest amountWei => [.address dest, .uint256 amountWei]
  | executeMint target data valueWei => [.address target, .bytes data, .uint256 valueWei]

/-- The call that is meant. -/
def call : Request → Option Call
  | setOperator operatorAddress => (addressOfText operatorAddress).map .setOperator
  | revokeOperator => some .revokeOperator
  | setAllowlist target selector allowed recipientOffset valueCapWei =>
    (addressOfText target).bind fun target => (selectorOfText selector).bind fun selector =>
      (wordOf recipientOffset).bind fun offset => (wordOf valueCapWei).map fun cap =>
        .setAllowlist target selector allowed offset cap
  | withdraw dest amountWei =>
    (addressOfText dest).bind fun dest => (wordOf amountWei).map (.withdraw dest)
  | executeMint target data valueWei =>
    (addressOfText target).bind fun target => (Hex.parse data).bind fun data =>
      (wordOf valueWei).map (.executeMint target data)

/-- Byte strings are hexadecimal, and no longer than calldata can be. -/
structure WellFormed (r : Request) : Prop where
  hex : ∀ arg ∈ r.args, arg.IsHex
  short : ∀ text, .bytes text ∈ r.args → text.length < 2 ^ 64

theorem wellFormed_setOperator {operatorAddress : String} :
    (setOperator operatorAddress).WellFormed where
  hex := by simp [args, AbiArg.IsHex]
  short := by simp [args]

theorem wellFormed_setAllowlist {target selector : String} {allowed : Bool}
    {recipientOffset valueCapWei : ℤ} (h : (Hex.parse selector).isSome) :
    (setAllowlist target selector allowed recipientOffset valueCapWei).WellFormed where
  hex := by simp [args, AbiArg.IsHex, h]
  short := by simp [args]

theorem wellFormed_executeMint {target data : String} {valueWei : ℕ}
    (h : (Hex.parse data).isSome) (hlength : data.length < 2 ^ 64) :
    (executeMint target data valueWei).WellFormed where
  hex := by simp [args, AbiArg.IsHex, h]
  short := by simpa [args] using hlength

theorem build_eq (r : Request) :
    r.build encodeFunctionData = encodeFunctionData r.fn.name r.args := by
  cases r <;> rfl

theorem types_args (r : Request) : r.args.map AbiArg.type = r.fn.types := by
  cases r <;> rfl

end Request

end

/-! ### What the contract makes of what was built -/

namespace Request

variable {r : Request} {values : List Arg}

/-- The contract decodes the arguments as the call that is meant. -/
theorem call_of_values (h : r.args.mapM AbiArg.value = some values) :
    values.map Arg.shape = r.fn.shapes ∧
      (r.WellFormed → (Abi.tails values).length ≤ 2 ^ 64 + 64) ∧
        ∃ call, r.call = some call ∧ r.fn.call values = some call := by
  cases r with
  | setOperator operatorAddress =>
    simp only [args, List.mapM_cons, List.mapM_nil, AbiArg.value, bind, Option.bind_eq_some_iff,
      Option.map_eq_some_iff, pure, Option.some.injEq] at h
    obtain ⟨_, ⟨operator, hoperator, rfl⟩, _, rfl, rfl⟩ := h
    refine ⟨rfl, fun _ => Nat.zero_le _, .setOperator operator, by rw [call, hoperator, Option.map_some], ?_⟩
    show (readAddress _).map Call.setOperator = _
    rw [readAddress_eq, Option.map_some]
  | revokeOperator =>
    obtain rfl : [] = values := Option.some_inj.mp h
    exact ⟨rfl, fun _ => Nat.zero_le _, _, rfl, rfl⟩
  | setAllowlist target selector allowed recipientOffset valueCapWei =>
    simp only [args, List.mapM_cons, List.mapM_nil, AbiArg.value, bind, Option.bind_eq_some_iff,
      Option.map_eq_some_iff, pure, Option.some.injEq] at h
    obtain ⟨_, ⟨t, ht, rfl⟩, _, ⟨_, ⟨s, hs, rfl⟩, _, ⟨_, rfl, _, ⟨_, ⟨o, ho, rfl⟩, _,
      ⟨_, ⟨c, hc, rfl⟩, _, rfl, rfl⟩, rfl⟩, rfl⟩, rfl⟩, rfl⟩ := h
    refine ⟨rfl, fun _ => Nat.zero_le _, .setAllowlist t s allowed o c, ?_, ?_⟩
    · rw [call, ht, hs, ho, hc]
      rfl
    · show ((readAddress _).bind fun target => (readSelector _).bind fun selector =>
        (readBool _).map fun allowed => Call.setAllowlist target selector allowed o c) = _
      rw [readAddress_eq, readSelector_eq, readBool_eq]
      rfl
  | withdraw dest amountWei =>
    simp only [args, List.mapM_cons, List.mapM_nil, AbiArg.value, bind, Option.bind_eq_some_iff,
      Option.map_eq_some_iff, pure, Option.some.injEq] at h
    obtain ⟨_, ⟨d, hd, rfl⟩, _, ⟨_, ⟨n, hn, rfl⟩, _, rfl, rfl⟩, rfl⟩ := h
    refine ⟨rfl, fun _ => Nat.zero_le _, .withdraw d n, by rw [call, hd, hn]; rfl, ?_⟩
    show (readAddress _).map (Call.withdraw · n) = _
    rw [readAddress_eq, Option.map_some]
  | executeMint target data valueWei =>
    simp only [args, List.mapM_cons, List.mapM_nil, AbiArg.value, bind, Option.bind_eq_some_iff,
      Option.map_eq_some_iff, pure, Option.some.injEq] at h
    obtain ⟨_, ⟨t, ht, rfl⟩, _, ⟨_, ⟨d, hd, rfl⟩, _, ⟨_, ⟨n, hn, rfl⟩, _, rfl, rfl⟩, rfl⟩,
      rfl⟩ := h
    refine ⟨rfl, fun hr => ?_, .executeMint t d n, by rw [call, ht, hd, hn]; rfl, ?_⟩
    · have hshort := hr.short data (List.mem_cons_of_mem _ List.mem_cons_self)
      have hlength := Hex.length_parse hd
      have htail := Abi.length_tail_bytes_le d
      show ([] ++ ((Arg.bytes d).tail ++ [])).length ≤ _
      rw [List.nil_append, List.append_nil]
      omega
    · show (readAddress _).map (Call.executeMint · d n) = _
      rw [readAddress_eq, Option.map_some]

/-- What was built reads as the call that is meant. -/
theorem dispatch_of_build {encodeFunctionData : String → List AbiArg → Option String}
    (hencodes : EncodesFunctionData encodeFunctionData) {text : String}
    (hbuilt : r.build encodeFunctionData = some text) (hr : r.WellFormed) :
    ∃ call bytes, r.call = some call ∧ Hex.parse text = some bytes ∧
      dispatch bytes = some call := by
  rw [build_eq] at hbuilt
  obtain ⟨values, hvalues, hparse⟩ := hencodes _ _ _ hbuilt hr.hex
  obtain ⟨hshapes, htails, call, hmeant, hcall⟩ := call_of_values hvalues
  rw [types_args, selectorFor_signatureOf] at hparse
  refine ⟨call, _, hmeant, hparse, (dispatch_functionData hshapes ?_).trans hcall⟩
  have hsmall := htails hr
  have hlength : values.length = r.fn.shapes.length := by rw [← hshapes, List.length_map]
  have hfew : r.fn.shapes.length ≤ 5 := by cases r.fn <;> decide
  rw [Abi.length_encode]
  omega

end Request

/-- **Round trip.**  The contract makes of what a builder returns the call that was asked for, and no
request for another call is answered with the same text. -/
theorem built_roundTrip {encodeFunctionData : String → List AbiArg → Option String}
    (hencodes : EncodesFunctionData encodeFunctionData) {r : Request} {text : String}
    (hbuilt : r.build encodeFunctionData = some text) (hr : r.WellFormed) :
    ∃ call bytes, r.call = some call ∧ Hex.parse text = some bytes ∧ dispatch bytes = some call ∧
      ∀ r' : Request, r'.WellFormed → r'.build encodeFunctionData = some text →
        r'.call = some call := by
  obtain ⟨call, bytes, hmeant, hparse, hdispatch⟩ := Request.dispatch_of_build hencodes hbuilt hr
  refine ⟨call, bytes, hmeant, hparse, hdispatch, fun r' hr' hbuilt' => ?_⟩
  obtain ⟨call', bytes', hmeant', hparse', hdispatch'⟩ :=
    Request.dispatch_of_build hencodes hbuilt' hr'
  obtain rfl := Option.some_inj.mp (hparse.symm.trans hparse')
  rw [hmeant', ← hdispatch', hdispatch]

/-- A mint is asked for, and made. -/
theorem built_roundTrip_executeMint : ∃ text bytes,
    buildExecuteMintCalldata abiEncodeFunctionData "0x00000000000000000000000000000000000000c3"
        "0x010203" 5 = some text ∧
      Hex.parse text = some bytes ∧ dispatch bytes = some (.executeMint 0xC3 [1, 2, 3] 5) := by
  obtain ⟨text, htext⟩ : ∃ text, (Request.executeMint "0x00000000000000000000000000000000000000c3"
      "0x010203" 5).build abiEncodeFunctionData = some text :=
    Option.isSome_iff_exists.mp (by decide +kernel)
  have htarget : addressOfText "0x00000000000000000000000000000000000000c3" = some 0xC3 := by
    decide
  have hdata : Hex.parse "0x010203" = some [1, 2, 3] := by decide
  obtain ⟨call, bytes, hcall, hparse, hdispatch, -⟩ := built_roundTrip encodesFunctionData htext
    (Request.wellFormed_executeMint (by decide) (by decide))
  rw [Request.call, htarget, hdata] at hcall
  obtain rfl : Call.executeMint 0xC3 [1, 2, 3] 5 = call := Option.some_inj.mp hcall
  exact ⟨text, bytes, htext, hparse, hdispatch⟩

/-! ### The console's actions -/

/-- `ActionState & { data?: string }`. -/
structure Prepared where
  ok : Bool
  message : String
  data : Option String := none
deriving DecidableEq

section

variable (encodeFunctionData : String → List AbiArg → Option String)

/-- `prepareSetOperatorCalldataAction`; nothing where it throws. -/
def prepareSetOperatorCalldataAction (authorised : Bool) (operatorAddress : String) :
    Option Prepared :=
  let address := Text.lower (Text.trim operatorAddress)
  if authorised = false then some { ok := false, message := "Insufficient role." }
  else if SignerCustody.isEvmAddress address = false then
    some { ok := false, message := "Invalid operator address." }
  else (buildSetOperatorCalldata encodeFunctionData address).map fun data =>
    { ok := true, message := "", data := some data }

/-- `/^0x[0-9a-f]{8}$/`. -/
def isSelector (text : String) : Bool :=
  match text.toList with
  | '0' :: 'x' :: digits =>
    digits.length = 8 ∧ digits.all fun c => c.isDigit ∨ ('a' ≤ c ∧ c ≤ 'f')
  | _ => false

/-- The form; a number that is no integer is nothing. -/
structure AllowlistForm where
  target : String
  selector : String
  recipientOffset : Option ℤ
  valueCapWei : String

/-- `prepareSetAllowlistCalldataAction`; nothing where it throws. -/
def prepareSetAllowlistCalldataAction (authorised : Bool) (input : AllowlistForm) :
    Option Prepared :=
  let target := Text.lower (Text.trim input.target)
  let selector := Text.lower (Text.trim input.selector)
  if authorised = false then some { ok := false, message := "Insufficient role." }
  else if SignerCustody.isEvmAddress target = false then
    some { ok := false, message := "Invalid target contract address." }
  else if isSelector selector = false then
    some { ok := false, message := "Invalid 4-byte function selector." }
  else match input.recipientOffset with
    | none => some
      { ok := false
        message := "Recipient offset must be an integer ≥ 4 (past the selector)." }
    | some offset =>
      if offset < 4 then some
        { ok := false
          message := "Recipient offset must be an integer ≥ 4 (past the selector)." }
      else match SignerCustody.bigInt input.valueCapWei with
        | none => some { ok := false, message := "Invalid value cap." }
        | some cap =>
          (buildSetAllowlistCalldata encodeFunctionData target selector true offset cap).map
            fun data => { ok := true, message := "", data := some data }

end

/-! ### What a prepared text sets -/

theorem wordOf_eq_some {n : ℤ} {word : UInt256} :
    wordOf n = some word ↔ 0 ≤ n ∧ n = (word.toNat : ℤ) := by
  have hlt := word.isLt
  rw [wordOf]
  split
  · next h =>
    rw [Option.some_inj]
    constructor
    · rintro rfl
      refine ⟨h.1, ?_⟩
      rw [BitVec.toNat_ofNat, Nat.mod_eq_of_lt (by omega)]
      omega
    · rintro ⟨-, hn⟩
      rw [hn, Int.toNat_natCast, BitVec.ofNat_toNat, BitVec.setWidth_eq]
  · next h =>
    refine ⟨nofun, fun hn => absurd ⟨hn.1, ?_⟩ h⟩
    rw [hn.2]
    exact_mod_cast hlt

/-- A selector of the form is one. -/
theorem parse_isSome_of_isSelector {text : String} (h : isSelector text = true) :
    (Hex.parse text).isSome := by
  unfold isSelector at h
  split at h
  · next digits htext =>
    obtain ⟨hlength, hdigits⟩ := of_decide_eq_true h
    rw [Hex.parse, htext]
    refine Hex.bytes_isSome (fun c hc => ?_) (hlength ▸ ⟨4, rfl⟩)
    rcases of_decide_eq_true (List.all_eq_true.mp hdigits c hc) with hdigit | hletter
    · rw [Hex.nibble, if_pos hdigit]
      rfl
    · by_cases hdigit : c.isDigit = true
      · rw [Hex.nibble, if_pos hdigit]
        rfl
      · rw [Hex.nibble, if_neg hdigit, if_pos hletter]
        rfl
  · cases h

section

variable {encodeFunctionData : String → List AbiArg → Option String} {authorised : Bool}
  {state : Prepared} {text : String}

/-- Data for an operator are given to the authorised, and appoint that operator. -/
theorem prepared_operator (hencodes : EncodesFunctionData encodeFunctionData)
    {operatorAddress : String}
    (h : prepareSetOperatorCalldataAction encodeFunctionData authorised operatorAddress =
      some state) (hdata : state.data = some text) :
    authorised = true ∧ ∃ operator bytes,
      addressOfText (Text.lower (Text.trim operatorAddress)) = some operator ∧
        Hex.parse text = some bytes ∧ dispatch bytes = some (.setOperator operator) := by
  simp only [prepareSetOperatorCalldataAction] at h
  split at h
  · obtain rfl := Option.some_inj.mp h
    exact absurd hdata nofun
  · next hauth =>
    split at h
    · obtain rfl := Option.some_inj.mp h
      exact absurd hdata nofun
    · obtain ⟨data, hbuilt, rfl⟩ := Option.map_eq_some_iff.mp h
      obtain rfl := Option.some_inj.mp hdata
      obtain ⟨call, bytes, hcall, hparse, hdispatch⟩ :=
        Request.dispatch_of_build hencodes (r := .setOperator _) hbuilt
          Request.wellFormed_setOperator
      rw [Request.call] at hcall
      obtain ⟨operator, hoperator, rfl⟩ := Option.map_eq_some_iff.mp hcall
      exact ⟨by simpa using hauth, operator, bytes, hoperator, hparse, hdispatch⟩

/-- A form that gives data has passed its checks. -/
theorem prepareSetAllowlistCalldataAction_eq_some {input : AllowlistForm}
    (h : prepareSetAllowlistCalldataAction encodeFunctionData authorised input = some state)
    (hdata : state.data = some text) :
    authorised = true ∧ isSelector (Text.lower (Text.trim input.selector)) = true ∧
      ∃ offset cap, input.recipientOffset = some offset ∧ 4 ≤ offset ∧
        SignerCustody.bigInt input.valueCapWei = some cap ∧
          buildSetAllowlistCalldata encodeFunctionData (Text.lower (Text.trim input.target))
            (Text.lower (Text.trim input.selector)) true offset cap = some text := by
  have hrefused : ∀ {message : String},
      some ({ ok := false, message := message } : Prepared) ≠ some state := by
    rintro message heq
    obtain rfl := Option.some_inj.mp heq
    exact absurd hdata nofun
  simp only [prepareSetAllowlistCalldataAction] at h
  split at h
  · exact absurd h hrefused
  · next hauth =>
    split at h
    · exact absurd h hrefused
    · split at h
      · exact absurd h hrefused
      · next hselector =>
        split at h
        · exact absurd h hrefused
        · next offset hoffset =>
          split at h
          · exact absurd h hrefused
          · next hlate =>
            split at h
            · exact absurd h hrefused
            · next cap hcap =>
              obtain ⟨data, hbuilt, rfl⟩ := Option.map_eq_some_iff.mp h
              obtain rfl := Option.some_inj.mp hdata
              exact ⟨by simpa using hauth, by simpa using hselector, offset, cap, hoffset,
                by omega, hcap, hbuilt⟩

end

/-! ### The entry, from there on -/

/-- `m'` is `m` with an entry put in its allowlist. -/
structure Puts (target : Address) (selector : Bytes4) (entry : Allowlist) (m m' : Machine) :
    Prop where
  allowlist : m'.world.allowlist = Function.update m.world.allowlist target
    (Function.update (m.world.allowlist target) selector entry)
  operator : m'.world.operator = m.world.operator
  balance : m'.world.balance = m.world.balance
  windowStart : m'.world.windowStart = m.world.windowStart
  windowSpentWei : m'.world.windowSpentWei = m.world.windowSpentWei
  frames : m'.frames = m.frames
  now : m'.now = m.now

theorem Puts.entry {target : Address} {selector : Bytes4} {entry : Allowlist} {m m' : Machine}
    (h : Puts target selector entry m m') : m'.world.allowlist target selector = entry := by
  rw [h.allowlist, Function.update_self, Function.update_self]

section

variable {owner target : Address} {selector : Bytes4} {m m' : Machine} {msg : Msg}

/-- An entry is put by its owner, for a target that is an address, and by nobody else. -/
theorem setAllowlist_step (entry : Allowlist) (h : step owner m (.call (msg, .setAllowlist target
      selector entry.allowed entry.recipientOffset entry.valueCapWei)) = some m') :
    (msg.sender = owner ∧ msg.value = 0 ∧ target ≠ 0) ∧ Puts target selector entry m m' ∨
      ¬(msg.sender = owner ∧ msg.value = 0 ∧ target ≠ 0) ∧ m' = m := by
  have hsettled : msg.sender = owner ∧ msg.value = 0 ∧ target ≠ 0 ↔ ∃ w,
      (executor owner).handle m.now (msg, .setAllowlist target selector entry.allowed
        entry.recipientOffset entry.valueCapWei) m.world = .settled w := by
    simp only [executor, settle_eq_settled, nonPayable_eq_ok, setAllowlist, onlyOwner, bind,
      bind_eq_ok, revertIf_eq_ok, exists_const, not_not, pure, Except.pure, Except.ok.injEq,
      exists_and_left, exists_eq', and_true]
    tauto
  rcases Rollback.Machine.step_call_cases h with ⟨e, hc, rfl⟩ | ⟨w, hc, rfl⟩ | ⟨w, p, hc, rfl⟩
  · refine Or.inr ⟨fun hall => ?_, rfl⟩
    obtain ⟨w, hw⟩ := hsettled.mp hall
    cases hc.symm.trans hw
  · refine Or.inl ⟨hsettled.mpr ⟨w, hc⟩, ?_⟩
    cases settles_of_handle hc with
    | setAllowlist sender nonzero => exact ⟨rfl, rfl, rfl, rfl, rfl, rfl, rfl⟩
  · simp only [executor, settle] at hc
    split at hc <;> cases hc

/-- A step that is not the owner's setting of this entry. -/
def Leaves (owner target : Address) (selector : Bytes4) (_ : Machine) (l : Label) : Prop :=
  ∀ msg allowed recipientOffset valueCapWei,
    l = .call (msg, .setAllowlist target selector allowed recipientOffset valueCapWei) →
      msg.sender ≠ owner

theorem entry_kept (owner target : Address) (selector : Bytes4) (entry : Allowlist) :
    Rollback.Machine.Kept (executor owner) (Leaves owner target selector) fun now w =>
      Accounted now w ∧ w.allowlist target selector = entry where
  advance ht h := ⟨(accounted_kept owner fun _ _ => True).advance ht h.1, h.2⟩
  settled {m c w} hl h hc := by
    refine ⟨(accounted_kept owner fun _ _ => True).settled (m := m) trivial h.1 hc, ?_⟩
    obtain ⟨msg, call⟩ := c
    cases settles_of_handle hc with
    | receive => exact h.2
    | setOperator => exact h.2
    | revokeOperator => exact h.2
    | @setAllowlist t s allowed offset cap sender =>
      rw [← h.2]
      show Function.update m.world.allowlist t _ target selector = _
      by_cases ht : target = t
      · subst ht
        rw [Function.update_self]
        refine Function.update_of_ne (fun hs => ?_) _ _
        subst hs
        exact hl _ _ _ _ rfl sender
      · rw [Function.update_of_ne ht]
    | forceEther => exact h.2
  outgoing {m c w p} _ h hc := by
    refine ⟨(accounted_kept owner fun _ _ => True).outgoing (m := m) trivial h.1 hc, ?_⟩
    obtain ⟨msg, call⟩ := c
    cases handsOut_of_handle (fun t => (h.1 t).fits) hc with
    | withdraw => exact h.2
    | executeMint executed =>
      rw [executed.eq]
      exact h.2
  resume {t w p} h := by
    refine ⟨(accounted_kept owner fun _ _ => True).resume h.1, ?_⟩
    cases p with
    | withdraw => exact h.2
    | mint => exact h.2

/-- **What the form says is what the contract does.**  The data that is prepared for the owner's
wallet puts the entry of the form in force when the owner sends it, and no other; sent by anybody
else it changes nothing.  Put outside any call, the entry stays as it is, whoever calls what, until
the owner sets that entry again. -/
theorem prepared_entry {encodeFunctionData : String → List AbiArg → Option String}
    (hencodes : EncodesFunctionData encodeFunctionData) {authorised : Bool} {input : AllowlistForm}
    {state : Prepared} {text : String}
    (h : prepareSetAllowlistCalldataAction encodeFunctionData authorised input = some state)
    (hdata : state.data = some text) :
    ∃ target selector offset cap bytes call,
      addressOfText (Text.lower (Text.trim input.target)) = some target ∧
      selectorOfText (Text.lower (Text.trim input.selector)) = some selector ∧
      input.recipientOffset = some (offset.toNat : ℤ) ∧
      SignerCustody.bigInt input.valueCapWei = some (cap.toNat : ℤ) ∧
      Hex.parse text = some bytes ∧ dispatch bytes = some call ∧
      ∀ owner m msg m', step owner m (.call (msg, call)) = some m' →
        ((msg.sender = owner ∧ msg.value = 0 ∧ target ≠ 0) ∧
            Puts target selector ⟨true, offset, cap⟩ m m' ∧
            (Reachable owner m → m.frames = [] → ∀ m'',
              Transition.Reach (step owner) (Leaves owner target selector) m' m'' →
                m''.world.allowlist target selector = ⟨true, offset, cap⟩)) ∨
          (¬(msg.sender = owner ∧ msg.value = 0 ∧ target ≠ 0) ∧ m' = m) := by
  obtain ⟨-, hform, n, k, hoffset, -, hcap, hbuilt⟩ :=
    prepareSetAllowlistCalldataAction_eq_some h hdata
  obtain ⟨call, bytes, hcall, hparse, hdispatch⟩ :=
    Request.dispatch_of_build hencodes (r := .setAllowlist _ _ true n k) hbuilt
      (Request.wellFormed_setAllowlist (parse_isSome_of_isSelector hform))
  rw [Request.call] at hcall
  obtain ⟨target, htarget, hcall⟩ := Option.bind_eq_some_iff.mp hcall
  obtain ⟨selector, hselector, hcall⟩ := Option.bind_eq_some_iff.mp hcall
  obtain ⟨offset, hn, hcall⟩ := Option.bind_eq_some_iff.mp hcall
  obtain ⟨cap, hk, rfl⟩ := Option.map_eq_some_iff.mp hcall
  refine ⟨target, selector, offset, cap, bytes, _, htarget, hselector,
    (wordOf_eq_some.mp hn).2 ▸ hoffset, (wordOf_eq_some.mp hk).2 ▸ hcap, hparse, hdispatch,
    fun owner m msg m' hstep => ?_⟩
  rcases setAllowlist_step ⟨true, offset, cap⟩ hstep with ⟨hsent, hput⟩ | hrefused
  · refine Or.inl ⟨hsent, hput, fun hm hidle m'' hrest => ?_⟩
    have hm' : Reachable owner m' := by
      obtain ⟨t, prefunded, w, hw, hr⟩ := hm
      exact ⟨t, prefunded, w, hw, hr.tail trivial hstep⟩
    exact ((entry_kept owner target selector ⟨true, offset, cap⟩).of_reach hrest
      (hput.frames.trans hidle) ⟨hm'.accounted, hput.entry⟩).2
  · exact Or.inr hrefused

end

namespace Sample

/-- Public mints, by their minter, up to 10 wei a day. -/
def allowlistForm : AllowlistForm :=
  ⟨" 0x00005ea00ac477b1030ce78506496e8c2de24bf5", "0x161AC21F", some 68, "10"⟩

end Sample

/-- A form is prepared, and its data is a call of the contract. -/
theorem prepared_entry_publicMint : ∃ text bytes call,
    (prepareSetAllowlistCalldataAction abiEncodeFunctionData true Sample.allowlistForm).bind
        Prepared.data = some text ∧
      Hex.parse text = some bytes ∧ dispatch bytes = some call := by
  obtain ⟨text, htext⟩ : ∃ text,
      (prepareSetAllowlistCalldataAction abiEncodeFunctionData true Sample.allowlistForm).bind
        Prepared.data = some text :=
    Option.isSome_iff_exists.mp (by decide +kernel)
  obtain ⟨state, hstate, hdata⟩ := Option.bind_eq_some_iff.mp htext
  obtain ⟨-, -, -, -, bytes, call, -, -, -, -, hparse, hdispatch, -⟩ :=
    prepared_entry encodesFunctionData hstate hdata
  exact ⟨text, bytes, call, htext, hparse, hdispatch⟩

end MintExecutor
