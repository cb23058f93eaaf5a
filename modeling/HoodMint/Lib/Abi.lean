/-
Arguments of a call, as bytes: the contract ABI for words and byte strings.

The heads come first, one word each; the head of a byte string is the offset of its tail, which holds
the length, the bytes, and zeros up to a whole number of words.

* `digits`, `value` — numbers as bytes, the most significant first;
* `encode`, `decode` — a list of arguments and its bytes; what stands behind them is ignored;
* `wordAt_encode` — where a word of the arguments stands;
* `decode_encode` — arguments that were encoded are decoded.
-/
import Mathlib.Algebra.Order.Ring.Nat
import Mathlib.Data.List.Basic
import Mathlib.Tactic.Ring

namespace Abi

abbrev Byte := BitVec 8

/-! ### Numbers -/

/-- The number that bytes spell, the most significant first. -/
def value (bytes : List Byte) : ℕ := bytes.foldl (fun n b => 256 * n + b.toNat) 0

/-- A number below `256 ^ width`, in `width` bytes. -/
def digits : ℕ → ℕ → List Byte
  | 0, _ => []
  | width + 1, n => BitVec.ofNat 8 (n / 256 ^ width) :: digits width (n % 256 ^ width)

@[simp] theorem length_digits (width n : ℕ) : (digits width n).length = width := by
  induction width generalizing n with
  | zero => rfl
  | succ width ih => rw [digits, List.length_cons, ih]

theorem foldl_value (bytes : List Byte) (n : ℕ) :
    bytes.foldl (fun n b => 256 * n + b.toNat) n = n * 256 ^ bytes.length + value bytes := by
  induction bytes generalizing n with
  | nil => simp [value]
  | cons b bytes ih =>
    have hvalue : value (b :: bytes) = b.toNat * 256 ^ bytes.length + value bytes := by
      rw [value, List.foldl_cons, ih, Nat.mul_zero, Nat.zero_add]
    rw [List.foldl_cons, ih, hvalue, List.length_cons, Nat.pow_succ]
    ring

theorem value_cons (b : Byte) (bytes : List Byte) :
    value (b :: bytes) = b.toNat * 256 ^ bytes.length + value bytes := by
  rw [value, List.foldl_cons, foldl_value, Nat.mul_zero, Nat.zero_add]

theorem value_digits {width n : ℕ} (h : n < 256 ^ width) : value (digits width n) = n := by
  induction width generalizing n with
  | zero =>
    rw [Nat.pow_zero, Nat.lt_one_iff] at h
    rw [h]
    rfl
  | succ width ih =>
    have hpos : 0 < 256 ^ width := Nat.pow_pos (by decide)
    have hdigit : n / 256 ^ width < 256 := Nat.div_lt_of_lt_mul (by rwa [← Nat.pow_succ])
    rw [digits, value_cons, length_digits, ih (Nat.mod_lt n hpos), BitVec.toNat_ofNat,
      Nat.mod_eq_of_lt hdigit, Nat.div_add_mod']

/-! ### Arguments -/

/-- An argument: a word, or a byte string. -/
inductive Arg
  | word (n : BitVec 256)
  | bytes (data : List Byte)
deriving DecidableEq

/-- What a function expects. -/
inductive Shape | word | bytes
deriving DecidableEq

def Arg.shape : Arg → Shape
  | .word _ => .word
  | .bytes _ => .bytes

/-- The zeros behind a byte string. -/
def padding (length : ℕ) : ℕ := (32 - length % 32) % 32

def Arg.tail : Arg → List Byte
  | .word _ => []
  | .bytes data => digits 32 data.length ++ (data ++ List.replicate (padding data.length) 0)

/-- The word in the head, for a tail that starts at an offset. -/
def Arg.head (offset : ℕ) : Arg → ℕ
  | .word n => n.toNat
  | .bytes _ => offset

/-- The heads, for tails that start at an offset. -/
def heads : ℕ → List Arg → List Byte
  | _, [] => []
  | offset, arg :: args => digits 32 (arg.head offset) ++ heads (offset + arg.tail.length) args

def tails (args : List Arg) : List Byte := args.flatMap Arg.tail

theorem tails_cons (arg : Arg) (args : List Arg) : tails (arg :: args) = arg.tail ++ tails args :=
  List.flatMap_cons

theorem tails_append (done todo : List Arg) : tails (done ++ todo) = tails done ++ tails todo :=
  List.flatMap_append

def encode (args : List Arg) : List Byte := heads (32 * args.length) args ++ tails args

/-- The word at an offset, if it is there. -/
def wordAt (data : List Byte) (offset : ℕ) : Option ℕ :=
  if offset + 32 ≤ data.length then some (value ((data.drop offset).take 32)) else none

/-- The byte string whose length stands at an offset. -/
def bytesAt (data : List Byte) (offset : ℕ) : Option (List Byte) :=
  (wordAt data offset).bind fun length =>
    if offset + 32 + length ≤ data.length then some ((data.drop (offset + 32)).take length)
    else none

/-- The argument whose head stands at an offset. -/
def decodeArg (data : List Byte) (offset : ℕ) : Shape → Option Arg
  | .word => (wordAt data offset).map fun n => .word (BitVec.ofNat 256 n)
  | .bytes => ((wordAt data offset).bind (bytesAt data)).map .bytes

/-- Arguments from an offset on. -/
def decodeFrom (data : List Byte) : ℕ → List Shape → Option (List Arg)
  | _, [] => some []
  | offset, shape :: shapes =>
    (decodeArg data offset shape).bind fun arg =>
      (decodeFrom data (offset + 32) shapes).map (arg :: ·)

def decode (shapes : List Shape) (data : List Byte) : Option (List Arg) :=
  decodeFrom data 0 shapes

/-! ### What is encoded is decoded -/

section

variable {n : ℕ}

theorem wordAt_append (before rest : List Byte) (h : n < 256 ^ 32) :
    wordAt (before ++ (digits 32 n ++ rest)) before.length = some n := by
  rw [wordAt, if_pos (by simp only [List.length_append, length_digits]; omega),
    List.drop_left, List.take_left' (length_digits 32 n), value_digits h]

theorem bytesAt_append (before rest : List Byte) {data : List Byte} (h : data.length < 256 ^ 32) :
    bytesAt (before ++ (digits 32 data.length ++ (data ++ rest))) before.length = some data := by
  have hdrop : (before ++ (digits 32 data.length ++ (data ++ rest))).drop (before.length + 32) =
      data ++ rest := by
    rw [← List.append_assoc]
    exact List.drop_left' (by rw [List.length_append, length_digits])
  rw [bytesAt, wordAt_append before _ h, Option.bind_some,
    if_pos (by simp only [List.length_append, length_digits]; omega), hdrop, List.take_left]

end

section

variable {args done todo : List Arg} {arg : Arg}

@[simp] theorem length_heads (offset : ℕ) (args : List Arg) :
    (heads offset args).length = 32 * args.length := by
  induction args generalizing offset with
  | nil => rfl
  | cons arg args ih =>
    rw [heads, List.length_append, length_digits, ih, List.length_cons]
    omega

theorem length_encode (args : List Arg) :
    (encode args).length = 32 * args.length + (tails args).length := by
  rw [encode, List.length_append, length_heads]

theorem length_tail_bytes_le (data : List Byte) :
    (Arg.bytes data).tail.length ≤ 64 + data.length := by
  rw [Arg.tail, List.length_append, List.length_append, length_digits, List.length_replicate,
    padding]
  omega

theorem heads_append (offset : ℕ) (done todo : List Arg) :
    heads offset (done ++ todo) = heads offset done ++ heads (offset + (tails done).length) todo := by
  induction done generalizing offset with
  | nil => rfl
  | cons arg done ih =>
    rw [List.cons_append, heads, ih, heads, List.append_assoc, tails_cons, List.length_append,
      Nat.add_assoc]

/-- Where the tail of an argument starts. -/
def tailOffset (args done : List Arg) : ℕ := 32 * args.length + (tails done).length

/-- The bytes before the head of an argument, the head, and the rest. -/
theorem encode_head (hargs : args = done ++ arg :: todo) :
    ∃ rest, encode args =
      heads (32 * args.length) done ++ (digits 32 (arg.head (tailOffset args done)) ++ rest) := by
  refine ⟨heads (tailOffset args done + arg.tail.length) todo ++ tails args, ?_⟩
  rw [encode]
  nth_rewrite 2 [hargs]
  rw [heads_append, heads, List.append_assoc, List.append_assoc]
  rfl

/-- The bytes before the tail of an argument, the tail, and the rest. -/
theorem encode_tail (hargs : args = done ++ arg :: todo) :
    ∃ before rest, before.length = tailOffset args done ∧
      encode args = before ++ (arg.tail ++ rest) := by
  refine ⟨heads (32 * args.length) args ++ tails done, tails todo, ?_, ?_⟩
  · rw [List.length_append, length_heads]
    rfl
  · have htails : tails args = tails done ++ (arg.tail ++ tails todo) := by
      rw [hargs, tails_append, tails_cons]
    rw [encode, htails, List.append_assoc]

/-- **Where a word stands.** -/
theorem wordAt_encode {n : BitVec 256} (hargs : args = done ++ .word n :: todo)
    (extra : List Byte) : wordAt (encode args ++ extra) (32 * done.length) = some n.toNat := by
  obtain ⟨rest, hencode⟩ := encode_head hargs
  have hword := wordAt_append (heads (32 * args.length) done) (rest ++ extra) n.isLt
  rw [length_heads] at hword
  rw [hencode, List.append_assoc, List.append_assoc]
  exact hword

theorem decodeArg_encode (hargs : args = done ++ arg :: todo) (extra : List Byte)
    (hfits : (encode args).length < 256 ^ 32) :
    decodeArg (encode args ++ extra) (32 * done.length) arg.shape = some arg := by
  cases arg with
  | word n =>
    rw [Arg.shape, decodeArg, wordAt_encode hargs, Option.map_some, BitVec.ofNat_toNat,
      BitVec.setWidth_eq]
  | bytes data =>
    obtain ⟨rest, hhead⟩ := encode_head hargs
    obtain ⟨before, rest', hbefore, htail⟩ := encode_tail hargs
    have hlength : (encode args).length =
        tailOffset args done + ((Arg.bytes data).tail.length + rest'.length) := by
      rw [htail, List.length_append, List.length_append, hbefore]
    have hdata : data.length ≤ (Arg.bytes data).tail.length := by
      rw [Arg.tail, List.length_append, List.length_append]
      omega
    -- the head is the offset of the tail
    have hoffset := wordAt_append (n := tailOffset args done) (heads (32 * args.length) done)
      (rest ++ extra) (by omega)
    rw [length_heads] at hoffset
    have hbytes := bytesAt_append before (List.replicate (padding data.length) 0 ++ (rest' ++ extra))
      (show data.length < 256 ^ 32 by omega)
    rw [Arg.shape, decodeArg]
    have hword : wordAt (encode args ++ extra) (32 * done.length) =
        some (tailOffset args done) := by
      rw [hhead, List.append_assoc, List.append_assoc]
      exact hoffset
    rw [hword, Option.bind_some, htail, ← hbefore]
    simp only [Arg.tail, List.append_assoc] at hbytes ⊢
    rw [hbytes, Option.map_some]

theorem decodeFrom_encode (hargs : args = done ++ todo) (extra : List Byte)
    (hfits : (encode args).length < 256 ^ 32) :
    decodeFrom (encode args ++ extra) (32 * done.length) (todo.map Arg.shape) = some todo := by
  induction todo generalizing done with
  | nil => rfl
  | cons arg todo ih =>
    have hnext : args = (done ++ [arg]) ++ todo := by rw [hargs, List.append_assoc]; rfl
    have hrest := ih hnext
    rw [List.length_append, List.length_singleton, Nat.mul_add_one] at hrest
    rw [List.map_cons, decodeFrom, decodeArg_encode hargs extra hfits, Option.bind_some, hrest,
      Option.map_some]

/-- **Arguments that were encoded are decoded**, whatever stands behind them. -/
theorem decode_encode (args : List Arg) (extra : List Byte)
    (hfits : (encode args).length < 256 ^ 32) :
    decode (args.map Arg.shape) (encode args ++ extra) = some args :=
  decodeFrom_encode (List.nil_append args).symm extra hfits

end

end Abi
