/-
Keccak-256, as Ethereum uses it.

* `permute` — Keccak-f[1600] on 25 lanes of 64 bits, lane `x + 5y` at column `x` of row `y`;
* `pad`, `absorb` — the sponge with a rate of 136 bytes and the padding `0x01 … 0x80`;
* `keccak256` — the digest of some bytes, and `digestHex` of a text.
-/
import Mathlib.Algebra.Group.Nat.Defs
import Mathlib.Data.Nat.Notation

namespace Keccak

abbrev Lane := BitVec 64

/-- The lane at an index. -/
def lane (state : List Lane) (i : ℕ) : Lane := state.getD i 0

/-! ### The permutation -/

/-- The rotation of each lane. -/
def rotations : List ℕ :=
  [0, 1, 62, 28, 27, 36, 44, 6, 55, 20, 3, 10, 43, 25, 39, 41, 45, 15, 21, 8, 18, 2, 61, 56, 14]

def roundConstants : List Lane :=
  [0x0000000000000001, 0x0000000000008082, 0x800000000000808a, 0x8000000080008000,
    0x000000000000808b, 0x0000000080000001, 0x8000000080008081, 0x8000000000008009,
    0x000000000000008a, 0x0000000000000088, 0x0000000080008009, 0x000000008000000a,
    0x000000008000808b, 0x800000000000008b, 0x8000000000008089, 0x8000000000008003,
    0x8000000000008002, 0x8000000000000080, 0x000000000000800a, 0x800000008000000a,
    0x8000000080008081, 0x8000000000008080, 0x0000000080000001, 0x8000000080008008]

/-- The parity of each column. -/
def parities (state : List Lane) : List Lane :=
  (List.range 5).map fun x => lane state x ^^^ lane state (x + 5) ^^^ lane state (x + 10) ^^^
    lane state (x + 15) ^^^ lane state (x + 20)

def theta (state : List Lane) : List Lane :=
  (List.range 25).map fun i => lane state i ^^^ lane (parities state) ((i + 4) % 5) ^^^
    (lane (parities state) ((i + 1) % 5)).rotateLeft 1

def rhoPi (state : List Lane) : List Lane :=
  (List.range 25).map fun j =>
    let i := (j % 5 + 3 * (j / 5)) % 5 + 5 * (j % 5)
    (lane state i).rotateLeft (rotations.getD i 0)

def chi (state : List Lane) : List Lane :=
  (List.range 25).map fun i => lane state i ^^^
    (~~~lane state (5 * (i / 5) + (i + 1) % 5) &&& lane state (5 * (i / 5) + (i + 2) % 5))

def iota (constant : Lane) (state : List Lane) : List Lane :=
  (lane state 0 ^^^ constant) :: state.tail

def permute (state : List Lane) : List Lane :=
  roundConstants.foldl (fun state constant => iota constant (chi (rhoPi (theta state)))) state

/-! ### The sponge -/

/-- Bytes a block takes. -/
def rate : ℕ := 136

/-- Up to a whole number of blocks. -/
def pad (bytes : List ℕ) : List ℕ :=
  let missing := rate - bytes.length % rate
  bytes ++ if missing = 1 then [0x81] else 0x01 :: (List.replicate (missing - 2) 0 ++ [0x80])

/-- Eight bytes, the lowest first. -/
def word (bytes : List ℕ) : Lane := BitVec.ofNat 64 (bytes.foldr (fun byte n => byte + 256 * n) 0)

/-- A block is added to the first lanes. -/
def absorb (state : List Lane) (block : List ℕ) : List Lane :=
  permute ((List.range 25).map fun i => lane state i ^^^
    if i < rate / 8 then word ((block.drop (8 * i)).take 8) else 0)

/-- The bytes of a word, the lowest first. -/
def bytesOf (word : Lane) : List ℕ := (List.range 8).map fun i => word.toNat / 256 ^ i % 256

def keccak256 (bytes : List ℕ) : List ℕ :=
  let padded := pad bytes
  let blocks := (List.range (padded.length / rate)).map fun i => (padded.drop (rate * i)).take rate
  ((blocks.foldl absorb (List.replicate 25 0)).take 4).flatMap bytesOf

/-- `0x`, and two digits for each byte. -/
def hex (bytes : List ℕ) : String :=
  String.ofList ('0' :: 'x' ::
    bytes.flatMap fun byte => [Nat.digitChar (byte / 16), Nat.digitChar (byte % 16)])

/-- The digest of an ASCII text. -/
def digestHex (text : String) : String := hex (keccak256 (text.toList.map Char.toNat))

example : digestHex "" = "0xc5d2460186f7233c927e7db2dcc703c0e500b653ca82273b7bfad8045d85a470" := by
  decide +kernel

end Keccak
