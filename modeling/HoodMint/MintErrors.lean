/-
What the mint worker reads out of the text of an error
(`packages/core/src/presign.ts`, `packages/core/src/funding.ts`,
`apps/worker/src/mint-tx.ts`, `apps/worker/src/mint-receipt.ts`).

The source classifies errors by regular expressions over the message.  `mentions` and
`followed` are the shapes these take; each classifier is the disjunction its
expression spells out.

* `isStalePresignError`, `isInsufficientFundsError`, … — the classifiers;
* `pickBroadcastError` — the one rejection of a broadcast race that is acted upon;
* `isStalePresignError_pickBroadcastError` — the two lists of the source agree: what the
  race picks for its nonce or fee answer is what the fire path calls stale.
-/
import HoodMint.Lib.Utf16
import Mathlib.Data.List.Infix

namespace MintWorker

/-- A thrown value: `message` is its message, or its text when it is no `Error`;
`category` is there for the application's own errors. -/
structure Thrown where
  message : String
  isError : Bool
  category : Option String
deriving DecidableEq

/-- `new Error(message)`. -/
def Thrown.error (message : String) : Thrown := ⟨message, true, none⟩

/-- `error instanceof Error ? error.message : String(error)`. -/
def Thrown.text (e : Thrown) : String := e.message

/-- `message.slice(0, 200)`. -/
def slice200 (message : String) : String := Utf16.slice message 200

/-! ### Patterns -/

/-- A message as the case-insensitive patterns read it. -/
def folded (message : String) : List Char := message.toList.map Char.toLower

/-- `/needle/i.test(message)` for a literal, lower-case needle. -/
def mentions (needle message : String) : Bool := decide (needle.toList <:+: folded message)

/-- `/first.*second/i.test(message)`: both on one line, in this order. -/
def followed (first second message : String) : Bool :=
  (folded message).tails.any fun t =>
    decide (first.toList <+: t) &&
      decide (second.toList <:+:
        (t.drop first.length).takeWhile fun c => c ≠ '\n' ∧ c ≠ '\r' ∧ c ≠ '\u2028' ∧ c ≠ '\u2029')

/-- `/[^.]{0,n}needle/` at the start of the text; what is skipped is counted in code units. -/
def withinSentence (needle : String) : ℕ → List Char → Bool
  | _, [] => decide (needle.toList <+: [])
  | n, c :: t =>
    decide (needle.toList <+: c :: t) ||
      c ≠ '.' && decide ((JsonText.units c).length ≤ n) &&
        withinSentence needle (n - (JsonText.units c).length) t

example : withinSentence "per wallet" 1 "😀per wallet".toList = false ∧
    withinSentence "per wallet" 2 "😀per wallet".toList = true := by decide

/-! ### Classifiers -/

/-- An answer about the nonce: the blob's nonce is taken, or the blob is known. -/
def isNonceError (message : String) : Bool :=
  mentions "nonce too low" message || mentions "nonce is too low" message ||
    mentions "already known" message || mentions "replacement transaction underpriced" message ||
    mentions "invalid nonce" message || followed "nonce" "expected" message

/-- An answer about the fee. -/
def isFeeError (message : String) : Bool :=
  mentions "max fee per gas less than block base fee" message ||
    mentions "fee cap less than block base fee" message ||
    mentions "cannot be lower than the block base fee" message ||
    mentions "transaction underpriced" message

/-- `isStalePresignError`. -/
def isStalePresignError (message : String) : Bool := isNonceError message || isFeeError message

/-- `isInsufficientFundsError`. -/
def isInsufficientFundsError (message : String) : Bool :=
  mentions "insufficient balance" message || mentions "insufficient funds" message

/-- `isMintedOutError`. -/
def isMintedOutError (message : String) : Bool :=
  mentions "fully minted out" message || mentions "minted out" message ||
    mentions "sold out" message

/-- `isTerminalMintBuildError`. -/
def isTerminalMintBuildError (message : String) : Bool :=
  mentions "minted out" message || mentions "sold out" message ||
    mentions "insufficient balance" message

/-- `isPerWalletLimitError`. -/
def isPerWalletLimitError (message : String) : Bool :=
  (folded message).tails.any (fun t =>
      (decide ("max".toList <+: t) && withinSentence "per wallet" 40 (t.drop 3)) ||
        (decide ("maximum".toList <+: t) && withinSentence "per wallet" 40 (t.drop 7))) ||
    mentions "already minted" message || mentions "exceeds" message

/-- `/provider returned 4\d\d/.test(message)`. -/
def isProvider4xx (message : String) : Bool :=
  message.toList.tails.any fun t =>
    decide ("provider returned 4".toList <+: t) &&
      match t.drop "provider returned 4".length with
      | c :: c' :: _ => c.isDigit && c'.isDigit
      | _ => false

/-! ### The rejection of a race -/

/-- The patterns of `pickBroadcastError`, most consequential first. -/
def broadcastPriority : List (String → Bool) :=
  [isInsufficientFundsError, isNonceError, isFeeError, mentions "revert"]

/-- `e instanceof Error ? e : new Error(String(e))`. -/
def Thrown.asError (e : Thrown) : Thrown := if e.isError then e else .error e.message

@[simp] theorem Thrown.message_asError (e : Thrown) : e.asError.message = e.message := by
  rw [Thrown.asError]
  split <;> rfl

/-- `pickBroadcastError` of the rejections of a race, in the order of its endpoints. -/
def pickBroadcastError (errors : List Thrown) : Thrown :=
  match broadcastPriority.findSome? fun pattern => errors.find? fun e => pattern e.message with
  | some hit => hit.asError
  | none => (errors.headD (.error "All promises were rejected")).asError

/-- A race with an answer about nonce or fee, and none about funds, is rejected with
one that the fire path calls stale. -/
theorem isStalePresignError_pickBroadcastError {errors : List Thrown}
    (hf : ∀ e ∈ errors, isInsufficientFundsError e.message = false)
    (hs : ∃ e ∈ errors, isStalePresignError e.message = true) :
    isStalePresignError (pickBroadcastError errors).message = true := by
  have hfunds : (errors.find? fun e => isInsufficientFundsError e.message) = none := by
    rw [List.find?_eq_none]
    intro e he hfunds
    rw [hf e he] at hfunds
    exact Bool.noConfusion hfunds
  rw [pickBroadcastError, broadcastPriority, List.findSome?_cons, hfunds, List.findSome?_cons,
    isStalePresignError, Bool.or_eq_true]
  cases hnonce : errors.find? fun e => isNonceError e.message with
  | some hit =>
    have h := List.find?_some hnonce
    exact Or.inl (by rwa [Thrown.message_asError])
  | none =>
    cases hfee : errors.find? fun e => isFeeError e.message with
    | some hit =>
      have h := List.find?_some hfee
      rw [List.findSome?_cons, hfee]
      exact Or.inr (by rwa [Thrown.message_asError])
    | none =>
      obtain ⟨e, he, hstale⟩ := hs
      rw [isStalePresignError, Bool.or_eq_true] at hstale
      rcases hstale with h | h
      · exact absurd h (List.find?_eq_none.mp hnonce e he)
      · exact absurd h (List.find?_eq_none.mp hfee e he)

end MintWorker
