/-
Runs of overlapping pre-sign passes over one wallet.

The hot loop starts a pass at every tick and waits for none, so that passes interleave at
every command (`HoodMint.Lib.Interleave`).  They share the wallet's slot in the nonce
allocator and the blobs stored for its plans with the fire passes, which reserve a nonce of
their own when there is no blob to send; meanwhile plans are disarmed, expire or are
cancelled, and other transactions of the wallet are broadcast.

* `presignWorld` — what the passes share, as a monitor over their commands;
* `presignLocal` — what one pass knows: the pending nonce it has read last, and the nonce it
  has reserved and not yet stored, which a failure makes it forget; `presignPass_safe`: every
  pass reserves with the pending nonce it has read, holds one nonce at a time and stores that
  one;
* `PresignRun`, `step` — the system.
-/
import HoodMint.Lib.Interleave
import HoodMint.NonceAllocator
import HoodMint.PassReads
import Mathlib.Data.List.AList

namespace MintWorker

open Effect NonceAllocator

/-! ### What the passes share -/

/-- What the pass reads back of a stored blob. -/
structure Blob where
  nonce : ℕ
  presignedAt : ℤ

/-- A wallet: its slot in the allocator, the blobs of its plans, the nonces its broadcast
transactions have used, those the fire passes have in hand, and what was handed to a
pre-sign pass, and when. -/
structure PresignWorld where
  walletAddress : String
  slot : Slot
  blobs : AList fun _ : String => Blob
  used : List ℕ
  firing : List ℕ
  handed : List (ℕ × ℕ)
  nowMs : ℕ

/-- The candidate row is one of the wallet, and carries what is stored of its blob. -/
def PresignWorld.Lists (w : PresignWorld) (plan : PresignCandidate) : Prop :=
  plan.walletAddress = w.walletAddress ∧
    plan.presignedNonce = (w.blobs.lookup plan.planId).map Blob.nonce ∧
    plan.presignedAt = (w.blobs.lookup plan.planId).map Blob.presignedAt

instance (w : PresignWorld) : DecidablePred w.Lists := fun _ => inferInstanceAs (Decidable (_ ∧ _))

/-- The candidates are read from the stored rows, a pending nonce is one below which all
are used, and a reservation is answered by the allocator. -/
def presignWorld : Monitor signature Thrown PresignWorld where
  guard _ _ := True
  allowed w c x :=
    match c, x with
    | .now, .ok nowMs => nowMs = (w.nowMs : ℤ)
    | .armedManagedPlansForPresign _, .ok plans => ∀ plan ∈ plans, w.Lists plan
    | .fetchFeeContext .., .ok fees => ∀ n < fees.nonce, n ∈ w.used
    | .reserveNonce _ rpcNonce, answer => answer = .ok (w.slot.reserve rpcNonce w.nowMs).1
    | _, _ => True
  next w c x :=
    match c, x with
    | .reserveNonce _ rpcNonce, .ok nonce =>
      { w with
        slot := (w.slot.reserve rpcNonce w.nowMs).2
        handed := (nonce, w.nowMs) :: w.handed }
    | .savePresignedTx planId _ nonce _, .ok _ =>
      { w with blobs := w.blobs.insert planId ⟨nonce, w.nowMs⟩ }
    | _, _ => w

instance (w : PresignWorld) (c : Cmd) (x : Except Thrown c.Resp) :
    Decidable (presignWorld.allowed w c x) := by
  induction c using Cmd.casesOn with
  | now =>
    exact match x with
      | .error _ => isTrue trivial
      | .ok nowMs => (inferInstance : Decidable (nowMs = (w.nowMs : ℤ)))
  | armedManagedPlansForPresign =>
    exact match x with
      | .error _ => isTrue trivial
      | .ok plans => (inferInstance : Decidable (∀ plan ∈ plans, w.Lists plan))
  | fetchFeeContext =>
    exact match x with
      | .error _ => isTrue trivial
      | .ok fees => (inferInstance : Decidable (∀ n < fees.nonce, n ∈ w.used))
  | reserveNonce walletAddress rpcNonce =>
    exact (inferInstance : Decidable (x = .ok (w.slot.reserve rpcNonce w.nowMs).1))
  | _ => exact isTrue trivial

/-! ### What one pass knows -/

/-- The pending nonce a pass has read last, and the nonce it has reserved and not yet
stored in a blob. -/
structure PassNonce where
  seen : Option ℕ
  held : Option ℕ

/-- A pass reserves with the pending nonce it has read, holds one nonce at a time and
stores that one.  Whatever fails, the plan's `catch` forgets the nonce it held. -/
def presignLocal : Monitor signature Thrown PassNonce where
  guard t c :=
    match c with
    | .reserveNonce _ rpcNonce => t.seen = some rpcNonce ∧ t.held = none
    | .savePresignedTx _ _ nonce _ => t.held = some nonce
    | _ => True
  allowed _ _ _ := True
  next t c x :=
    match c, x with
    | .fetchFeeContext .., .ok fees => { t with seen := some fees.nonce }
    | .reserveNonce .., .ok nonce => { t with held := some nonce }
    | .savePresignedTx .., .ok _ => { t with held := none }
    | _, .error _ => { t with held := none }
    | _, _ => t

section

variable {config : Config} {plan : PresignCandidate} {rpcUrl : String}
  {localNowMs clockOffsetMs : ℤ} {α : Type} {t : PassNonce}

/-- The command changes nothing the pass keeps track of. -/
def Cmd.Plain : Cmd → Prop
  | .fetchFeeContext .. | .reserveNonce .. | .savePresignedTx .. => False
  | _ => True

abbrev Plain (p : Worker α) : Prop := p.Only (S := signature) Cmd.Plain

theorem plain_ask {c : Cmd} (h : c.Plain) : Plain (ask c) := Prog.Only.issue h

/-- A plain command leaves a pass that holds nothing as it is. -/
theorem plain_next {c : Cmd} (h : c.Plain) (hheld : t.held = none)
    (x : Except Thrown c.Resp) : presignLocal.next t c x = t := by
  have herror : { t with held := none } = t := by rw [← hheld]
  cases c <;> first | exact absurd h id | (cases x <;> first | exact herror | rfl)

theorem plain_wp {p : Worker α} (h : Plain p) (hheld : t.held = none) :
    p.wp presignLocal (fun _ t' => t' = t) t := by
  refine Prog.Only.wp (I := fun t' => t' = t) h ?_ ?_ rfl
  · rintro t' c hc rfl
    cases c <;> first | exact trivial | exact absurd hc id
  · rintro t' c x hc rfl _
    exact plain_next hc hheld x

theorem Surveys.plain {p : Worker α} (h : Surveys p) : Plain p :=
  h.mono fun c hc => by cases c <;> first | exact trivial | exact absurd hc id

/-- The nonce is read, reserved, signed with and stored. -/
theorem signPresign_wp {tx : Tx} {fees : FeeContext} {key : String}
    (hseen : t.seen = some fees.nonce) (hheld : t.held = none) :
    (signPresign config plan tx fees key).wp presignLocal (fun _ t' => t'.held = none) t := by
  refine Prog.wp_bind.mpr (Prog.wp_issue.mpr ⟨⟨hseen, hheld⟩, fun x _ => ?_⟩)
  rcases x with e | nonce
  · exact rfl
  · refine Prog.wp_bind.mpr (Prog.wp_issue.mpr ⟨trivial, fun x _ => ?_⟩)
    rcases x with e | signed
    · exact rfl
    · refine Prog.wp_issue.mpr ⟨rfl, fun x _ => ?_⟩
      cases x <;> exact rfl

/-- Plain commands leave a pass that holds nothing as it is. -/
theorem plain_bind_wp {p : Worker α} {f : α → Worker Unit} (hp : Plain p) (hheld : t.held = none)
    (hf : ∀ a, (f a).wp presignLocal (fun _ t' => t'.held = none) t) :
    (p >>= f).wp presignLocal (fun _ t' => t'.held = none) t := by
  refine Prog.wp_bind_of (plain_wp hp hheld) ?_ ?_
  · rintro a _ rfl
    exact hf a
  · rintro e _ rfl
    exact hheld

theorem fundPresign_wp {tx : Tx} {fees : FeeContext} (hseen : t.seen = some fees.nonce)
    (hheld : t.held = none) :
    (fundPresign config rpcUrl localNowMs plan tx fees).wp presignLocal
      (fun _ t' => t'.held = none) t := by
  refine plain_bind_wp surveys_assessPresignFunding.plain hheld fun verdict => ?_
  cases verdict with
  | short =>
    refine plain_bind_wp (plain_ask trivial) hheld fun _ => ?_
    refine Prog.wp_mono (plain_wp (plain_ask trivial) hheld) ?_
    rintro _ _ rfl
    exact hheld
  | ok =>
    refine plain_bind_wp (plain_ask trivial) hheld fun _ => ?_
    refine plain_bind_wp (plain_ask trivial) hheld fun sealed => ?_
    cases sealed with
    | none => exact hheld
    | some sealed =>
      exact plain_bind_wp (plain_ask trivial) hheld fun key => signPresign_wp hseen hheld

theorem presignClaimed_wp {cached : Option Tx} (hheld : t.held = none) :
    (presignClaimed config rpcUrl localNowMs clockOffsetMs plan cached).wp presignLocal
      (fun _ t' => t'.held = none) t := by
  refine Prog.wp_bind.mpr (Prog.wp_issue.mpr ⟨trivial, fun x _ => ?_⟩)
  rcases x with e | fees
  · exact rfl
  · dsimp only
    split
    · refine plain_bind_wp (surveys_presignCalldata cached).plain hheld fun tx => ?_
      cases tx with
      | none => exact hheld
      | some tx =>
        dsimp only
        split
        · exact hheld
        · exact fundPresign_wp rfl hheld
    · exact hheld

theorem presignPlan_wp (hheld : t.held = none) :
    (presignPlan config rpcUrl localNowMs clockOffsetMs plan).wp presignLocal
      (fun _ t' => t'.held = none) t := by
  rw [presignPlan]
  split
  · exact hheld
  · exact hheld
  · refine plain_bind_wp (plain_ask trivial) hheld fun recheckAt => ?_
    split
    · exact hheld
    · refine plain_bind_wp surveys_freshPresignTx.plain hheld fun cached => ?_
      exact Prog.wp_tryCatch_of (presignClaimed_wp hheld) (fun _ _ h => h) fun _ _ h => h

theorem presignPlans_wp (plans : List PresignCandidate) (hheld : t.held = none) :
    (presignPlans config rpcUrl localNowMs clockOffsetMs plans).wp presignLocal
      (fun _ t' => t'.held = none) t := by
  induction plans generalizing t with
  | nil => exact hheld
  | cons plan plans ih =>
    exact Prog.wp_bind_of (presignPlan_wp hheld) (fun _ _ h => ih h) fun _ _ h => h

/-- A pass that has just been started is safe, and holds nothing when it ends. -/
theorem presignPass_safe (config : Config) (localNowMs clockOffsetMs : ℤ) :
    Task.Safe presignLocal (fun _ t' => t'.held = none)
      ⟨runPresignPass config localNowMs clockOffsetMs, ⟨none, none⟩⟩ := by
  show (runPresignPass config localNowMs clockOffsetMs).wp presignLocal _ _
  rw [runPresignPass]
  split
  · rfl
  · refine plain_bind_wp (plain_ask trivial) rfl fun candidates => ?_
    split
    · rfl
    · have hbest : Plain (resolveBestRpcUrl config.robinhoodChainId config.rpcUrl) :=
        .bind (plain_ask trivial) fun _ => .pure _
      refine plain_bind_wp hbest rfl fun rpcUrl => ?_
      cases rpcUrl with
      | none => rfl
      | some rpcUrl =>
        dsimp only
        split
        · rfl
        · exact presignPlans_wp candidates rfl

end

/-! ### The system -/

/-- The wallet, and the passes under way. -/
structure PresignRun where
  world : PresignWorld
  passes : List (Task signature Thrown Unit PassNonce)

/-- What can happen.  A fire pass reads the plan's blob (`readBlob`) or, with none to send,
reserves a nonce (`reserveNonce`); it has that nonce in hand until it gives it back
(`releaseNonce`) or ends without (`settle`).  `broadcast` is a transaction of the wallet that
reaches the wire, whoever sends it; `purge` clears the blob of a plan that has fired, is
disarmed, expires, is cancelled or fails, or whose wallet loses its key. -/
inductive PresignStep
  | start (localNowMs clockOffsetMs : ℤ)
  | advance (i : ℕ) (answer : (c : Cmd) → Except Thrown c.Resp)
  | tick (nowMs : ℕ)
  | readBlob (planId : String)
  | reserveNonce (rpcNonce : ℕ)
  | broadcast (nonce : ℕ)
  | releaseNonce (nonce : ℕ)
  | settle (nonce : ℕ)
  | purge (planId : String)

namespace PresignRun

def step (config : Config) (d : PresignRun) : PresignStep → Option PresignRun
  | .start localNowMs clockOffsetMs =>
    some ⟨d.world,
      d.passes ++ [⟨runPresignPass config localNowMs clockOffsetMs, ⟨none, none⟩⟩]⟩
  | .advance i answer =>
    (advance presignWorld presignLocal d.world d.passes i answer).map fun r => ⟨r.1, r.2⟩
  | .tick nowMs =>
    if d.world.nowMs ≤ nowMs then some ⟨{ d.world with nowMs }, d.passes⟩ else none
  | .readBlob planId =>
    (d.world.blobs.lookup planId).map fun blob =>
      ⟨{ d.world with firing := blob.nonce :: d.world.firing }, d.passes⟩
  | .reserveNonce rpcNonce =>
    if ∀ n < rpcNonce, n ∈ d.world.used then
      let r := d.world.slot.reserve rpcNonce d.world.nowMs
      some ⟨{ d.world with slot := r.2, firing := r.1 :: d.world.firing }, d.passes⟩
    else none
  | .broadcast nonce => some ⟨{ d.world with used := nonce :: d.world.used }, d.passes⟩
  | .releaseNonce nonce =>
    if nonce ∈ d.world.firing then
      some ⟨{ d.world with
          slot := d.world.slot.release nonce, firing := d.world.firing.erase nonce }, d.passes⟩
    else none
  | .settle nonce =>
    if nonce ∈ d.world.firing then
      some ⟨{ d.world with firing := d.world.firing.erase nonce }, d.passes⟩
    else none
  | .purge planId => some ⟨{ d.world with blobs := d.world.blobs.erase planId }, d.passes⟩

/-- A worker that has just been started, for a wallet whose transactions have used the
nonces below `pending`. -/
def start (walletAddress : String) (pending : ℕ) : PresignRun :=
  ⟨⟨walletAddress, Slot.empty, ∅, List.range pending, [], [], 0⟩, []⟩

/-- No pass is under way, of either kind. -/
def Quiescent (d : PresignRun) : Prop := (∀ t ∈ d.passes, t.Done) ∧ d.world.firing = []

instance : DecidablePred Quiescent := fun d =>
  inferInstanceAs (Decidable ((∀ t ∈ d.passes, t.Done) ∧ d.world.firing = []))

/-- A pass has reserved `n` and not stored it yet. -/
def Holds (d : PresignRun) (n : ℕ) : Prop := ∃ t ∈ d.passes, t.here.held = some n

instance (d : PresignRun) : DecidablePred d.Holds := fun n =>
  inferInstanceAs (Decidable (∃ t ∈ d.passes, t.here.held = some n))

end PresignRun

namespace PresignWorld

/-- Some plan's blob carries `n`. -/
def Stored (w : PresignWorld) (n : ℕ) : Prop :=
  ∃ planId ∈ w.blobs.keys, ∃ blob ∈ w.blobs.lookup planId, blob.nonce = n

instance (w : PresignWorld) : DecidablePred w.Stored := fun n =>
  inferInstanceAs (Decidable (∃ planId ∈ w.blobs.keys, ∃ blob ∈ w.blobs.lookup planId,
    blob.nonce = n))

theorem stored_iff {w : PresignWorld} {n : ℕ} :
    w.Stored n ↔ ∃ planId blob, w.blobs.lookup planId = some blob ∧ blob.nonce = n := by
  constructor
  · rintro ⟨planId, _, blob, hblob, hn⟩
    exact ⟨planId, blob, hblob, hn⟩
  · rintro ⟨planId, blob, hblob, hn⟩
    refine ⟨planId, ?_, blob, hblob, hn⟩
    rw [← AList.mem_keys, ← AList.lookup_isSome, hblob]
    rfl

end PresignWorld

end MintWorker
