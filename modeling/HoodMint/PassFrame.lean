/-
What the pass does around the signers.

A command is `Quiet` when it neither signs nor sends, leaves the nonce allocator and the
recorded broadcasts alone, and reads neither the broadcast history nor the pre-signed
blob.  Everything in `runMintExecutionPass` outside the idempotency gate and the two
server-side signers is made of quiet commands.

* `quiet_…` — the parts that issue quiet commands only;
* `QuietKeeps` — a property that quiet commands keep under a monitor; with it, what the
  idempotency gate and the signers meet, the whole pass meets
  (`QuietKeeps.runMintExecutionPass`).
-/
import HoodMint.PassStages

namespace MintWorker

open Effect

/-- Neither signs nor sends, and leaves nonces, blobs and broadcasts alone. -/
def Cmd.Quiet : Cmd → Prop
  | .reserveNonce .. | .releaseNonce .. | .selectLatestBroadcast _ | .selectPresigned _
  | .savePresignedTx ..
  | .broadcastRawTransaction .. | .raceRawTransaction .. | .signManagedMintTransaction ..
  | .signExecutorTransaction .. => False
  | .recordExecutionAttempt _ attempt => attempt.status ≠ .broadcast
  | _ => True

/-- The program issues quiet commands only. -/
abbrev Quiet {α : Type} (p : Worker α) : Prop := p.Only (S := signature) Cmd.Quiet

section

variable {α : Type} {plan : Plan} {config : Config}

theorem quiet_ask {c : Cmd} (h : c.Quiet) : Quiet (ask c) := Prog.Only.issue h

theorem Cmd.Looks.quiet {c : Cmd} (h : c.Looks) : c.Quiet := by
  cases c <;> first | exact trivial | exact absurd h id

theorem Cmd.Steady.quiet {c : Cmd} {planId : String} (h : c.Steady planId) : c.Quiet := by
  cases c <;> first | exact trivial | exact h.2.1 | exact absurd h id

theorem Looks.quiet {p : Worker α} (h : Looks p) : Quiet p := h.mono fun _ hc => hc.quiet

theorem Idle.quiet {p : Worker α} (h : Idle p) : Quiet p := h.looks.quiet

theorem quiet_record {attempt : Attempt} (h : attempt.status ≠ .broadcast) :
    Quiet (record plan attempt) :=
  quiet_ask h

theorem quiet_releaseMintPlanToArmed : Quiet (releaseMintPlanToArmed plan) :=
  .bind (quiet_ask trivial) fun _ => .bind (quiet_ask trivial) fun _ => .pure _

theorem quiet_markMintPlanExecuted : Quiet (markMintPlanExecuted plan) :=
  .bind (quiet_ask trivial) fun _ => .pure _

theorem quiet_clearPresignedTx : Quiet (clearPresignedTx plan) :=
  .bind (quiet_ask trivial) fun _ => .pure _

theorem quiet_failPlanAndNotify : Quiet (failPlanAndNotify plan) :=
  .bind (quiet_ask trivial) fun _ => quiet_ask trivial

theorem quiet_ignoreErrors {p : Worker Unit} (h : Quiet p) : Quiet (ignoreErrors p) :=
  .bind h.attempt fun _ => .pure _

end

/-! ### The pass around the signers -/

/-- Under the monitor, quiet commands may be issued while `I` holds, and keep it; a pass
that ends then ends well. -/
structure QuietKeeps {σ : Type} (M : Monitor signature Thrown σ) (I J : σ → Prop) : Prop where
  guard : ∀ s c, Cmd.Quiet c → I s → M.guard s c
  next : ∀ s c x, Cmd.Quiet c → I s → M.allowed s c x → I (M.next s c x)
  ends : ∀ s, I s → J s

section

variable {σ α β : Type} {M : Monitor signature Thrown σ} {I J : σ → Prop} {s : σ} {plan : Plan}
  {config : Config} {fireUrls : List String} {wallet : Wallet}

namespace QuietKeeps

variable (hM : QuietKeeps M I J)
include hM

theorem endsIn (r : Except Thrown α) (h : I s) : EndsIn I J r s := by
  cases r with
  | error => exact h
  | ok => exact hM.ends s h

theorem wp {p : Worker α} (hp : Quiet p) (hs : I s) : p.wp M (fun _ s' => I s') s :=
  hp.wp hM.guard hM.next hs

theorem wp_endsIn {p : Worker α} (hp : Quiet p) (hs : I s) : p.wp M (EndsIn I J) s :=
  Prog.wp_mono (hM.wp hp hs) fun r _ h => hM.endsIn r h

theorem wp_bind {p : Worker α} {f : α → Worker β} (hp : Quiet p)
    (hf : ∀ a s', I s' → (f a).wp M (EndsIn I J) s') (hs : I s) :
    (p >>= f).wp M (EndsIn I J) s :=
  Prog.wp_bind_of (hM.wp hp hs) hf fun _ _ h => h

/-- The stages of a pass are all `I`. -/
theorem passKeeps (plan : Plan) : PassKeeps M config plan ⟨I, fun _ => I, fun _ => I, fun _ => I, I, J⟩ := by
  have hsteady : M.Maintains (Cmd.Steady plan.id) I := fun s c hc hs =>
    ⟨hM.guard s c hc.quiet hs, fun x hx => hM.next s c x hc.quiet hs hx⟩
  exact
    { begun := hsteady, loaded := fun _ => hsteady, chosen := fun _ => hsteady, failed := hsteady
      failed_of_begun := fun _ hs => hs, failed_of_loaded := fun _ _ hs => hs
      failed_of_gated := fun _ _ hs => hs
      load := fun s hs => Prog.wp_mono (hM.wp idle_loadPlan.quiet hs)
        fun r s' hs' => by cases r <;> exact hs'
      failed_of_chosen := fun _ _ hs => hs, ended_of_failed := hM.ends
      resolve := fun wallet s hs => Prog.wp_mono (hM.wp idle_resolveSigner.quiet hs)
        fun r s' hs' => by cases r <;> exact hs'
      release := fun s hs => hM.wp_endsIn quiet_releaseMintPlanToArmed hs
      fail := fun s hs => hM.wp_endsIn quiet_failPlanAndNotify hs
      prompt := fun _ _ s _ _ hs =>
        hM.wp_endsIn (.bind (quiet_record nofun) fun _ => quiet_ask trivial) hs }

/-- What the server-side signers meet, the rest of the `try` block meets. -/
theorem fireClaimed {rpcUrl : String} {nearFire : Bool} {pre : Prefetch}
    {project : Option Project} {wallet : Option Wallet}
    (hserver : ∀ fire tx s', I s' → (runServerFire config plan fire tx).wp M (EndsIn I J) s')
    (hs : I s) :
    (fireClaimed config plan fireUrls rpcUrl nearFire pre project wallet).wp M (EndsIn I J) s :=
  (hM.passKeeps plan).fireClaimed (fun fire tx s' _ _ hs' => hserver fire tx s' hs') hs

/-- What the idempotency gate and the rest of the `try` block meet, the pass meets.  `U`
is what is known of the registry's endpoints. -/
theorem firePlan {U : List String → Prop}
    (hurls : ∀ s', I s' → (resolveBroadcastRpcUrls config.robinhoodChainId config.rpcUrl).wp M
      (fun r s'' => I s'' ∧ ∀ urls, r = .ok urls → U urls) s')
    (hgate : ∀ registryUrls rpcUrl nearFire pre project wallet s', U registryUrls → I s' →
      (idempotencyGate plan (mintRpcUrls config registryUrls)
        (MintWorker.fireClaimed config plan (mintRpcUrls config registryUrls) rpcUrl nearFire pre
          project wallet)).wp M (EndsIn I J) s')
    (hs : I s) : (firePlan config plan).wp M (EndsIn I J) s :=
  (hM.passKeeps plan).firePlan hurls hgate hs

/-- What the claimed plan's fire meets, the pass meets. -/
theorem runMintExecutionPass {P : Plan → Prop}
    (hclaim : ∀ s' now leaseMs leadMs plan, I s' →
      M.allowed s' (.claimArmedMintPlan now leaseMs leadMs) (.ok (some plan)) → P plan)
    (hfire : ∀ plan s', P plan → I s' → (MintWorker.firePlan config plan).wp M (EndsIn I J) s')
    (hs : I s) : (runMintExecutionPass config).wp M (EndsIn I J) s := by
  refine hM.wp_bind (quiet_ask trivial) (fun now s₁ h₁ => ?_) hs
  refine hM.wp_bind (quiet_ask trivial) (fun expired s₂ h₂ => ?_) h₁
  refine Prog.wp_bind.mpr (Prog.wp_issue.mpr ⟨hM.guard _ _ trivial h₂, fun x hx => ?_⟩)
  have h₃ := hM.next _ _ x trivial h₂ hx
  rcases x with e | _ | plan
  · exact h₃
  · exact hM.ends _ h₃
  · exact Prog.wp_bind_of (hfire plan _ (hclaim _ _ _ _ _ h₂ hx) h₃) (fun _ _ h => h)
      fun _ _ h => h

end QuietKeeps

end

end MintWorker
