/-
Machines that hand control out and roll back when a frame fails.

A handler treats one call on a world: it refuses the call, settles it at once,
or updates the world and hands control to somebody else (`outgoing`).  While
control is out, anybody may call the handler again, to any depth; every open
frame remembers the world it was opened on, and a frame that fails puts that
world back.  This is the call discipline of a smart contract, seen from the
contract: the adversary is the list of labels.

* `Machine.step` — one label, as a function, so that runs can be executed;
* `Machine.Holds R` — the stack invariant: `R` relates the current world to
  the whole stack, and the world saved by each frame to the stack below it;
* `Machine.holds_of_reach` — `R` is an invariant as soon as the four things a
  step can do keep it;
* `step_answer_false` — a failed frame restores the world it was opened on.
-/
import HoodMint.Lib.Transition

namespace Rollback

/-- What a handler does with a call. -/
inductive Outcome (W P E : Type*)
  | refused (e : E)
  | settled (w : W)
  | outgoing (w : W) (p : P)

/-- A world with calls: `handle` runs a call up to its external call, `resume`
runs the rest once that call has succeeded. -/
structure Handler (T C P E W : Type*) where
  handle : T → C → W → Outcome W P E
  resume : P → W → W

/-- An open frame, with the world to restore if it fails: one of the handler's
own, or somebody else's. -/
inductive Frame (W P : Type*)
  | pending (saved : W) (p : P)
  | foreign (saved : W)

namespace Frame

variable {T C P E W : Type*}

/-- The world on which the frame was opened. -/
def saved : Frame W P → W
  | .pending w _ => w
  | .foreign w => w

/-- The world after the frame has succeeded. -/
def commit (H : Handler T C P E W) (w : W) : Frame W P → W
  | .pending _ p => H.resume p w
  | .foreign _ => w

end Frame

structure Machine (T W P : Type*) where
  now : T
  world : W
  frames : List (Frame W P)

/-- One step of the environment: time moves on between transactions, somebody
calls the handler, somebody else's frame opens, the innermost frame ends. -/
inductive Label (T C : Type*)
  | advance (t : T)
  | call (c : C)
  | enter
  | answer (ok : Bool)

namespace Machine

variable {T C P E W : Type*}

/-- The stack invariant on a bare world and stack. -/
def Nested (R : W → List (Frame W P) → Prop) : W → List (Frame W P) → Prop
  | w, [] => R w []
  | w, f :: fs => R w (f :: fs) ∧ Nested R f.saved fs

theorem Nested.top {R : W → List (Frame W P) → Prop} {w : W} {fs : List (Frame W P)}
    (h : Nested R w fs) : R w fs := by
  cases fs with
  | nil => exact h
  | cons f fs => exact h.1

theorem Nested.replace {R : W → List (Frame W P) → Prop} {w w' : W} {fs : List (Frame W P)}
    (h : Nested R w fs) (h' : R w' fs) : Nested R w' fs := by
  cases fs with
  | nil => exact h'
  | cons f fs => exact ⟨h', h.2⟩

/-- `R` relates the current world to the stack, and the world each frame saved
to the frames below it. -/
def Holds (R : T → W → List (Frame W P) → Prop) (m : Machine T W P) : Prop :=
  Nested (R m.now) m.world m.frames

theorem Holds.top {R : T → W → List (Frame W P) → Prop} {m : Machine T W P} (h : m.Holds R) :
    R m.now m.world m.frames :=
  Nested.top h

variable [LE T] [DecidableLE T]

def step (H : Handler T C P E W) (m : Machine T W P) : Label T C → Option (Machine T W P)
  | .advance t => if m.frames.isEmpty ∧ m.now ≤ t then some { m with now := t } else none
  | .call c =>
    match H.handle m.now c m.world with
    | .refused _ => some m
    | .settled w => some { m with world := w }
    | .outgoing w p => some { m with world := w, frames := .pending m.world p :: m.frames }
  | .enter => some { m with frames := .foreign m.world :: m.frames }
  | .answer ok =>
    match m.frames with
    | [] => none
    | f :: fs => some { m with world := if ok then f.commit H m.world else f.saved, frames := fs }

variable {H : Handler T C P E W} {m m' : Machine T W P}

/-- **Rollback.**  A frame that fails restores the world it was opened on. -/
theorem step_answer_false {f : Frame W P} {fs : List (Frame W P)} (hf : m.frames = f :: fs)
    (h : m.step H (.answer false) = some m') :
    m'.world = f.saved ∧ m'.frames = fs ∧ m'.now = m.now := by
  simp only [step, hf, Bool.false_eq_true, if_false, Option.some_inj] at h
  subst h
  exact ⟨rfl, rfl, rfl⟩

/-- What a call does to the machine. -/
theorem step_call_cases {c : C} (h : m.step H (.call c) = some m') :
    (∃ e, H.handle m.now c m.world = .refused e ∧ m' = m) ∨
    (∃ w, H.handle m.now c m.world = .settled w ∧ m' = { m with world := w }) ∨
    ∃ w p, H.handle m.now c m.world = .outgoing w p ∧
      m' = { m with world := w, frames := .pending m.world p :: m.frames } := by
  simp only [step] at h
  cases hc : H.handle m.now c m.world with
  | refused e =>
    rw [hc, Option.some_inj] at h
    exact Or.inl ⟨e, rfl, h.symm⟩
  | settled w =>
    rw [hc, Option.some_inj] at h
    exact Or.inr (Or.inl ⟨w, rfl, h.symm⟩)
  | outgoing w p =>
    rw [hc, Option.some_inj] at h
    exact Or.inr (Or.inr ⟨w, p, rfl, h.symm⟩)

/-- A call whose frame is still the innermost one when it fails has changed
nothing, whatever happened in between. -/
theorem rollback_of_call {c : C} {m₁ m₂ m₃ : Machine T W P} (hc : m.step H (.call c) = some m₁)
    (hopen : m₁.frames ≠ m.frames) (hf : m₂.frames = m₁.frames)
    (h : m₂.step H (.answer false) = some m₃) : m₃.world = m.world ∧ m₃.frames = m.frames := by
  rcases step_call_cases hc with ⟨e, -, rfl⟩ | ⟨w, -, rfl⟩ | ⟨w, p, -, rfl⟩
  · exact absurd rfl hopen
  · exact absurd rfl hopen
  · obtain ⟨hw, hfs, -⟩ := step_answer_false hf h
    exact ⟨hw, hfs⟩

/-- What a relation between worlds and stacks has to satisfy to be an
invariant of the runs whose steps meet `φ`. -/
structure Stable (H : Handler T C P E W) (φ : Machine T W P → Label T C → Prop)
    (R : T → W → List (Frame W P) → Prop) : Prop where
  advance : ∀ {t t' : T} {w : W}, t ≤ t' → R t w [] → R t' w []
  settled : ∀ {m : Machine T W P} {c : C} {w : W}, φ m (.call c) → R m.now m.world m.frames →
    H.handle m.now c m.world = .settled w → R m.now w m.frames
  outgoing : ∀ {m : Machine T W P} {c : C} {w : W} {p : P}, φ m (.call c) →
    R m.now m.world m.frames → H.handle m.now c m.world = .outgoing w p →
      R m.now w (.pending m.world p :: m.frames)
  enter : ∀ {t : T} {w : W} {fs : List (Frame W P)}, R t w fs → R t w (.foreign w :: fs)
  commit : ∀ {t : T} {w : W} {f : Frame W P} {fs : List (Frame W P)},
    R t w (f :: fs) → R t f.saved fs → R t (f.commit H w) fs

/-- One step keeps a stable relation. -/
theorem Holds.step {φ : Machine T W P → Label T C → Prop} {R : T → W → List (Frame W P) → Prop}
    (hR : Stable H φ R) {l : Label T C} (hm : m.Holds R) (hl : φ m l)
    (hs : m.step H l = some m') : m'.Holds R := by
  cases l with
  | advance t =>
    simp only [Machine.step, Option.ite_none_right_eq_some, Option.some_inj] at hs
    obtain ⟨⟨hempty, ht⟩, rfl⟩ := hs
    have hnil : m.frames = [] := List.isEmpty_iff.mp hempty
    have htop := hm.top
    rw [hnil] at htop
    show Nested (R t) m.world m.frames
    rw [hnil]
    exact hR.advance ht htop
  | call c =>
    rcases step_call_cases hs with ⟨e, -, rfl⟩ | ⟨w, hc, rfl⟩ | ⟨w, p, hc, rfl⟩
    · exact hm
    · exact Nested.replace hm (hR.settled (m := m) hl hm.top hc)
    · exact ⟨hR.outgoing (m := m) hl hm.top hc, hm⟩
  | enter =>
    simp only [Machine.step, Option.some_inj] at hs
    subst hs
    exact ⟨hR.enter hm.top, hm⟩
  | answer ok =>
    cases hf : m.frames with
    | nil => simp [Machine.step, hf] at hs
    | cons f fs =>
      simp only [Machine.step, hf, Option.some_inj] at hs
      subst hs
      have hn : Nested (R m.now) m.world (f :: fs) := hf ▸ hm
      cases ok with
      | false => exact hn.2
      | true => exact Nested.replace hn.2 (hR.commit hn.1 (Nested.top hn.2))

/-- **Stack invariants over runs.** -/
theorem holds_of_reach {φ : Machine T W P → Label T C → Prop}
    {R : T → W → List (Frame W P) → Prop} (hR : Stable H φ R)
    (hr : Transition.Reach (Machine.step H) φ m m') (hm : m.Holds R) : m'.Holds R :=
  hr.invariant hm fun _ _ _ _ hI hl hs => hI.step hR hl hs

/-- A property of worlds alone: kept by every call and by every resumption. -/
structure Kept (H : Handler T C P E W) (φ : Machine T W P → Label T C → Prop)
    (I : T → W → Prop) : Prop where
  advance : ∀ {t t' : T} {w : W}, t ≤ t' → I t w → I t' w
  settled : ∀ {m : Machine T W P} {c : C} {w : W}, φ m (.call c) → I m.now m.world →
    H.handle m.now c m.world = .settled w → I m.now w
  outgoing : ∀ {m : Machine T W P} {c : C} {w : W} {p : P}, φ m (.call c) → I m.now m.world →
    H.handle m.now c m.world = .outgoing w p → I m.now w
  resume : ∀ {t : T} {w : W} {p : P}, I t w → I t (H.resume p w)

omit [DecidableLE T] in
theorem Kept.stable {φ : Machine T W P → Label T C → Prop} {I : T → W → Prop}
    (h : Kept H φ I) : Stable H φ fun t w _ => I t w where
  advance := h.advance
  settled := h.settled
  outgoing := h.outgoing
  enter := id
  commit {_ _ f _} hw _ := by
    cases f with
    | pending s p => exact h.resume hw
    | foreign s => exact hw

/-- **World invariants over runs**, started with no frame open. -/
theorem Kept.of_reach {φ : Machine T W P → Label T C → Prop} {I : T → W → Prop}
    (h : Kept H φ I) (hr : Transition.Reach (Machine.step H) φ m m') (hf : m.frames = [])
    (hm : I m.now m.world) : I m'.now m'.world := by
  refine Holds.top (holds_of_reach h.stable hr ?_)
  show Nested _ m.world m.frames
  rw [hf]
  exact hm

end Machine

end Rollback
