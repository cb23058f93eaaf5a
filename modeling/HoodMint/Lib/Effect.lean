/-
Programs that issue commands to an environment.

A program either returns, fails, or issues a command and continues with the answer,
which may itself be a failure.  Nothing is assumed of the environment: a run is any
sequence of answers, and it may break off before or during any command.

* `Prog`, `Prog.andThen` — programs and the one way of composing them; `bind` and
  `tryCatch` are instances of it;
* `Prog.Runs` — the runs of a program, as the list of commands with their answers;
* `Monitor` — a state that follows a run, what it assumes of an answer and what it
  demands of a command when it is issued;
* `Prog.wp` — the weakest precondition under a monitor, with its rules, and
  `Prog.sound`: a program that meets it keeps to the monitor in every run;
  `Prog.onReturn` is a postcondition that says nothing of failures, `Prog.returnsOr` one that
  says what they mean;
* `Prog.may` — the dual: some run with possible answers ends in the postcondition;
  `Monitor.smooth` leaves out the failures;
* `Monitor.family` — a family of monitors as one, with `Prog.wp_family`;
* `Prog.Breaks` — some run issues a command the monitor's guard forbids;
* `Prog.Plain` — a program that catches nothing;
* `Prog.Only` — the commands a program can issue at all; with `Monitor.Maintains`, what
  follows when a monitor treats all of these alike (`Prog.Only.wp_of`);
* `Monitor.audit` — a monitor's own book-keeping; with it, the runs of possible answers
  are those that keep to the monitor (`Prog.admits_iff_keeps`);
* `Prog.exec` — the run against one environment, for exhibiting it; `Prog.against`, when the
  environment answers by the command alone, for comparing two of them.
-/
import Mathlib.Data.List.Basic

namespace Effect

/-- The commands, each with the type of its answer. -/
structure Signature where
  Cmd : Type
  Resp : Cmd → Type

/-- A program over the commands of `S` that may fail with an `ε`. -/
inductive Prog (S : Signature) (ε α : Type) : Type
  | ret (a : α)
  | fail (e : ε)
  | call (c : S.Cmd) (k : Except ε (S.Resp c) → Prog S ε α)

variable {S : Signature} {ε α β σ : Type}

namespace Prog

/-- Run `p`, then continue with its result, whether it returned or failed. -/
def andThen : Prog S ε α → (Except ε α → Prog S ε β) → Prog S ε β
  | ret a, k => k (.ok a)
  | fail e, k => k (.error e)
  | call c k', k => call c fun x => (k' x).andThen k

/-- Continue with a returned value; a failure passes through. -/
def bind (p : Prog S ε α) (f : α → Prog S ε β) : Prog S ε β :=
  p.andThen fun
    | .ok a => f a
    | .error e => fail e

/-- Continue with a failure; a returned value passes through. -/
def handle (p : Prog S ε α) (h : ε → Prog S ε α) : Prog S ε α :=
  p.andThen fun
    | .ok a => ret a
    | .error e => h e

/-- The result of `p` as a value. -/
def attempt (p : Prog S ε α) : Prog S ε (Except ε α) :=
  p.andThen ret

/-- Issue one command. -/
def issue (c : S.Cmd) : Prog S ε (S.Resp c) :=
  call c fun
    | .ok a => ret a
    | .error e => fail e

instance : Monad (Prog S ε) where
  pure := ret
  bind := bind

instance : MonadExcept ε (Prog S ε) where
  throw := fail
  tryCatch := handle

end Prog

/-! ### Runs -/

/-- A command and what the environment answered. -/
structure Event (S : Signature) (ε : Type) where
  cmd : S.Cmd
  answer : Except ε (S.Resp cmd)

/-- How a run ends: with a result, broken off between two commands, or broken off
after issuing a command and before its answer. -/
inductive Ending (S : Signature) (ε α : Type)
  | finished (r : Except ε α)
  | crashed
  | lost (c : S.Cmd)

/-- The runs of a program. -/
inductive Prog.Runs : Prog S ε α → List (Event S ε) → Ending S ε α → Prop
  | ret (a : α) : Runs (.ret a) [] (.finished (.ok a))
  | fail (e : ε) : Runs (.fail e) [] (.finished (.error e))
  | crashed (p : Prog S ε α) : Runs p [] .crashed
  | lost (c : S.Cmd) (k : Except ε (S.Resp c) → Prog S ε α) : Runs (.call c k) [] (.lost c)
  | call {c : S.Cmd} {k : Except ε (S.Resp c) → Prog S ε α} (x : Except ε (S.Resp c))
      {tr : List (Event S ε)} {e : Ending S ε α} :
      Runs (k x) tr e → Runs (.call c k) (⟨c, x⟩ :: tr) e

/-- A state that follows a run: what a command must meet when it is issued, which
answers are assumed possible, and how the state moves on. -/
structure Monitor (S : Signature) (ε σ : Type) where
  guard : σ → S.Cmd → Prop
  allowed : (s : σ) → (c : S.Cmd) → Except ε (S.Resp c) → Prop
  next : (s : σ) → (c : S.Cmd) → Except ε (S.Resp c) → σ

namespace Monitor

/-- The commands of `C` may be issued in `P`, and keep it. -/
def Maintains (M : Monitor S ε σ) (C : S.Cmd → Prop) (P : σ → Prop) : Prop :=
  ∀ s c, C c → P s → M.guard s c ∧ ∀ x, M.allowed s c x → P (M.next s c x)

theorem Maintains.mono {M : Monitor S ε σ} {C D : S.Cmd → Prop} {P : σ → Prop}
    (h : M.Maintains D P) (hCD : ∀ c, C c → D c) : M.Maintains C P :=
  fun s c hc => h s c (hCD c hc)

/-- Every answer of the run is one the monitor assumes possible. -/
def Admits (M : Monitor S ε σ) : σ → List (Event S ε) → Prop
  | _, [] => True
  | s, e :: tr => M.allowed s e.cmd e.answer ∧ Admits M (M.next s e.cmd e.answer) tr

/-- The state after a run. -/
def after (M : Monitor S ε σ) : σ → List (Event S ε) → σ
  | s, [] => s
  | s, e :: tr => after M (M.next s e.cmd e.answer) tr

/-- Every command of the run, the last unanswered one included, meets the guard when
it is issued. -/
def Keeps (M : Monitor S ε σ) : σ → List (Event S ε) → Ending S ε α → Prop
  | s, [], .lost c => M.guard s c
  | _, [], _ => True
  | s, e :: tr, en => M.guard s e.cmd ∧ Keeps M (M.next s e.cmd e.answer) tr en

/-- What the commands that meet the guard keep, holds after a run that keeps to the monitor. -/
theorem Keeps.invariant {M : Monitor S ε σ} {I : σ → Prop} {s : σ} {tr : List (Event S ε)}
    {en : Ending S ε α} (h : M.Keeps s tr en)
    (hI : ∀ s c x, I s → M.guard s c → I (M.next s c x)) (hs : I s) : I (M.after s tr) := by
  induction tr generalizing s with
  | nil => exact hs
  | cons e tr ih => exact ih h.2 (hI s e.cmd e.answer hs h.1)

/-- What the commands that meet the guard keep, when their answers are possible ones, holds after a
run that keeps to the monitor. -/
theorem Keeps.invariant_of_admits {M : Monitor S ε σ} {I : σ → Prop} {s : σ}
    {tr : List (Event S ε)} {en : Ending S ε α} (h : M.Keeps s tr en) (ha : M.Admits s tr)
    (hI : ∀ s c x, I s → M.guard s c → M.allowed s c x → I (M.next s c x)) (hs : I s) :
    I (M.after s tr) := by
  induction tr generalizing s with
  | nil => exact hs
  | cons e tr ih => exact ih h.2 ha.2 (hI s e.cmd e.answer hs h.1 ha.1)

/-- A monitor that assumes nothing of an answer. -/
theorem admits_of_forall {M : Monitor S ε σ} (h : ∀ s c x, M.allowed s c x) (s : σ)
    (tr : List (Event S ε)) : M.Admits s tr := by
  induction tr generalizing s with
  | nil => trivial
  | cons e tr ih => exact ⟨h _ _ _, ih _⟩

/-- The answers of the monitor that are no failures. -/
def smooth (M : Monitor S ε σ) : Monitor S ε σ :=
  { M with allowed := fun s c x => (∃ a, x = .ok a) ∧ M.allowed s c x }

theorem admits_of_smooth {M : Monitor S ε σ} {s : σ} {tr : List (Event S ε)}
    (h : M.smooth.Admits s tr) : M.Admits s tr := by
  induction tr generalizing s with
  | nil => trivial
  | cons e tr ih => exact ⟨h.1.2, ih h.2⟩

theorem after_smooth {M : Monitor S ε σ} (s : σ) (tr : List (Event S ε)) :
    M.smooth.after s tr = M.after s tr := by
  induction tr generalizing s with
  | nil => rfl
  | cons e tr ih => exact ih _

/-- A family of monitors as one: the state names the member that is followed. -/
def family {ι : Type} (M : ι → Monitor S ε σ) : Monitor S ε (ι × σ) where
  guard s c := (M s.1).guard s.2 c
  allowed s c x := (M s.1).allowed s.2 c x
  next s c x := (s.1, (M s.1).next s.2 c x)

/-- Guards that say the same of every command of a run are kept by the same runs. -/
theorem keeps_congr {M N : Monitor S ε σ} {s : σ} {tr : List (Event S ε)} {en : Ending S ε α}
    (hnext : N.next = M.next) (h : Keeps { M with guard := fun s c => M.guard s c ↔ N.guard s c }
      s tr en) : M.Keeps s tr en ↔ N.Keeps s tr en := by
  induction tr generalizing s with
  | nil =>
    cases en with
    | finished r => exact Iff.rfl
    | crashed => exact Iff.rfl
    | lost c => exact h
  | cons e tr ih =>
    show M.guard s e.cmd ∧ M.Keeps (M.next s e.cmd e.answer) tr en ↔
      N.guard s e.cmd ∧ N.Keeps (N.next s e.cmd e.answer) tr en
    rw [hnext]
    exact and_congr h.1 (ih h.2)

instance decidableAdmits (M : Monitor S ε σ) [∀ s c x, Decidable (M.allowed s c x)] :
    ∀ s tr, Decidable (M.Admits s tr)
  | _, [] => isTrue trivial
  | s, e :: tr =>
    have := decidableAdmits M (M.next s e.cmd e.answer) tr
    inferInstanceAs (Decidable (_ ∧ _))

instance decidableKeeps (M : Monitor S ε σ) [∀ s c, Decidable (M.guard s c)] :
    ∀ s tr (en : Ending S ε α), Decidable (M.Keeps s tr en)
  | s, [], .lost c => inferInstanceAs (Decidable (M.guard s c))
  | _, [], .finished _ => isTrue trivial
  | _, [], .crashed => isTrue trivial
  | s, e :: tr, en =>
    have := decidableKeeps M (M.next s e.cmd e.answer) tr en
    inferInstanceAs (Decidable (_ ∧ _))

end Monitor

/-! ### Weakest preconditions -/

namespace Prog

variable {M : Monitor S ε σ} {p : Prog S ε α} {Q R : Except ε α → σ → Prop} {s : σ}

/-- Every run of the program from `s` keeps to the monitor and ends in `Q`. -/
def wp (M : Monitor S ε σ) : Prog S ε α → (Except ε α → σ → Prop) → σ → Prop
  | ret a, Q, s => Q (.ok a) s
  | fail e, Q, s => Q (.error e) s
  | call c k, Q, s => M.guard s c ∧ ∀ x, M.allowed s c x → (k x).wp M Q (M.next s c x)

theorem wp_mono (h : p.wp M Q s) (hQ : ∀ r s', Q r s' → R r s') : p.wp M R s := by
  induction p generalizing s with
  | ret a => exact hQ _ _ h
  | fail e => exact hQ _ _ h
  | call c k ih => exact ⟨h.1, fun x hx => ih x (h.2 x hx)⟩

/-- What is known of a program in two ways is known at once. -/
theorem wp_and (hQ : p.wp M Q s) (hR : p.wp M R s) : p.wp M (fun r s' => Q r s' ∧ R r s') s := by
  induction p generalizing s with
  | ret a => exact ⟨hQ, hR⟩
  | fail e => exact ⟨hQ, hR⟩
  | call c k ih => exact ⟨hQ.1, fun x hx => ih x (hQ.2 x hx) (hR.2 x hx)⟩

theorem wp_andThen {k : Except ε α → Prog S ε β} {Q : Except ε β → σ → Prop} :
    (p.andThen k).wp M Q s ↔ p.wp M (fun r s' => (k r).wp M Q s') s := by
  induction p generalizing s with
  | ret a => rfl
  | fail e => rfl
  | call c k' ih => exact and_congr_right fun _ => forall₂_congr fun x _ => ih x

@[simp] theorem wp_pure (a : α) : (pure a : Prog S ε α).wp M Q s ↔ Q (.ok a) s := Iff.rfl

@[simp] theorem wp_throw (e : ε) : (throw e : Prog S ε α).wp M Q s ↔ Q (.error e) s := Iff.rfl

/-- What is computed issues no command. -/
theorem wp_ofExcept {x : Except ε α} :
    (MonadExcept.ofExcept x : Prog S ε α).wp M Q s ↔ Q x s := by
  cases x with
  | ok a => exact Iff.rfl
  | error e => exact Iff.rfl

theorem wp_bind {f : α → Prog S ε β} {Q : Except ε β → σ → Prop} :
    (p >>= f).wp M Q s ↔ p.wp M (fun r s' => match r with
      | .ok a => (f a).wp M Q s'
      | .error e => Q (.error e) s') s := by
  refine wp_andThen.trans ⟨fun h => wp_mono h ?_, fun h => wp_mono h ?_⟩ <;>
  · rintro (e | a) s' h
    · exact h
    · exact h

theorem wp_tryCatch {h : ε → Prog S ε α} :
    (tryCatch p h).wp M Q s ↔ p.wp M (fun r s' => match r with
      | .ok a => Q (.ok a) s'
      | .error e => (h e).wp M Q s') s := by
  refine wp_andThen.trans ⟨fun hw => wp_mono hw ?_, fun hw => wp_mono hw ?_⟩ <;>
  · rintro (e | a) s' hw
    · exact hw
    · exact hw

theorem wp_attempt {Q : Except ε (Except ε α) → σ → Prop} :
    p.attempt.wp M Q s ↔ p.wp M (fun r => Q (.ok r)) s :=
  wp_andThen

theorem wp_issue {c : S.Cmd} {Q : Except ε (S.Resp c) → σ → Prop} :
    (issue c).wp M Q s ↔
      M.guard s c ∧ ∀ x, M.allowed s c x → Q x (M.next s c x) := by
  refine and_congr_right fun _ => forall₂_congr fun x _ => ?_
  cases x with
  | error e => exact Iff.rfl
  | ok a => exact Iff.rfl

/-- A program stays with the member of a family it starts with. -/
theorem wp_family {ι : Type} {M : ι → Monitor S ε σ} {i : ι} {Q : Except ε α → ι × σ → Prop} :
    p.wp (Monitor.family M) Q (i, s) ↔ p.wp (M i) (fun r s' => Q r (i, s')) s := by
  induction p generalizing s with
  | ret a => rfl
  | fail e => rfl
  | call c k ih => exact and_congr_right fun _ => forall₂_congr fun x _ => ih x

/-- Sequencing with what the first part is known to establish. -/
theorem wp_bind_of {f : α → Prog S ε β} {Q : Except ε β → σ → Prop} (hp : p.wp M R s)
    (hok : ∀ a s', R (.ok a) s' → (f a).wp M Q s')
    (herr : ∀ e s', R (.error e) s' → Q (.error e) s') : (p >>= f).wp M Q s := by
  refine wp_bind.mpr (wp_mono hp ?_)
  rintro (e | a) s' h
  · exact herr e s' h
  · exact hok a s' h

theorem wp_tryCatch_of {h : ε → Prog S ε α} (hp : p.wp M R s)
    (hok : ∀ a s', R (.ok a) s' → Q (.ok a) s')
    (herr : ∀ e s', R (.error e) s' → (h e).wp M Q s') : (tryCatch p h).wp M Q s := by
  refine wp_tryCatch.mpr (wp_mono hp ?_)
  rintro (e | a) s' h'
  · exact herr e s' h'
  · exact hok a s' h'

/-- Issue a command and continue with its answer. -/
theorem wp_issue_bind {c : S.Cmd} {f : S.Resp c → Prog S ε β} {Q : Except ε β → σ → Prop}
    (hguard : M.guard s c)
    (hok : ∀ a, M.allowed s c (.ok a) → (f a).wp M Q (M.next s c (.ok a)))
    (herr : ∀ e, M.allowed s c (.error e) → Q (.error e) (M.next s c (.error e))) :
    (issue c >>= f).wp M Q s := by
  refine wp_bind.mpr (wp_issue.mpr ⟨hguard, ?_⟩)
  rintro (e | a) hx
  · exact herr e hx
  · exact hok a hx

/-- A branch is safe when both sides are, each under its own condition. -/
theorem wp_ite {c : Prop} [Decidable c] {q : Prog S ε α} (hp : c → p.wp M Q s)
    (hq : ¬ c → q.wp M Q s) : (if c then p else q).wp M Q s := by
  split
  · exact hp ‹c›
  · exact hq ‹¬ c›

/-- A failure returns nothing. -/
theorem of_error {e : ε} {P : α → Prop} (a : α) (h : (Except.error e : Except ε α) = .ok a) : P a :=
  absurd h (by simp)

/-- A postcondition of the value returned, if one is. -/
def onReturn (P : α → σ → Prop) : Except ε α → σ → Prop
  | .ok a, s => P a s
  | .error _, _ => True

theorem onReturn_bind {P : α → σ → Prop} {P' : β → σ → Prop} {f : α → Prog S ε β}
    (hp : p.wp M (onReturn P) s) (hf : ∀ a s', P a s' → (f a).wp M (onReturn P') s') :
    (p >>= f).wp M (onReturn P') s :=
  wp_bind_of hp hf fun _ _ _ => trivial

theorem onReturn_issue {c : S.Cmd} {P : S.Resp c → σ → Prop} (hguard : M.guard s c)
    (hok : ∀ a, M.allowed s c (.ok a) → P a (M.next s c (.ok a))) :
    (issue c).wp M (onReturn P) s := by
  refine wp_issue.mpr ⟨hguard, ?_⟩
  rintro (e | a) hx
  · trivial
  · exact hok a hx

theorem onReturn_issue_bind {c : S.Cmd} {f : S.Resp c → Prog S ε β} {P : β → σ → Prop}
    (hguard : M.guard s c)
    (hok : ∀ a, M.allowed s c (.ok a) → (f a).wp M (onReturn P) (M.next s c (.ok a))) :
    (issue c >>= f).wp M (onReturn P) s :=
  wp_issue_bind hguard hok fun _ _ => trivial

/-- A postcondition of the value returned; a failure means `B`. -/
def returnsOr (B : Prop) (P : α → σ → Prop) : Except ε α → σ → Prop
  | .ok a, s => P a s
  | .error _, _ => B

section

variable {B : Prop}

theorem returnsOr_mono {P P' : α → σ → Prop} (h : p.wp M (returnsOr B P) s)
    (hP : ∀ a s', P a s' → P' a s') : p.wp M (returnsOr B P') s := by
  refine wp_mono h ?_
  rintro (e | a) s' h
  · exact h
  · exact hP a s' h

theorem returnsOr_bind {P : α → σ → Prop} {P' : β → σ → Prop} {f : α → Prog S ε β}
    (hp : p.wp M (returnsOr B P) s) (hf : ∀ a s', P a s' → (f a).wp M (returnsOr B P') s') :
    (p >>= f).wp M (returnsOr B P') s :=
  wp_bind_of hp hf fun _ _ h => h

end

/-- **Soundness.**  A run whose answers are all possible keeps to the monitor, and
when it finishes its result is in the postcondition. -/
theorem sound (h : p.wp M Q s) {tr : List (Event S ε)} {en : Ending S ε α} (hr : p.Runs tr en)
    (ha : M.Admits s tr) :
    M.Keeps s tr en ∧ ∀ r, en = .finished r → Q r (M.after s tr) := by
  induction hr generalizing s with
  | ret a => exact ⟨trivial, fun r hr => by cases hr; exact h⟩
  | fail e => exact ⟨trivial, fun r hr => by cases hr; exact h⟩
  | crashed p => exact ⟨trivial, fun r hr => nomatch hr⟩
  | lost c k => exact ⟨h.1, fun r hr => nomatch hr⟩
  | call x _ ih =>
    obtain ⟨hk, hq⟩ := ih (h.2 x ha.1) ha.2
    exact ⟨⟨h.1, hk⟩, hq⟩

/-! ### Possible runs -/

/-- Some finished run of the program from `s`, with possible answers, ends in `Q`. -/
def may (M : Monitor S ε σ) : Prog S ε α → (Except ε α → σ → Prop) → σ → Prop
  | ret a, Q, s => Q (.ok a) s
  | fail e, Q, s => Q (.error e) s
  | call c k, Q, s => ∃ x, M.allowed s c x ∧ (k x).may M Q (M.next s c x)

theorem may_andThen {k : Except ε α → Prog S ε β} {Q : Except ε β → σ → Prop} :
    (p.andThen k).may M Q s ↔ p.may M (fun r s' => (k r).may M Q s') s := by
  induction p generalizing s with
  | ret a => rfl
  | fail e => rfl
  | call c k' ih => exact exists_congr fun x => and_congr_right fun _ => ih x

theorem may_mono (h : p.may M Q s) (hQ : ∀ r s', Q r s' → R r s') : p.may M R s := by
  induction p generalizing s with
  | ret a => exact hQ _ _ h
  | fail e => exact hQ _ _ h
  | call c k ih =>
    obtain ⟨x, hx, h⟩ := h
    exact ⟨x, hx, ih x h⟩

theorem may_bind_of {f : α → Prog S ε β} {Q : Except ε β → σ → Prop} (hp : p.may M R s)
    (hok : ∀ a s', R (.ok a) s' → (f a).may M Q s')
    (herr : ∀ e s', R (.error e) s' → Q (.error e) s') : (p >>= f).may M Q s := by
  refine may_andThen.mpr (may_mono hp ?_)
  rintro (e | a) s' h
  · exact herr e s' h
  · exact hok a s' h

/-- Sequencing a part that may return `a`. -/
theorem may_bind {f : α → Prog S ε β} {Q : Except ε β → σ → Prop} (a : α)
    (h : p.may M (fun r s' => r = .ok a ∧ (f a).may M Q s') s) : (p >>= f).may M Q s := by
  refine may_andThen.mpr (may_mono h ?_)
  rintro r s' ⟨rfl, h⟩
  exact h

theorem may_attempt {Q : Except ε (Except ε α) → σ → Prop} :
    p.attempt.may M Q s ↔ p.may M (fun r => Q (.ok r)) s :=
  may_andThen

theorem may_tryCatch_of {h : ε → Prog S ε α} (hp : p.may M R s)
    (hok : ∀ a s', R (.ok a) s' → Q (.ok a) s')
    (herr : ∀ e s', R (.error e) s' → (h e).may M Q s') : (tryCatch p h).may M Q s := by
  refine may_andThen.mpr (may_mono hp ?_)
  rintro (e | a) s' h'
  · exact herr e s' h'
  · exact hok a s' h'

theorem may_issue {c : S.Cmd} {Q : Except ε (S.Resp c) → σ → Prop} (x : Except ε (S.Resp c))
    (hx : M.allowed s c x) (h : Q x (M.next s c x)) : (issue c).may M Q s := by
  refine ⟨x, hx, ?_⟩
  cases x with
  | error e => exact h
  | ok a => exact h

/-- What every run does, some run does, when every command has a possible answer. -/
theorem may_of_wp (hne : ∀ s c, ∃ x, M.allowed s c x) (h : p.wp M Q s) : p.may M Q s := by
  induction p generalizing s with
  | ret a => exact h
  | fail e => exact h
  | call c k ih =>
    obtain ⟨x, hx⟩ := hne s c
    exact ⟨x, hx, ih x (h.2 x hx)⟩

/-- Where nothing fails only what is returned matters. -/
theorem smooth_issue_bind {c : S.Cmd} {f : S.Resp c → Prog S ε β} {Q : Except ε β → σ → Prop}
    (hguard : M.guard s c)
    (hok : ∀ a, M.allowed s c (.ok a) → (f a).wp M.smooth Q (M.next s c (.ok a))) :
    (issue c >>= f).wp M.smooth Q s := by
  refine wp_issue_bind hguard (fun a ha => hok a ha.2) ?_
  rintro e ⟨⟨a, ha⟩, _⟩
  cases ha

/-- What may happen is exhibited by a run. -/
theorem exists_run (h : p.may M Q s) :
    ∃ tr r, p.Runs tr (.finished r) ∧ M.Admits s tr ∧ Q r (M.after s tr) := by
  induction p generalizing s with
  | ret a => exact ⟨[], _, .ret a, trivial, h⟩
  | fail e => exact ⟨[], _, .fail e, trivial, h⟩
  | call c k ih =>
    obtain ⟨x, hx, h⟩ := h
    obtain ⟨tr, r, hr, ha, hq⟩ := ih x h
    exact ⟨⟨c, x⟩ :: tr, r, .call x hr, ⟨hx, ha⟩, hq⟩

/-! ### Runs that break the monitor -/

/-- Some run of the program from `s`, with possible answers, issues a command against the
guard. -/
def Breaks (M : Monitor S ε σ) : Prog S ε α → σ → Prop
  | ret _, _ => False
  | fail _, _ => False
  | call c k, s => ¬ M.guard s c ∨ ∃ x, M.allowed s c x ∧ (k x).Breaks M (M.next s c x)

namespace Breaks

theorem andThen_left {k : Except ε α → Prog S ε β} (h : p.Breaks M s) :
    (p.andThen k).Breaks M s := by
  induction p generalizing s with
  | ret => exact absurd h id
  | fail => exact absurd h id
  | call c k' ih =>
    rcases h with h | ⟨x, hx, h⟩
    · exact Or.inl h
    · exact Or.inr ⟨x, hx, ih x h⟩

theorem andThen_right {k : Except ε α → Prog S ε β}
    (h : p.may M (fun r s' => (k r).Breaks M s') s) : (p.andThen k).Breaks M s := by
  induction p generalizing s with
  | ret => exact h
  | fail => exact h
  | call c k' ih =>
    obtain ⟨x, hx, h⟩ := h
    exact Or.inr ⟨x, hx, ih x h⟩

theorem bind_left {f : α → Prog S ε β} (h : p.Breaks M s) : (p >>= f).Breaks M s :=
  h.andThen_left

theorem tryCatch {f : ε → Prog S ε α} (h : p.Breaks M s) : (tryCatch p f).Breaks M s :=
  h.andThen_left

theorem attempt (h : p.Breaks M s) : p.attempt.Breaks M s := h.andThen_left

/-- The first part may return `a`, and the rest then breaks the monitor. -/
theorem bind {f : α → Prog S ε β} (a : α)
    (h : p.may M (fun r s' => r = .ok a ∧ (f a).Breaks M s') s) : (p >>= f).Breaks M s := by
  refine andThen_right (may_mono h ?_)
  rintro _ s' ⟨rfl, h⟩
  exact h

theorem issue {c : S.Cmd} (h : ¬ M.guard s c) : (issue c : Prog S ε _).Breaks M s := Or.inl h

/-- What may break the monitor is exhibited by a run. -/
theorem exists_run (h : p.Breaks M s) :
    ∃ tr en, p.Runs tr en ∧ M.Admits s tr ∧ ¬ M.Keeps s tr en := by
  induction p generalizing s with
  | ret => exact absurd h id
  | fail => exact absurd h id
  | call c k ih =>
    rcases h with h | ⟨x, hx, h⟩
    · exact ⟨[], .lost c, .lost c k, trivial, h⟩
    · obtain ⟨tr, en, hr, ha, hk⟩ := ih x h
      exact ⟨⟨c, x⟩ :: tr, en, .call x hr, ⟨hx, ha⟩, fun hkeep => hk hkeep.2⟩

end Breaks

/-! ### Programs of a few commands -/

/-- The program issues commands of `C` only. -/
def Only (C : S.Cmd → Prop) : Prog S ε α → Prop
  | ret _ => True
  | fail _ => True
  | call c k => C c ∧ ∀ x, (k x).Only C

namespace Only

variable {C D : S.Cmd → Prop}

theorem mono (h : p.Only C) (hCD : ∀ c, C c → D c) : p.Only D := by
  induction p with
  | ret => trivial
  | fail => trivial
  | call c k ih => exact ⟨hCD c h.1, fun x => ih x (h.2 x)⟩

theorem andThen {k : Except ε α → Prog S ε β} (h : p.Only C) (hk : ∀ r, (k r).Only C) :
    (p.andThen k).Only C := by
  induction p with
  | ret a => exact hk _
  | fail e => exact hk _
  | call c k' ih => exact ⟨h.1, fun x => ih x (h.2 x)⟩

theorem pure (a : α) : (pure a : Prog S ε α).Only C := trivial

theorem throw (e : ε) : (throw e : Prog S ε α).Only C := trivial

theorem bind {f : α → Prog S ε β} (h : p.Only C) (hf : ∀ a, (f a).Only C) :
    (p >>= f).Only C := by
  refine h.andThen ?_
  rintro (e | a)
  · trivial
  · exact hf a

theorem tryCatch {f : ε → Prog S ε α} (h : p.Only C) (hf : ∀ e, (f e).Only C) :
    (tryCatch p f).Only C := by
  refine h.andThen ?_
  rintro (e | a)
  · exact hf e
  · trivial

theorem attempt (h : p.Only C) : p.attempt.Only C := h.andThen fun _ => trivial

theorem issue {c : S.Cmd} (h : C c) : (issue c : Prog S ε _).Only C := by
  refine ⟨h, ?_⟩
  rintro (e | a)
  · trivial
  · trivial

/-- What a monitor keeps through each of the commands, it keeps through the program. -/
theorem wp {I : σ → Prop} (h : p.Only C) (hguard : ∀ s c, C c → I s → M.guard s c)
    (hnext : ∀ s c x, C c → I s → M.allowed s c x → I (M.next s c x)) (hs : I s) :
    p.wp M (fun _ s' => I s') s := by
  induction p generalizing s with
  | ret => exact hs
  | fail => exact hs
  | call c k ih =>
    exact ⟨hguard s c h.1 hs, fun x hx => ih x (h.2 x) (hnext s c x h.1 hs hx)⟩

/-- What the commands maintain, the program maintains. -/
theorem wp_of {P : σ → Prop} (h : p.Only C) (hM : M.Maintains C P) (hs : P s) :
    p.wp M (fun _ s' => P s') s :=
  h.wp (fun s c hc hP => (hM s c hc hP).1) (fun s c x hc hP hx => (hM s c hc hP).2 x hx) hs

/-- Whatever the commands are. -/
theorem all (p : Prog S ε α) : p.Only fun _ => True := by
  induction p with
  | ret => trivial
  | fail => trivial
  | call c k ih => exact ⟨trivial, ih⟩

end Only

/-! ### Programs that catch nothing -/

/-- The program fails only where a command fails, and with what that throws. -/
def Plain : Prog S ε α → Prop
  | ret _ => True
  | fail _ => False
  | call _ k => (∀ a, (k (.ok a)).Plain) ∧ ∀ e, k (.error e) = fail e

namespace Plain

theorem pure (a : α) : (pure a : Prog S ε α).Plain := trivial

theorem issue (c : S.Cmd) : (issue c : Prog S ε _).Plain := ⟨fun _ => trivial, fun _ => rfl⟩

theorem bind {f : α → Prog S ε β} (h : p.Plain) (hf : ∀ a, (f a).Plain) : (p >>= f).Plain := by
  induction p with
  | ret a => exact hf a
  | fail => exact absurd h id
  | call c k ih =>
    refine ⟨fun a => ih _ (h.1 a), fun e => ?_⟩
    show (k (.error e)).andThen _ = fail e
    rw [h.2 e]
    rfl

theorem map {f : α → β} (h : p.Plain) : (f <$> p).Plain := h.bind fun _ => pure _

end Plain

end Prog

/-! ### Auditing a run -/

/-- The state of a monitor, whether every answer so far was one it assumes possible, and
whether every command so far met its guard. -/
structure Audit (σ : Type) where
  state : σ
  admitted : Prop
  kept : Prop

/-- The monitor that follows another one beyond the first answer it does not assume possible.
Until then the guards are the same. -/
def Monitor.audit (M : Monitor S ε σ) : Monitor S ε (Audit σ) where
  guard t c := t.admitted → M.guard t.state c
  allowed _ _ _ := True
  next t c x := ⟨M.next t.state c x, t.admitted ∧ M.allowed t.state c x,
    t.kept ∧ M.guard t.state c⟩

namespace Prog

variable {M : Monitor S ε σ} {p : Prog S ε α} {tr : List (Event S ε)} {en : Ending S ε α}

theorem admits_audit (t : Audit σ) (tr : List (Event S ε)) : M.audit.Admits t tr :=
  Monitor.admits_of_forall (fun _ _ _ => trivial) t tr

theorem keeps_of_audit {t : Audit σ} (h : M.audit.Keeps t tr en) (hadm : t.admitted)
    (ha : M.Admits t.state tr) : M.Keeps t.state tr en := by
  induction tr generalizing t with
  | nil =>
    cases en with
    | finished => trivial
    | crashed => trivial
    | lost c => exact h hadm
  | cons e tr ih => exact ⟨h.1 hadm, ih h.2 ⟨hadm, ha.1⟩ ha.2⟩

theorem after_audit (t : Audit σ) (tr : List (Event S ε)) (r : Except ε α) :
    ((M.audit.after t tr).admitted ↔ t.admitted ∧ M.Admits t.state tr) ∧
      ((M.audit.after t tr).kept ↔ t.kept ∧ M.Keeps t.state tr (.finished r)) := by
  induction tr generalizing t with
  | nil => exact ⟨(and_iff_left trivial).symm, (and_iff_left trivial).symm⟩
  | cons e tr ih =>
    obtain ⟨hadm, hkept⟩ := ih (M.audit.next t e.cmd e.answer)
    exact ⟨hadm.trans and_assoc, hkept.trans and_assoc⟩

/-- **Auditing.**  A program that meets the guards as long as the answers are possible ones,
and that has broken one when it finishes after an answer which is not, keeps to the monitor in
exactly the finished runs of possible answers. -/
theorem admits_iff_keeps {s : σ} (h : p.wp M.audit (fun _ t => t.kept → t.admitted) ⟨s, True, True⟩)
    (hr : p.Runs tr en) :
    (M.Admits s tr → M.Keeps s tr en) ∧
      ∀ r, en = .finished r → (M.Keeps s tr en ↔ M.Admits s tr) := by
  obtain ⟨hkeeps, hend⟩ := sound h hr (admits_audit _ tr)
  have hto : M.Admits s tr → M.Keeps s tr en := keeps_of_audit hkeeps trivial
  refine ⟨hto, ?_⟩
  rintro r rfl
  refine ⟨fun hk => ?_, hto⟩
  obtain ⟨hadm, hkept⟩ := after_audit (M := M) ⟨s, True, True⟩ tr r
  exact (hadm.mp (hend r rfl (hkept.mpr ⟨trivial, hk⟩))).2

/-! ### Running against one environment -/

/-- The run in which the environment's `n`-th answer is `o n`. -/
def exec (o : ℕ → (c : S.Cmd) → Except ε (S.Resp c)) :
    Prog S ε α → ℕ → List (Event S ε) × Except ε α
  | ret a, _ => ([], .ok a)
  | fail e, _ => ([], .error e)
  | call c k, n =>
    let r := (k (o n c)).exec o (n + 1)
    (⟨c, o n c⟩ :: r.1, r.2)

theorem exec_runs (o : ℕ → (c : S.Cmd) → Except ε (S.Resp c)) (p : Prog S ε α) (n : ℕ) :
    p.Runs (p.exec o n).1 (.finished (p.exec o n).2) := by
  induction p generalizing n with
  | ret a => exact .ret a
  | fail e => exact .fail e
  | call c k ih => exact .call _ (ih _ (n + 1))

/-- The run against an environment that answers by the command alone. -/
def against (o : (c : S.Cmd) → Except ε (S.Resp c)) :
    Prog S ε α → List (Event S ε) × Except ε α
  | ret a => ([], .ok a)
  | fail e => ([], .error e)
  | call c k =>
    let r := (k (o c)).against o
    (⟨c, o c⟩ :: r.1, r.2)

theorem against_runs (o : (c : S.Cmd) → Except ε (S.Resp c)) (p : Prog S ε α) :
    p.Runs (p.against o).1 (.finished (p.against o).2) := by
  induction p with
  | ret a => exact .ret a
  | fail e => exact .fail e
  | call c k ih => exact .call _ (ih _)

/-- The two parts of a program run one after the other. -/
theorem against_andThen (o : (c : S.Cmd) → Except ε (S.Resp c)) (p : Prog S ε α)
    (k : Except ε α → Prog S ε β) :
    (p.andThen k).against o =
      ((p.against o).1 ++ ((k (p.against o).2).against o).1,
        ((k (p.against o).2).against o).2) := by
  induction p with
  | ret a => rfl
  | fail e => rfl
  | call c k' ih =>
    show (_ :: (((k' (o c)).andThen k).against o).1, (((k' (o c)).andThen k).against o).2) = _
    rw [ih]
    rfl

/-- The environment's run is admitted when each of its answers is. -/
theorem exec_admits {o : ℕ → (c : S.Cmd) → Except ε (S.Resp c)}
    (h : ∀ s n c, M.allowed s c (o n c)) (p : Prog S ε α) (n : ℕ) (s : σ) :
    M.Admits s (p.exec o n).1 := by
  induction p generalizing n s with
  | ret => trivial
  | fail => trivial
  | call c k ih => exact ⟨h s n c, ih _ (n + 1) _⟩

/-- The environment's run is admitted when each of its answers is, while `I` holds. -/
theorem exec_admits_of {o : ℕ → (c : S.Cmd) → Except ε (S.Resp c)} {I : σ → Prop}
    (h : ∀ s n c, I s → M.allowed s c (o n c) ∧ I (M.next s c (o n c))) (p : Prog S ε α) (n : ℕ)
    {s : σ} (hs : I s) : M.Admits s (p.exec o n).1 := by
  induction p generalizing n s with
  | ret => trivial
  | fail => trivial
  | call c k ih =>
    obtain ⟨hallowed, hnext⟩ := h s n c hs
    exact ⟨hallowed, ih _ (n + 1) hnext⟩

/-! ### The first answers of an environment -/

/-- The first `n` commands with the environment's answers, and what is left of the program. -/
def feed (o : (c : S.Cmd) → Except ε (S.Resp c)) :
    ℕ → Prog S ε α → List (Event S ε) × Prog S ε α
  | 0, p => ([], p)
  | _ + 1, ret a => ([], ret a)
  | _ + 1, fail e => ([], fail e)
  | n + 1, call c k =>
    let r := (k (o c)).feed o n
    (⟨c, o c⟩ :: r.1, r.2)

/-- What is left breaks the monitor: so does the program. -/
theorem Breaks.of_feed (o : (c : S.Cmd) → Except ε (S.Resp c)) (n : ℕ)
    (ha : M.Admits s (p.feed o n).1) (h : (p.feed o n).2.Breaks M (M.after s (p.feed o n).1)) :
    p.Breaks M s := by
  induction n generalizing p s with
  | zero => exact h
  | succ n ih =>
    cases p with
    | ret => exact h
    | fail => exact h
    | call c k => exact Or.inr ⟨o c, ha.1, ih ha.2 h⟩

end Prog

end Effect
