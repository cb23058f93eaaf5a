/-
Programs running side by side on one shared state.

Every program under way carries a state of its own, which follows only its own commands;
the shared state follows all of them.  A step answers the next command of one program, so
that programs interleave at every command.

* `Task` — a program under way, with its own state;
* `advance` — one step of one task; `advance_cases` says all a step can do;
* `AtCommand` — a condition on the command a step answers;
* `exists_task`, `exists_task_set` — one task, before and after its step, and the others;
  `getElem?_set_cases`, `getElem?_append_cases` — tasks by their number, after a step and after one
  has been added;
* `Task.Safe` — the task keeps to its own monitor, whatever the others do;
  `safe_advance`: a step whose answer that monitor assumes possible keeps all tasks safe,
  and its command met the monitor's guard.
-/
import HoodMint.Lib.Effect
import Mathlib.Data.List.Perm.Basic

namespace Effect

/-- A program under way. -/
structure Task (S : Signature) (ε α τ : Type) where
  prog : Prog S ε α
  here : τ

variable {S : Signature} {ε α σ τ : Type}

namespace Task

/-- The program has ended. -/
def Done (t : Task S ε α τ) : Prop :=
  match t.prog with
  | .call _ _ => False
  | _ => True

instance : DecidablePred (Done : Task S ε α τ → Prop) := fun t =>
  match h : t.prog with
  | .call _ _ => isFalse (by rw [Done, h]; exact id)
  | .ret _ => isTrue (by rw [Done, h]; trivial)
  | .fail _ => isTrue (by rw [Done, h]; trivial)

/-- What is left of the program keeps to the monitor and ends in `Q`. -/
def Safe (L : Monitor S ε τ) (Q : Except ε α → τ → Prop) (t : Task S ε α τ) : Prop :=
  t.prog.wp L Q t.here

variable {L : Monitor S ε τ} {Q : Except ε α → τ → Prop}

/-- A safe task that has ended is in its postcondition. -/
theorem Safe.of_done {t : Task S ε α τ} (h : t.Safe L Q) (hd : t.Done) : ∃ r, Q r t.here := by
  obtain ⟨p, here⟩ := t
  cases p with
  | ret a => exact ⟨_, h⟩
  | fail e => exact ⟨_, h⟩
  | call c k => exact absurd hd id

end Task

section

variable (M : Monitor S ε σ) (L : Monitor S ε τ) [∀ s c x, Decidable (M.allowed s c x)]

/-- The `i`-th task issues its next command and is given its answer. -/
def advance (s : σ) (ts : List (Task S ε α τ)) (i : ℕ)
    (answer : (c : S.Cmd) → Except ε (S.Resp c)) : Option (σ × List (Task S ε α τ)) :=
  match ts[i]? with
  | some ⟨.call c k, here⟩ =>
    if M.allowed s c (answer c) then
      some (M.next s c (answer c), ts.set i ⟨k (answer c), L.next here c (answer c)⟩)
    else none
  | _ => none

variable {M L} {s s' : σ} {ts ts' : List (Task S ε α τ)} {i : ℕ}
  {answer : (c : S.Cmd) → Except ε (S.Resp c)} {Q : Except ε α → τ → Prop}

/-- What a step of one task can do. -/
theorem advance_cases (h : advance M L s ts i answer = some (s', ts')) :
    ∃ c k here, ts[i]? = some ⟨.call c k, here⟩ ∧ M.allowed s c (answer c) ∧
      s' = M.next s c (answer c) ∧
      ts' = ts.set i ⟨k (answer c), L.next here c (answer c)⟩ := by
  rw [advance] at h
  split at h
  · next c k here hi =>
    split at h
    · next hx =>
      rw [Option.some_inj, Prod.mk.injEq] at h
      exact ⟨c, k, here, hi, hx, h.1.symm, h.2.symm⟩
    · exact absurd h nofun
  · exact absurd h nofun

/-- What holds of every task, and of one that enters. -/
@[elab_as_elim]
theorem of_mem_enter {β : Type} {P : β → Prop} {l : List β} {a b : β} (hb : b ∈ l ++ [a])
    (hl : ∀ b ∈ l, P b) (ha : P a) : P b := by
  rcases List.mem_append.mp hb with hb | hb
  · exact hl b hb
  · exact List.mem_singleton.mp hb ▸ ha

/-- What holds of every task, and of one in another's place. -/
@[elab_as_elim]
theorem of_mem_replace {β : Type} {P : β → Prop} {l : List β} {i : ℕ} {a b : β}
    (hb : b ∈ l.set i a) (hl : ∀ b ∈ l, P b) (ha : P a) : P b := by
  rcases List.mem_or_eq_of_mem_set hb with hb | rfl
  · exact hl b hb
  · exact ha

/-- **Rely and guarantee.**  When every task is safe and the step's answer is one the
task's monitor assumes possible, the command met the monitor's guard, and every task is
safe again. -/
theorem safe_advance {c : S.Cmd} {k : Except ε (S.Resp c) → Prog S ε α} {here : τ}
    (hi : ts[i]? = some ⟨.call c k, here⟩) (hsafe : ∀ t ∈ ts, t.Safe L Q)
    {x : Except ε (S.Resp c)} (hx : L.allowed here c x) :
    L.guard here c ∧ ∀ t ∈ ts.set i ⟨k x, L.next here c x⟩, t.Safe L Q := by
  obtain ⟨hguard, hnext⟩ := hsafe _ (List.mem_of_getElem? hi)
  exact ⟨hguard, fun t ht => of_mem_replace ht hsafe (hnext x hx)⟩

/-- A condition on the next command of the `i`-th task, and on its answer. -/
def AtCommand (ts : List (Task S ε α τ)) (i : ℕ) (answer : (c : S.Cmd) → Except ε (S.Resp c))
    (φ : τ → (c : S.Cmd) → Except ε (S.Resp c) → Prop) : Prop :=
  match ts[i]? with
  | some ⟨.call c _, here⟩ => φ here c (answer c)
  | _ => True

instance decidableAtCommand {φ : τ → (c : S.Cmd) → Except ε (S.Resp c) → Prop}
    [∀ here c x, Decidable (φ here c x)] : Decidable (AtCommand ts i answer φ) := by
  rw [AtCommand]
  split <;> infer_instance

theorem atCommand_iff {φ : τ → (c : S.Cmd) → Except ε (S.Resp c) → Prop} {c : S.Cmd}
    {k : Except ε (S.Resp c) → Prog S ε α} {here : τ} (hi : ts[i]? = some ⟨.call c k, here⟩) :
    AtCommand ts i answer φ ↔ φ here c (answer c) := by
  rw [AtCommand, hi]

/-- One of the tasks after one has been replaced. -/
theorem getElem?_set_cases {β : Type} {l : List β} {i j : ℕ} {a b : β}
    (h : (l.set i a)[j]? = some b) : (j = i ∧ b = a) ∨ (j ≠ i ∧ l[j]? = some b) := by
  by_cases hij : i = j
  · subst hij
    rw [List.getElem?_set_self'] at h
    cases hl : l[i]? with
    | none =>
      rw [hl] at h
      exact absurd h.symm (Option.some_ne_none b)
    | some c =>
      rw [hl] at h
      exact Or.inl ⟨rfl, (Option.some_inj.mp h).symm⟩
  · rw [List.getElem?_set_ne hij] at h
    exact Or.inr ⟨Ne.symm hij, h⟩

/-- One of the tasks after one has been added. -/
theorem getElem?_append_cases {β : Type} {l : List β} {j : ℕ} {a b : β}
    (h : (l ++ [a])[j]? = some b) : l[j]? = some b ∨ b = a := by
  by_cases hlt : j < l.length
  · rw [List.getElem?_append_left hlt] at h
    exact Or.inl h
  · rw [List.getElem?_append_right (Nat.not_lt.mp hlt)] at h
    exact Or.inr (List.mem_singleton.mp (List.mem_of_getElem? h))

/-- The tasks are the `i`-th one and the others. -/
theorem exists_task {P : Task S ε α τ → Prop} {t : Task S ε α τ} (hi : ts[i]? = some t) :
    (∃ u ∈ ts, P u) ↔ P t ∨ ∃ u ∈ ts.eraseIdx i, P u := by
  obtain ⟨hlt, ht⟩ := List.getElem?_eq_some_iff.mp hi
  have hperm := List.getElem_cons_eraseIdx_perm hlt
  rw [ht] at hperm
  simp only [← hperm.mem_iff, List.exists_mem_cons_iff]

theorem exists_task_set {P : Task S ε α τ → Prop} {t : Task S ε α τ} (hi : ts[i]? = some t)
    (t' : Task S ε α τ) : (∃ u ∈ ts.set i t', P u) ↔ P t' ∨ ∃ u ∈ ts.eraseIdx i, P u := by
  have hlt := (List.getElem?_eq_some_iff.mp hi).1
  simp only [(List.set_perm_cons_eraseIdx hlt t').mem_iff, List.exists_mem_cons_iff]

end

end Effect
