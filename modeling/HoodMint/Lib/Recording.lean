/-
Programs judged by all they have done.

* `Monitor.recording` — a monitor that remembers the run, the latest event first; what it demands of
  a command is said of the events before it;
* `Prog.recording_of_runs` — **in a run of a program that meets it, every command is warranted by
  the events before it**, the unanswered one at the end included;
* `Past.Since` — the events that one past adds to another.
-/
import HoodMint.Lib.Effect

namespace Effect

variable {S : Signature} {ε α σ : Type}

/-- What has happened, the latest event first. -/
abbrev Past (S : Signature) (ε : Type) := List (Event S ε)

/-- A monitor that remembers the run. -/
def Monitor.recording (allowed : (c : S.Cmd) → Except ε (S.Resp c) → Prop)
    (guard : Past S ε → S.Cmd → Prop) : Monitor S ε (Past S ε) where
  guard := guard
  allowed _ := allowed
  next past c x := ⟨c, x⟩ :: past

/-- The command a run broke off at, if it was issued. -/
def Ending.lost? : Ending S ε α → Option S.Cmd
  | .lost c => some c
  | _ => none

section

variable {allowed : (c : S.Cmd) → Except ε (S.Resp c) → Prop}
  {guard : Past S ε → S.Cmd → Prop} {past : Past S ε} {tr : List (Event S ε)}

theorem Monitor.after_recording (past : Past S ε) (tr : List (Event S ε)) :
    (Monitor.recording allowed guard).after past tr = tr.reverse ++ past := by
  induction tr generalizing past with
  | nil => rfl
  | cons e tr ih =>
    rw [List.reverse_cons, List.append_assoc]
    exact ih _

/-- Answers that are possible one by one are possible. -/
theorem Monitor.admits_recording (h : ∀ e ∈ tr, allowed e.cmd e.answer) :
    (Monitor.recording allowed guard).Admits past tr := by
  induction tr generalizing past with
  | nil => trivial
  | cons e tr ih =>
    exact ⟨h e List.mem_cons_self, ih fun e' he' => h e' (List.mem_cons_of_mem e he')⟩

theorem Monitor.keeps_recording {en : Ending S ε α}
    (h : (Monitor.recording allowed guard).Keeps past tr en) :
    (∀ before e later, tr = before ++ e :: later → guard (before.reverse ++ past) e.cmd) ∧
      ∀ c ∈ en.lost?, guard (tr.reverse ++ past) c := by
  induction tr generalizing past with
  | nil =>
    refine ⟨fun before e later hsplit => ?_, fun c hc => ?_⟩
    · have hne := List.append_ne_nil_of_right_ne_nil before (List.cons_ne_nil e later)
      exact absurd hsplit hne.symm
    · cases en with
      | lost c' =>
        obtain rfl := Option.some_inj.mp hc
        exact h
      | finished | crashed => exact absurd hc nofun
  | cons e₀ tr ih =>
    obtain ⟨hevents, hlost⟩ := ih h.2
    refine ⟨fun before e later hsplit => ?_, fun c hc => ?_⟩
    · cases before with
      | nil =>
        obtain ⟨rfl, rfl⟩ := List.cons.inj hsplit
        exact h.1
      | cons e₁ before =>
        obtain ⟨rfl, htr⟩ := List.cons.inj hsplit
        have := hevents before e later htr
        rwa [List.reverse_cons, List.append_assoc]
    · have := hlost c hc
      rwa [List.reverse_cons, List.append_assoc]

/-- **Every command of a run is warranted by the events before it.** -/
theorem Prog.recording_of_runs {p : Prog S ε α} {Q : Except ε α → Past S ε → Prop}
    {en : Ending S ε α} (h : p.wp (Monitor.recording allowed guard) Q [])
    (hr : p.Runs tr en) (ha : ∀ e ∈ tr, allowed e.cmd e.answer) :
    (∀ before e later, tr = before ++ e :: later → guard before.reverse e.cmd) ∧
      (∀ c ∈ en.lost?, guard tr.reverse c) ∧ ∀ r, en = .finished r → Q r tr.reverse := by
  obtain ⟨hkeeps, hends⟩ := Prog.sound h hr (Monitor.admits_recording ha)
  obtain ⟨hevents, hlost⟩ := Monitor.keeps_recording hkeeps
  rw [Monitor.after_recording, List.append_nil] at hends
  rw [List.append_nil] at hlost
  refine ⟨fun before e later hsplit => ?_, hlost, hends⟩
  simpa using hevents before e later hsplit

/-- An environment that answers by the command alone. -/
theorem Prog.possible_against {o : (c : S.Cmd) → Except ε (S.Resp c)} (h : ∀ c, allowed c (o c))
    (p : Prog S ε α) : ∀ e ∈ (p.against o).1, allowed e.cmd e.answer := by
  induction p with
  | ret | fail => exact fun e he => absurd he List.not_mem_nil
  | call c k ih => exact List.forall_mem_cons.mpr ⟨h c, ih _⟩

end

/-! ### What is added -/

/-- The later past adds events of commands in `C` only. -/
def Past.Since (C : S.Cmd → Prop) (past later : Past S ε) : Prop :=
  ∃ added : Past S ε, later = added ++ past ∧ ∀ e ∈ added, C e.cmd

namespace Past.Since

variable {C D : S.Cmd → Prop} {past later latest : Past S ε} {e : Event S ε}

theorem refl (C : S.Cmd → Prop) (past : Past S ε) : Past.Since C past past :=
  ⟨[], rfl, by simp⟩

theorem mem (h : Past.Since C past later) (he : e ∈ past) : e ∈ later := by
  obtain ⟨added, rfl, -⟩ := h
  exact List.mem_append_right added he

theorem suffix (h : Past.Since C past later) : past <:+ later := by
  obtain ⟨added, rfl, -⟩ := h
  exact List.suffix_append added past

/-- An event is one of those added, or was there before. -/
theorem of_mem (h : Past.Since C past later) (he : e ∈ later) : e ∈ past ∨ C e.cmd := by
  obtain ⟨added, rfl, hadded⟩ := h
  exact (List.mem_append.mp he).symm.imp_right (hadded e)

theorem trans (h : Past.Since C past later) (h' : Past.Since C later latest) :
    Past.Since C past latest := by
  obtain ⟨added, rfl, hadded⟩ := h
  obtain ⟨added', rfl, hadded'⟩ := h'
  refine ⟨added' ++ added, (List.append_assoc added' added past).symm, fun e he => ?_⟩
  exact (List.mem_append.mp he).elim (hadded' e) (hadded e)

theorem mono (h : Past.Since C past later) (hCD : ∀ c, C c → D c) : Past.Since D past later := by
  obtain ⟨added, rfl, hadded⟩ := h
  exact ⟨added, rfl, fun e he => hCD _ (hadded e he)⟩

theorem cons (h : Past.Since C past later) (e : Event S ε) (he : C e.cmd) :
    Past.Since C past (e :: later) :=
  h.trans ⟨[e], rfl, by simpa using he⟩

/-- What fails has nothing to show for what it has done. -/
theorem failed {β : Type} {f : β → α} {P : β → Prop} {e : ε} (h : Past.Since C past later) :
    Past.Since C past later ∧ ∀ b, (.error e : Except ε α) = .ok (f b) → P b :=
  ⟨h, fun _ hok => by cases hok⟩

end Past.Since

end Effect
