/-
Tokens that are each in one place.

A token that can be used once is kept somewhere, and handed on; what must not happen is that it is
in two places, since both could use it.

* `Custody` — no token is in two places;
* `Custody.drop`, `Custody.move`, `Custody.give` — what may happen to tokens: some are lost, one is
  handed on, and one that is nowhere is put somewhere.
-/

/-- No token is in two places. -/
def Custody {L T : Type} (held : L → Option T) : Prop :=
  ∀ ⦃l l' t⦄, held l = some t → held l' = some t → l = l'

namespace Custody

variable {L T : Type} {held held' : L → Option T} {a b : L}

/-- Tokens are lost. -/
theorem drop (h : Custody held) (hsub : ∀ l t, held' l = some t → held l = some t) :
    Custody held' :=
  fun _ _ t hl hl' => h (hsub _ t hl) (hsub _ t hl')

/-- A token is handed on from `a` to `b`. -/
theorem move (h : Custody held) (hmove : ∀ l t, held' l = some t →
    (l ≠ a ∧ held l = some t) ∨ (l = b ∧ held a = some t)) : Custody held' := by
  intro l l' t hl hl'
  rcases hmove l t hl with ⟨hla, hold⟩ | ⟨rfl, hfrom⟩
  · rcases hmove l' t hl' with ⟨-, hold'⟩ | ⟨-, hfrom'⟩
    · exact h hold hold'
    · exact absurd (h hold hfrom') hla
  · rcases hmove l' t hl' with ⟨hla', hold'⟩ | ⟨rfl, -⟩
    · exact absurd (h hold' hfrom) hla'
    · rfl

/-- A token that is nowhere is put in `b`. -/
theorem give (h : Custody held) (hgive : ∀ l t, held' l = some t →
    held l = some t ∨ (l = b ∧ ∀ l', held l' ≠ some t)) : Custody held' := by
  intro l l' t hl hl'
  rcases hgive l t hl with hold | ⟨rfl, hnew⟩
  · rcases hgive l' t hl' with hold' | ⟨-, hnew'⟩
    · exact h hold hold'
    · exact absurd hold (hnew' l)
  · rcases hgive l' t hl' with hold' | ⟨rfl, -⟩
    · exact absurd hold' (hnew l')
    · rfl

end Custody
