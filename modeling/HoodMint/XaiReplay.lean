/-
The refresh token is used once (`apps/worker/src/credentials.ts`,
`packages/providers/src/xai/oauth.ts`).

A spent refresh token that is presented again costs the operator the connection.

* `Place`, `Runs.held` — where a refresh token is: in a row, or in the hands of a program that has
  been given it;
* `Orderly` — what a run is asked for: one resolution of the worker at a time, which hears the
  provider's answer and stores it, and administrators who may do what they like meanwhile;
* `Rotating` — a token is in one place, and what has been spent is in none, but for the row that the
  resolution under way is about to change;
* `never_replayed` — no spent refresh token is presented;
* `crash_replays` — one that ends between the provider's answer and the update presents one.
-/
import HoodMint.Lib.Custody
import HoodMint.XaiRotation

namespace XaiOAuth

open Credentials Effect Relational

/-! ### Where the tokens are -/

/-- A row, or the hands of a program. -/
inductive Place
  | row (id : String)
  | hand (i : ℕ)

/-- The refresh token in a row. -/
def World.tokenAt (w : World) (id : String) : Option String :=
  (w.rows.get? id).bind Row.refreshToken

section

variable {w : World} {id : String} {r : String}

theorem tokenAt_update {p : Row → Prop} [DecidablePred p] {f : Row → Row}
    (hf : ∀ row, (f row).id = row.id) {w' : World} (hw : w'.rows = w.rows.update p f hf)
    (h : w'.tokenAt id = some r) :
    (w.tokenAt id = some r ∧ ∀ row ∈ w.rows, row.id = id → ¬ p row) ∨
      ∃ row ∈ w.rows, row.id = id ∧ p row ∧ (f row).refreshToken = some r := by
  rw [World.tokenAt, hw, Table.get?_update] at h
  cases hrow : w.rows.get? id with
  | none => rw [hrow] at h; exact absurd h nofun
  | some row =>
    rw [hrow] at h
    obtain ⟨hmem, hid⟩ := Table.get?_eq_some.mp hrow
    have h : (if p row then f row else row).refreshToken = some r := h
    split at h
    · next hp => exact Or.inr ⟨row, hmem, hid, hp, h⟩
    · next hp =>
      rw [World.tokenAt, hrow]
      refine Or.inl ⟨h, fun row' hrow' hid' => ?_⟩
      rwa [Table.eq_of_key hrow' hmem (hid'.trans hid.symm)]

theorem tokenAt_delete {id' : String} {w' : World}
    (hw : w'.rows = w.rows.delete fun row => row.id = id') (h : w'.tokenAt id = some r) :
    w.tokenAt id = some r := by
  rw [World.tokenAt, hw, Table.get?_delete] at h
  split at h
  · cases h
  · exact h

theorem tokenAt_insert {row : Row} {w' : World} (hw : w'.rows = w.rows.insert row)
    (h : w'.tokenAt id = some r) :
    w.tokenAt id = some r ∨ (id = row.id ∧ row.refreshToken = some r) := by
  rw [World.tokenAt, hw, Table.get?_insert] at h
  split at h
  · next hid =>
    cases hrow : w.rows.get? id with
    | none =>
      rw [hrow] at h
      exact Or.inr ⟨hid.symm, h⟩
    | some row₀ =>
      rw [hrow] at h
      rw [World.tokenAt, hrow]
      exact Or.inl h
  · exact Or.inl h

theorem tokenAt_next_of_looks {c : Cmd} (hc : c.Looks) (x : Except Thrown c.Resp)
    (h : (w.next c x).tokenAt id = some r) : w.tokenAt id = some r := by
  cases c with
  | findCredentialByType type => exact h
  | getCredentialSecret id => exact h
  | now => exact h
  | recordAudit action success => exact h
  | updateCredentialMetadata id' health code =>
    cases x with
    | error e => exact h
    | ok _ =>
      rcases tokenAt_update (w := w) (fun _ => by rfl) rfl h with ⟨h, -⟩ | ⟨row, hrow, hid, -, h⟩
      · exact h
      · rw [World.tokenAt, Table.get?_eq_some.mpr ⟨hrow, hid⟩]
        exact h
  | revokeCredential id' =>
    cases x with
    | error e => exact h
    | ok _ => exact tokenAt_delete (w := w) rfl h
  | createCredential => exact False.elim hc
  | updateCredentialSecret => exact False.elim hc
  | deviceAuthorization => exact False.elim hc
  | devicePoll => exact False.elim hc
  | refreshGrant => exact False.elim hc

/-- A token that has just been read is in that row. -/
theorem reads_next_of_looks {here : Here} {c : Cmd} (hc : c.Looks) {x : Except Thrown c.Resp}
    (hx : w.Answers c x) {t₀ : StoredXaiToken}
    (hread : (id, Secret.token t₀) ∈ (here.next c x).reads) (hr : t₀.refreshToken = some r) :
    (id, Secret.token t₀) ∈ here.reads ∨ w.tokenAt id = some r := by
  cases c with
  | findCredentialByType type =>
    match x with | .error _ | .ok none | .ok (some _) => exact Or.inl hread
  | getCredentialSecret id' =>
    match x with
    | .error e => exact Or.inl hread
    | .ok none => exact Or.inl hread
    | .ok (some sealed) =>
      rcases List.mem_cons.mp hread with heq | hread
      · obtain ⟨rfl, rfl⟩ := Prod.mk.inj heq
        obtain ⟨row, hrow, hsecret⟩ := Option.map_eq_some_iff.mp (Eq.symm hx)
        rw [World.tokenAt, hrow, Option.bind_some, Row.refreshToken, hsecret]
        exact Or.inr hr
      · exact Or.inl hread
  | now => cases x <;> exact Or.inl hread
  | updateCredentialMetadata id' health code => exact Or.inl hread
  | revokeCredential id' => exact Or.inl hread
  | recordAudit action success => exact Or.inl hread
  | createCredential => exact False.elim hc
  | updateCredentialSecret => exact False.elim hc
  | deviceAuthorization => exact False.elim hc
  | devicePoll => exact False.elim hc
  | refreshGrant => exact False.elim hc

/-- Looking around leaves the provider as it is. -/
theorem provider_next_of_looks {c : Cmd} (hc : c.Looks) (x : Except Thrown c.Resp) :
    (w.next c x).issued = w.issued ∧ (w.next c x).spent = w.spent ∧
      (w.next c x).replayed = w.replayed := by
  cases c with
  | updateCredentialMetadata id' health code => cases x <;> exact ⟨rfl, rfl, rfl⟩
  | revokeCredential id' => cases x <;> exact ⟨rfl, rfl, rfl⟩
  | createCredential => exact False.elim hc
  | updateCredentialSecret => exact False.elim hc
  | deviceAuthorization => exact False.elim hc
  | devicePoll => exact False.elim hc
  | refreshGrant => exact False.elim hc
  | _ => exact ⟨rfl, rfl, rfl⟩

end

abbrev XaiTask := Task signature Thrown Unit Here

/-- A resolution under way. -/
def Refreshing (t : XaiTask) : Prop := ¬ t.Done ∧ t.here.refreshes = true

instance : DecidablePred Refreshing := fun _ => inferInstanceAs (Decidable (_ ∧ _))

namespace Runs

variable {d d' : Runs} {i : ℕ} {t t' : XaiTask}

/-- The refresh token that is somewhere. -/
def held (d : Runs) : Place → Option String
  | .row id => d.world.tokenAt id
  | .hand i => d.tasks[i]?.bind fun t => t.here.hand

theorem held_hand (hi : d.tasks[i]? = some t) : d.held (.hand i) = t.here.hand := by
  rw [held, hi]
  rfl

/-- Hands after a step of one program. -/
theorem held_hand_set (hi : d.tasks[i]? = some t) (htasks : d'.tasks = d.tasks.set i t') {j : ℕ}
    {r : String} (h : d'.held (.hand j) = some r) :
    (j = i ∧ t'.here.hand = some r) ∨ (j ≠ i ∧ d.held (.hand j) = some r) := by
  rw [held, htasks] at h
  obtain ⟨u, hu, hhand⟩ := Option.bind_eq_some_iff.mp h
  rcases getElem?_set_cases hu with ⟨rfl, rfl⟩ | ⟨hne, hu⟩
  · exact Or.inl ⟨rfl, hhand⟩
  · exact Or.inr ⟨hne, (held_hand hu).trans hhand⟩

/-- What the code is promised: the worker resolves one token at a time, hears the provider, stores
what it has heard, and does not end in between. -/
def Orderly (d : Runs) : RunStep → Prop
  | .enter entry => entry.refreshes = true → ∀ t ∈ d.tasks, ¬ Refreshing t
  | .advance i answer => AtCommand d.tasks i answer Heard
  | .crash i => ∀ t ∈ d.tasks[i]?, t.here.refreshes = true → t.here.hand = none
  | .revoke _ => True

/-- A refresh token is in one place; one that is spent is in none, but where a resolution is about
to store the next, and what that has read is where it was read, or nowhere. -/
structure Rotating (d : Runs) : Prop where
  safe : ∀ t ∈ d.tasks, t.Safe rotates Stored
  one : ∀ (i j : ℕ) t u, d.tasks[i]? = some t → d.tasks[j]? = some u → Refreshing t →
    Refreshing u → i = j
  custody : Custody d.held
  issued : ∀ l r, d.held l = some r → r ∈ d.world.issued
  spent : ∀ r ∈ d.world.spent, r ∈ d.world.issued
  live : ∀ r ∈ d.world.spent, ∀ l, d.held l = some r → ∃ (i : ℕ) (t : XaiTask),
    d.tasks[i]? = some t ∧ Refreshing t ∧ t.here.hand.isSome ∧ t.here.spent = some r
  reads : ∀ (i : ℕ) t, d.tasks[i]? = some t → Refreshing t → ∀ id t₀ r,
    (id, Secret.token t₀) ∈ t.here.reads → t₀.refreshToken = some r →
      r ∈ d.world.issued ∧ (∀ l, d.held l = some r → l = .row id) ∧
        (t.here.spent = none → r ∉ d.world.spent)
  replayed : d.world.replayed = []

/-! ### What a step keeps -/

/-- A step of a program that spends nothing: what it holds then was there, was in its hands, or is
new. -/
structure Moves (d d' : Runs) (i : ℕ) (t t' : XaiTask) : Prop where
  task : d.tasks[i]? = some t
  tasks : d'.tasks = d.tasks.set i t'
  safe : t'.Safe rotates Stored
  custody : Custody d'.held
  held : ∀ l r, d'.held l = some r →
    d.held l = some r ∨ d.held (.hand i) = some r ∨ (r ∉ d.world.issued ∧ r ∈ d'.world.issued)
  issued : d.world.issued ⊆ d'.world.issued
  spent : d'.world.spent = d.world.spent
  replayed : d'.world.replayed = d.world.replayed
  refreshing : Refreshing t' → Refreshing t ∧ t'.here.spent = t.here.spent
  reads : Refreshing t' → ∀ id t₀ r, (id, Secret.token t₀) ∈ t'.here.reads →
    t₀.refreshToken = some r → (id, Secret.token t₀) ∈ t.here.reads ∨ d.held (.row id) = some r

/-- A resolution that has something in hand goes on. -/
theorem refreshing_of_hand (hsafe : t.Safe rotates Stored) (hrefreshes : t.here.refreshes = true)
    (hhand : t.here.hand.isSome) : Refreshing t := by
  refine ⟨fun hdone => ?_, hrefreshes⟩
  obtain ⟨_, hstored⟩ := hsafe.of_done hdone
  rw [hstored hrefreshes] at hhand
  exact absurd hhand nofun

theorem Rotating.task_eq (h : d.Rotating) (hi : d.tasks[i]? = some t) (ht : Refreshing t) {j : ℕ}
    {u : XaiTask} (hj : d.tasks[j]? = some u) (hu : Refreshing u) : j = i ∧ u = t := by
  obtain rfl := h.one j i u t hj hi hu ht
  exact ⟨rfl, Option.some_inj.mp (hj.symm.trans hi)⟩

/-- An old token was somewhere before. -/
theorem Moves.held_old (hm : Moves d d' i t t') {l : Place} {r : String}
    (hl : d'.held l = some r) (hr : r ∈ d.world.issued) :
    d.held l = some r ∨ d.held (.hand i) = some r := by
  rcases hm.held l r hl with hl | hl | ⟨hnew, -⟩
  · exact Or.inl hl
  · exact Or.inr hl
  · exact absurd hr hnew

/-- Whoever still has something in hand may leave spent tokens where they are. -/
theorem Moves.live (h : d.Rotating) (hm : Moves d d' i t t')
    (hhand : Refreshing t → t.here.hand.isSome →
      t'.here.refreshes = true ∧ t'.here.hand.isSome ∧ t'.here.spent = t.here.spent) :
    ∀ r ∈ d.world.spent, ∀ l, d'.held l = some r → ∃ (j : ℕ) (u : XaiTask), d'.tasks[j]? = some u ∧
      Refreshing u ∧ u.here.hand.isSome ∧ u.here.spent = some r := by
  intro r hr l hl
  have hold : ∃ l₀, d.held l₀ = some r := by
    rcases hm.held_old hl (h.spent r hr) with hl | hl
    · exact ⟨l, hl⟩
    · exact ⟨.hand i, hl⟩
  obtain ⟨l₀, hl₀⟩ := hold
  obtain ⟨j, u, hj, hu, huhand, huspent⟩ := h.live r hr l₀ hl₀
  by_cases hij : j = i
  · subst hij
    obtain rfl := Option.some_inj.mp (hm.task.symm.trans hj)
    obtain ⟨hrefreshes, hhand', hspent⟩ := hhand hu huhand
    refine ⟨j, t', ?_, refreshing_of_hand hm.safe hrefreshes hhand', hhand', hspent.trans huspent⟩
    rw [hm.tasks, List.getElem?_set_self (List.getElem?_eq_some_iff.mp hj).1]
  · refine ⟨j, u, ?_, hu, huhand, huspent⟩
    rw [hm.tasks, List.getElem?_set_ne (Ne.symm hij)]
    exact hj

theorem Rotating.moves (h : d.Rotating) (hm : Moves d d' i t t')
    (hlive : ∀ r ∈ d.world.spent, ∀ l, d'.held l = some r → ∃ (j : ℕ) (u : XaiTask),
      d'.tasks[j]? = some u ∧ Refreshing u ∧ u.here.hand.isSome ∧ u.here.spent = some r) :
    d'.Rotating := by
  -- every resolution under way was one before
  have hbefore : ∀ {j : ℕ} {u : XaiTask}, d'.tasks[j]? = some u → Refreshing u →
      (j = i ∧ u = t' ∧ Refreshing t) ∨ (j ≠ i ∧ d.tasks[j]? = some u) := by
    intro j u hj hu
    rw [hm.tasks] at hj
    rcases getElem?_set_cases hj with ⟨rfl, rfl⟩ | hj
    · exact Or.inl ⟨rfl, rfl, (hm.refreshing hu).1⟩
    · exact Or.inr hj
  refine ⟨fun u hu => ?_, fun j₁ j₂ u₁ u₂ hj₁ hj₂ hu₁ hu₂ => ?_, hm.custody, fun l r hl => ?_,
    fun r hr => ?_, fun r hr l hl => ?_, fun j u hj hu id t₀ r hread hr => ?_,
    hm.replayed.trans h.replayed⟩
  · rw [hm.tasks] at hu
    exact of_mem_replace hu h.safe hm.safe
  · rcases hbefore hj₁ hu₁ with ⟨rfl, rfl, ht⟩ | ⟨hne₁, hj₁⟩
    · rcases hbefore hj₂ hu₂ with ⟨rfl, -, -⟩ | ⟨-, hj₂⟩
      · rfl
      · exact (h.task_eq hm.task ht hj₂ hu₂).1.symm
    · rcases hbefore hj₂ hu₂ with ⟨rfl, rfl, ht⟩ | ⟨-, hj₂⟩
      · exact absurd (h.task_eq hm.task ht hj₁ hu₁).1 hne₁
      · exact h.one j₁ j₂ u₁ u₂ hj₁ hj₂ hu₁ hu₂
  · rcases hm.held l r hl with hl | hl | ⟨-, hnew⟩
    · exact hm.issued (h.issued l r hl)
    · exact hm.issued (h.issued _ r hl)
    · exact hnew
  · rw [hm.spent] at hr
    exact hm.issued (h.spent r hr)
  · rw [hm.spent] at hr
    exact hlive r hr l hl
  · rw [hm.spent]
    -- a token that was read before the step, by the one resolution there is
    have hkept : ∀ {j₀ : ℕ} {u₀ : XaiTask}, d.tasks[j₀]? = some u₀ → Refreshing u₀ →
        (id, Secret.token t₀) ∈ u₀.here.reads → (u.here.spent = none → u₀.here.spent = none) →
        r ∈ d'.world.issued ∧ (∀ l, d'.held l = some r → l = .row id) ∧
          (u.here.spent = none → r ∉ d.world.spent) := by
      intro j₀ u₀ hj₀ hu₀ hread₀ hnone
      obtain ⟨hissued, honly, hunspent⟩ := h.reads j₀ u₀ hj₀ hu₀ id t₀ r hread₀ hr
      refine ⟨hm.issued hissued, fun l hl => ?_, fun hn => hunspent (hnone hn)⟩
      rcases hm.held_old hl hissued with hl | hl
      · exact honly l hl
      · exact absurd (honly _ hl) nofun
    rcases hbefore hj hu with ⟨-, rfl, ht⟩ | ⟨-, hj⟩
    · have hspent := (hm.refreshing hu).2
      rcases hm.reads hu id t₀ r hread hr with hread | hrow
      · exact hkept hm.task ht hread fun hn => hspent.symm.trans hn
      · -- it has just been read, and is in that row alone
        refine ⟨hm.issued (h.issued _ r hrow), fun l hl => ?_, fun hn hmem => ?_⟩
        · rcases hm.held_old hl (h.issued _ r hrow) with hl | hl
          · exact h.custody hl hrow
          · exact absurd (h.custody hl hrow) nofun
        · obtain ⟨j', u', hj', hu', -, hspent'⟩ := h.live r hmem _ hrow
          obtain ⟨-, rfl⟩ := h.task_eq hm.task ht hj' hu'
          exact absurd (hspent'.symm.trans (hspent.symm.trans hn)) nofun
    · exact hkept hj hu hread fun hn => hn

/-! ### What each step does -/

section

variable {w' : World} {here here' : Here} {p : Xai Unit} {requested : List (String × String)}

/-- Nothing is handed on. -/
theorem Rotating.keep (h : d.Rotating) (hi : d.tasks[i]? = some t)
    (hsafe : Task.Safe rotates Stored ⟨p, here'⟩) (hrunning : ¬ t.Done)
    (htoken : ∀ id r, w'.tokenAt id = some r → d.world.tokenAt id = some r)
    (hissued : w'.issued = d.world.issued) (hspent : w'.spent = d.world.spent)
    (hreplayed : w'.replayed = d.world.replayed) (hrefreshes : here'.refreshes = t.here.refreshes)
    (hhand : here'.hand = t.here.hand) (hsame : here'.spent = t.here.spent)
    (hreads : ∀ id t₀ r, (id, Secret.token t₀) ∈ here'.reads → t₀.refreshToken = some r →
      (id, Secret.token t₀) ∈ t.here.reads ∨ d.held (.row id) = some r) :
    (Runs.mk w' (d.tasks.set i ⟨p, here'⟩) requested).Rotating := by
  have hheld : ∀ l r, (Runs.mk w' (d.tasks.set i ⟨p, here'⟩) requested).held l = some r →
      d.held l = some r := by
    intro l r hl
    cases l with
    | row id => exact htoken id r hl
    | hand j =>
      rcases held_hand_set hi rfl hl with ⟨rfl, hnew⟩ | ⟨-, hold⟩
      · exact (held_hand hi).trans (hhand.symm.trans hnew)
      · exact hold
  have hm : Moves d ⟨w', d.tasks.set i ⟨p, here'⟩, requested⟩ i t ⟨p, here'⟩ :=
    { task := hi
      tasks := rfl
      safe := hsafe
      custody := h.custody.drop hheld
      held := fun l r hl => Or.inl (hheld l r hl)
      issued := fun r hr => hissued ▸ hr
      spent := hspent
      replayed := hreplayed
      refreshing := fun hr => ⟨⟨hrunning, hrefreshes.symm.trans hr.2⟩, hsame⟩
      reads := fun _ => hreads }
  refine h.moves hm (hm.live h fun hr hsome => ⟨hrefreshes.trans hr.2, ?_, hsame⟩)
  rw [hhand]
  exact hsome

/-- The world stays, and so does what the program has. -/
theorem Rotating.unmoved (h : d.Rotating) (hi : d.tasks[i]? = some t)
    (hsafe : Task.Safe rotates Stored ⟨p, here'⟩) (hrunning : ¬ t.Done)
    (hrefreshes : here'.refreshes = t.here.refreshes) (hhand : here'.hand = t.here.hand)
    (hsame : here'.spent = t.here.spent) (hreads : here'.reads = t.here.reads) :
    (Runs.mk d.world (d.tasks.set i ⟨p, here'⟩) requested).Rotating :=
  h.keep hi hsafe hrunning (fun _ _ h => h) rfl rfl rfl hrefreshes hhand hsame
    fun _ _ _ hread _ => Or.inl (hreads ▸ hread)

/-- A program stores what it has in hand. -/
theorem Rotating.store (h : d.Rotating) (hi : d.tasks[i]? = some t)
    (hsafe : Task.Safe rotates Stored ⟨p, here'⟩) (hrunning : ¬ t.Done) (id : String)
    (htoken : ∀ id' r, w'.tokenAt id' = some r →
      d.world.tokenAt id' = some r ∨ (id' = id ∧ t.here.hand = some r))
    (hissued : w'.issued = d.world.issued) (hspent : w'.spent = d.world.spent)
    (hreplayed : w'.replayed = d.world.replayed) (hrefreshes : here'.refreshes = t.here.refreshes)
    (hhand : here'.hand = none) (hsame : here'.spent = t.here.spent)
    (hreads : here'.reads = t.here.reads)
    (hreplaced : t.here.refreshes = true → ∀ r ∈ t.here.spent, w'.tokenAt id ≠ some r ∧
      ∀ l, d.held l = some r → l = .row id) :
    (Runs.mk w' (d.tasks.set i ⟨p, here'⟩) requested).Rotating := by
  have hheld : ∀ l r, (Runs.mk w' (d.tasks.set i ⟨p, here'⟩) requested).held l = some r →
      (l ≠ .hand i ∧ d.held l = some r) ∨ (l = .row id ∧ d.held (.hand i) = some r) := by
    intro l r hl
    cases l with
    | row id' =>
      rcases htoken id' r hl with hold | ⟨rfl, hnew⟩
      · exact Or.inl ⟨nofun, hold⟩
      · exact Or.inr ⟨rfl, (held_hand hi).trans hnew⟩
    | hand j =>
      rcases held_hand_set hi rfl hl with ⟨-, hnew⟩ | ⟨hne, hold⟩
      · exact absurd (hhand.symm.trans hnew) nofun
      · exact Or.inl ⟨fun heq => hne (Place.hand.inj heq), hold⟩
  have hm : Moves d ⟨w', d.tasks.set i ⟨p, here'⟩, requested⟩ i t ⟨p, here'⟩ :=
    { task := hi
      tasks := rfl
      safe := hsafe
      custody := h.custody.move hheld
      held := fun l r hl => (hheld l r hl).elim (fun hl => Or.inl hl.2) fun hl =>
        Or.inr (Or.inl hl.2)
      issued := fun r hr => hissued ▸ hr
      spent := hspent
      replayed := hreplayed
      refreshing := fun hr => ⟨⟨hrunning, hrefreshes.symm.trans hr.2⟩, hsame⟩
      reads := fun _ id t₀ r hread _ => Or.inl (hreads ▸ hread) }
  by_cases hr : t.here.refreshes = true
  · refine h.moves hm fun r hspent l hl => ?_
    -- what is spent was where the new token is now
    have hold : ∃ l₀, d.held l₀ = some r ∧ (l₀ = .row id → l = .row id) := by
      rcases hheld l r hl with ⟨-, hl₀⟩ | ⟨hrow, hl₀⟩
      · exact ⟨l, hl₀, fun heq => heq⟩
      · exact ⟨.hand i, hl₀, nofun⟩
    obtain ⟨l₀, hl₀, hsamePlace⟩ := hold
    obtain ⟨j, u, hj, hu, -, huspent⟩ := h.live r hspent l₀ hl₀
    obtain ⟨-, rfl⟩ := h.task_eq hi ⟨hrunning, hr⟩ hj hu
    obtain ⟨hgone, honly⟩ := hreplaced hr r huspent
    rw [hsamePlace (honly l₀ hl₀)] at hl
    exact absurd hl hgone
  · exact h.moves hm (hm.live h fun hrefreshing _ => absurd hrefreshing.2 hr)

/-- A grant of an administrator gives a new token. -/
theorem Rotating.give (h : d.Rotating) (hi : d.tasks[i]? = some t)
    (hsafe : Task.Safe rotates Stored ⟨p, here'⟩) (hr : t.here.refreshes = false)
    {new : Option String} (hfresh : ∀ r ∈ new, r ∉ d.world.issued)
    (htoken : ∀ id r, w'.tokenAt id = some r → d.world.tokenAt id = some r)
    (hissued : w'.issued = new.toList ++ d.world.issued) (hspent : w'.spent = d.world.spent)
    (hreplayed : w'.replayed = d.world.replayed) (hrefreshes : here'.refreshes = t.here.refreshes)
    (hhand : here'.hand = new) :
    (Runs.mk w' (d.tasks.set i ⟨p, here'⟩) requested).Rotating := by
  have hheld : ∀ l r, (Runs.mk w' (d.tasks.set i ⟨p, here'⟩) requested).held l = some r →
      d.held l = some r ∨ (l = .hand i ∧ r ∈ new) := by
    intro l r hl
    cases l with
    | row id => exact Or.inl (htoken id r hl)
    | hand j =>
      rcases held_hand_set hi rfl hl with ⟨rfl, hnew⟩ | ⟨-, hold⟩
      · exact Or.inr ⟨rfl, hhand.symm.trans hnew⟩
      · exact Or.inl hold
  have hnone : ¬ Refreshing (⟨p, here'⟩ : XaiTask) := fun hrefreshing =>
    absurd (hr.symm.trans (hrefreshes.symm.trans hrefreshing.2)) nofun
  have hm : Moves d ⟨w', d.tasks.set i ⟨p, here'⟩, requested⟩ i t ⟨p, here'⟩ :=
    { task := hi
      tasks := rfl
      safe := hsafe
      custody := h.custody.give fun l r hl => (hheld l r hl).imp id fun hl =>
        ⟨hl.1, fun l' hl' => hfresh r hl.2 (h.issued l' r hl')⟩
      held := fun l r hl => (hheld l r hl).imp id fun hl => Or.inr ⟨hfresh r hl.2, by
        rw [hissued]
        exact List.mem_append_left _ (Option.mem_toList.mpr hl.2)⟩
      issued := fun r hr => hissued ▸ List.mem_append_right _ hr
      spent := hspent
      replayed := hreplayed
      refreshing := fun hrefreshing => absurd hrefreshing hnone
      reads := fun hrefreshing => absurd hrefreshing hnone }
  exact h.moves hm (hm.live h fun hrefreshing _ => absurd (hr.symm.trans hrefreshing.2) nofun)

/-- The resolution refreshes: the token it has read is spent, and it has the next in hand. -/
theorem Rotating.refresh (h : d.Rotating) (hi : d.tasks[i]? = some t) (ht : Refreshing t)
    (hsafe : Task.Safe rotates Stored ⟨p, here'⟩) (hnone : t.here.spent = none)
    (hempty : t.here.hand = none) {id₀ r new : String} {t₀ : StoredXaiToken}
    (hread : (id₀, Secret.token t₀) ∈ t.here.reads) (hr : t₀.refreshToken = some r)
    (hfresh : new ∉ d.world.issued) (htoken : w'.rows = d.world.rows)
    (hissued : w'.issued = new :: d.world.issued) (hspent : w'.spent = r :: d.world.spent)
    (hreplayed : w'.replayed = d.world.replayed) (hrefreshes : here'.refreshes = true)
    (hhand : here'.hand = some new) (hsame : here'.spent = some r)
    (hreads : here'.reads = t.here.reads) :
    (Runs.mk w' (d.tasks.set i ⟨p, here'⟩) requested).Rotating := by
  have hheld : ∀ l r', (Runs.mk w' (d.tasks.set i ⟨p, here'⟩) requested).held l = some r' →
      d.held l = some r' ∨ (l = .hand i ∧ r' = new) := by
    intro l r' hl
    cases l with
    | row id =>
      refine Or.inl (Eq.trans ?_ hl)
      show d.world.tokenAt id = w'.tokenAt id
      rw [World.tokenAt, World.tokenAt, htoken]
    | hand j =>
      rcases held_hand_set hi rfl hl with ⟨rfl, hnew⟩ | ⟨-, hold⟩
      · exact Or.inr ⟨rfl, (Option.some_inj.mp (hhand.symm.trans hnew)).symm⟩
      · exact Or.inl hold
  -- the resolution is the one under way, before and after
  have hnow : ∀ {j : ℕ} {u : XaiTask}, (d.tasks.set i ⟨p, here'⟩)[j]? = some u → Refreshing u →
      j = i ∧ u = ⟨p, here'⟩ := by
    intro j u hj hu
    rcases getElem?_set_cases hj with hj | ⟨hne, hj⟩
    · exact hj
    · exact absurd (h.task_eq hi ht hj hu).1 hne
  have hlt := (List.getElem?_eq_some_iff.mp hi).1
  have hself : (d.tasks.set i ⟨p, here'⟩)[i]? = some ⟨p, here'⟩ := List.getElem?_set_self hlt
  have hrefreshing : Refreshing (⟨p, here'⟩ : XaiTask) :=
    refreshing_of_hand hsafe hrefreshes (by rw [hhand]; rfl)
  obtain ⟨hold, honly, -⟩ := h.reads i t hi ht id₀ t₀ r hread hr
  refine ⟨fun u hu => ?_, fun j₁ j₂ u₁ u₂ hj₁ hj₂ hu₁ hu₂ => ?_,
    h.custody.give (b := .hand i) fun l r' hl => ?_,
    fun l r' hl => ?_, fun r' hr' => ?_, fun r' hr' l hl => ?_,
    fun j u hj hu id t₁ r' hread' hr' => ?_, hreplayed.trans h.replayed⟩
  · exact of_mem_replace hu h.safe hsafe
  · exact (hnow hj₁ hu₁).1.trans (hnow hj₂ hu₂).1.symm
  · rcases hheld l r' hl with hl | ⟨hl, rfl⟩
    · exact Or.inl hl
    · exact Or.inr ⟨hl, fun l' hl' => hfresh (h.issued l' _ hl')⟩
  · rw [hissued]
    rcases hheld l r' hl with hl | ⟨-, rfl⟩
    · exact List.mem_cons_of_mem _ (h.issued l r' hl)
    · exact List.mem_cons_self
  · rw [hspent] at hr'
    rw [hissued]
    rcases List.mem_cons.mp hr' with rfl | hr'
    · exact List.mem_cons_of_mem _ hold
    · exact List.mem_cons_of_mem _ (h.spent r' hr')
  · rw [hspent] at hr'
    rcases List.mem_cons.mp hr' with rfl | hr'
    · exact ⟨i, _, hself, hrefreshing, by rw [hhand]; rfl, hsame⟩
    · -- what was spent before is nowhere: the resolution had nothing in hand
      rcases hheld l r' hl with hl | ⟨-, rfl⟩
      · obtain ⟨j, u, hj, hu, hsome, -⟩ := h.live r' hr' l hl
        obtain ⟨-, rfl⟩ := h.task_eq hi ht hj hu
        rw [hempty] at hsome
        exact absurd hsome nofun
      · exact absurd (h.spent _ hr') hfresh
  · obtain ⟨-, rfl⟩ := hnow hj hu
    rw [hreads] at hread'
    obtain ⟨hold', honly', -⟩ := h.reads i t hi ht id t₁ r' hread' hr'
    rw [hissued]
    refine ⟨List.mem_cons_of_mem _ hold', fun l hl => ?_, fun hn => ?_⟩
    · rcases hheld l r' hl with hl | ⟨-, rfl⟩
      · exact honly' l hl
      · exact absurd hold' hfresh
    · exact absurd (hsame.symm.trans hn) nofun

end

/-! ### One command -/

section

variable {here : Here} {requested : List (String × String)}

/-- The credential that a poll creates holds the token the poll was given. -/
theorem rotating_create {type : CredentialType} {secret : Secret} {metadata : Metadata}
    {k : Except Thrown String → Xai Unit} {id : String} (h : d.Rotating)
    (hi : d.tasks[i]? = some ⟨.call (.createCredential type secret metadata) k, here⟩)
    (hguard : here.refreshes = false ∧ ∀ t ∈ secret.token?, t.refreshToken = here.hand)
    (hsafe : Task.Safe rotates Stored ⟨k (.ok id), { here with hand := none }⟩) :
    (Runs.mk (d.world.next (.createCredential type secret metadata) (.ok id))
      (d.tasks.set i ⟨k (.ok id), { here with hand := none }⟩) requested).Rotating := by
  obtain ⟨hother, hsecret⟩ := hguard
  refine h.store hi hsafe not_false id (fun id' r hr => ?_) rfl rfl rfl rfl rfl rfl rfl
    fun hr => absurd (hother.symm.trans hr) nofun
  refine (tokenAt_insert (w := d.world) rfl hr).imp_right fun ⟨hid, hr⟩ => ⟨hid, ?_⟩
  obtain ⟨token, htoken, hr⟩ := Option.bind_eq_some_iff.mp hr
  exact (hsecret token htoken).symm.trans hr

/-- An update puts the token in hand into the row, in place of the one that has been spent. -/
theorem rotating_update {id : String} {secret : Secret} {metadata : Metadata}
    {k : Except Thrown (Option View) → Xai Unit} {row : Option View} (h : d.Rotating)
    (hi : d.tasks[i]? = some ⟨.call (.updateCredentialSecret id secret metadata) k, here⟩)
    (hguard : ∃ t, secret = .token t ∧ t.refreshToken = here.hand ∧ (here.refreshes = true →
      ∃ t₀ r, (id, Secret.token t₀) ∈ here.reads ∧ t₀.refreshToken = some r ∧
        here.spent = some r))
    (hsafe : Task.Safe rotates Stored ⟨k (.ok row), { here with hand := none }⟩) :
    (Runs.mk (d.world.next (.updateCredentialSecret id secret metadata) (.ok row))
      (d.tasks.set i ⟨k (.ok row), { here with hand := none }⟩) requested).Rotating := by
  obtain ⟨token, rfl, hhand, hreads⟩ := hguard
  have hrow : ∀ {id' r}, (d.world.next (.updateCredentialSecret id (.token token) metadata)
      (.ok row)).tokenAt id' = some r →
      (d.world.tokenAt id' = some r ∧ ∀ row ∈ d.world.rows, row.id = id' → row.id ≠ id) ∨
        (id' = id ∧ here.hand = some r) := by
    intro id' r hr
    refine (tokenAt_update (w := d.world) (fun _ => by rfl) rfl hr).imp_right ?_
    rintro ⟨row, -, rfl, hid, hr⟩
    exact ⟨hid, hhand.symm.trans hr⟩
  refine h.store hi hsafe not_false id (fun id' r hr => (hrow hr).imp_left And.left)
    rfl rfl rfl rfl rfl rfl rfl fun hr r hspent => ?_
  -- the token that has been spent was in the row that now holds the next one
  obtain ⟨t₀, r₀, hread, hr₀, hspent₀⟩ := hreads hr
  obtain rfl := Option.some_inj.mp (hspent₀.symm.trans hspent)
  obtain ⟨-, honly, -⟩ := h.reads i _ hi ⟨not_false, hr⟩ id t₀ r₀ hread hr₀
  refine ⟨fun hnext => ?_, honly⟩
  rcases hrow hnext with ⟨hold, hother⟩ | ⟨-, hnew⟩
  · obtain ⟨row, hrow, -⟩ := Option.bind_eq_some_iff.mp hold
    obtain ⟨hmem, hid⟩ := Table.get?_eq_some.mp hrow
    exact hother row hmem hid hid
  · exact absurd (honly (.hand i) ((held_hand hi).trans hnew)) nofun

/-- A refresh that the provider does not grant spends nothing; one that it does spends the token
that was read, and gives the next. -/
theorem rotating_grant {client : ResolvedXaiClient} {r : String}
    {k : Except Thrown Answer → Xai Unit} {x : Except Thrown Answer} (h : d.Rotating)
    (hi : d.tasks[i]? = some ⟨.call (.refreshGrant client r) k, here⟩)
    (hx : d.world.Answers (.refreshGrant client r) x)
    (hheard : Heard here (.refreshGrant client r) x)
    (hguard : here.refreshes = true ∧ here.spent = none ∧ here.hand = none ∧
      ∃ id t, (id, Secret.token t) ∈ here.reads ∧ t.refreshToken = some r)
    (hsafe : Task.Safe rotates Stored ⟨k x, here.next (.refreshGrant client r) x⟩) :
    (Runs.mk (d.world.next (.refreshGrant client r) x)
      (d.tasks.set i ⟨k x, here.next (.refreshGrant client r) x⟩) requested).Rotating := by
  obtain ⟨hr, hnone, hempty, id₀, t₀, hread, hr₀⟩ := hguard
  have hrefreshing : Refreshing (⟨.call (.refreshGrant client r) k, here⟩ : XaiTask) := ⟨id, hr⟩
  obtain ⟨-, -, hunspent⟩ := h.reads i _ hi hrefreshing id₀ t₀ r hread hr₀
  have hnew : r ∉ d.world.spent := hunspent hnone
  cases x with
  | error e =>
    -- the provider has not acted
    have hacted : e.acted = false := hheard
    refine h.keep hi hsafe id (fun _ _ h => h) rfl ?_ (if_neg hnew) rfl rfl ?_
      fun _ _ _ h _ => Or.inl h
    · show (if e.acted = true then _ else _) = _
      rw [hacted]
      rfl
    · show (if e.acted = true then _ else _) = _
      rw [hacted]
      rfl
  | ok answer =>
    by_cases hgranted : answer.status < 400
    · obtain ⟨hsome, -⟩ := hheard hgranted
      obtain ⟨new, hanswer⟩ := Option.isSome_iff_exists.mp hsome
      refine h.refresh hi hrefreshing hsafe hnone hempty hread hr₀ (hx new hanswer) rfl ?_ ?_
        (if_neg hnew) hr hanswer (if_pos hgranted) rfl
      · show answer.refreshToken.toList ++ d.world.issued = _
        rw [hanswer]
        rfl
      · exact if_pos (decide_eq_true hgranted)
    · -- an answer that is no grant holds no token
      have hno : answer.refreshToken = none := by
        rw [Answer.refreshToken, if_neg (by omega)]
      refine h.keep hi hsafe id (fun _ _ h => h) ?_ (if_neg ?_) (if_neg hnew) rfl ?_
        (if_neg hgranted) fun _ _ _ h _ => Or.inl h
      · show answer.refreshToken.toList ++ d.world.issued = _
        rw [hno]
        rfl
      · exact fun htrue => hgranted (of_decide_eq_true htrue)
      · exact hno.trans hempty.symm

end

/-- What one command of one program does to the tokens. -/
theorem rotating_advance {c : Cmd} {k : Except Thrown c.Resp → Xai Unit} {here : Here}
    {x : Except Thrown c.Resp} (h : d.Rotating) (hi : d.tasks[i]? = some ⟨.call c k, here⟩)
    (hx : d.world.Answers c x) (hheard : Heard here c x) :
    (Runs.mk (d.world.next c x) (d.tasks.set i ⟨k x, here.next c x⟩)
      (requestedBy here c x ++ d.requested)).Rotating := by
  obtain ⟨hguard, hall⟩ := safe_advance hi h.safe (x := x) hheard
  have hlt := (List.getElem?_eq_some_iff.mp hi).1
  have hsafe := hall _ (List.mem_set hlt _)
  have hrunning : ¬ Task.Done (⟨.call c k, here⟩ : XaiTask) := id
  by_cases hlooks : c.Looks
  · -- what only looks moves no token, and hears of tokens that are in their rows
    have hsees : here.Sees (here.next c x) := Here.sees_next hlooks x
    obtain ⟨hissued, hspent, hreplayed⟩ := provider_next_of_looks hlooks x
    exact h.keep hi hsafe hrunning (fun _ _ => tokenAt_next_of_looks hlooks x) hissued hspent
      hreplayed hsees.refreshes hsees.hand hsees.spent fun _ _ _ =>
        reads_next_of_looks hlooks hx
  -- of the others, a failed one has done nothing, except that a refresh may have been granted
  cases c with
  | findCredentialByType type => exact absurd trivial hlooks
  | getCredentialSecret id => exact absurd trivial hlooks
  | now => exact absurd trivial hlooks
  | updateCredentialMetadata id health code => exact absurd trivial hlooks
  | revokeCredential id => exact absurd trivial hlooks
  | recordAudit action success => exact absurd trivial hlooks
  | deviceAuthorization client =>
    cases x with
    | error e => exact h.unmoved hi hsafe hrunning rfl rfl rfl rfl
    | ok answer =>
      exact h.keep hi hsafe hrunning (fun _ _ h => h) rfl rfl rfl rfl rfl rfl
        fun _ _ _ h _ => Or.inl h
  | devicePoll client code =>
    cases x with
    | error e => exact h.unmoved hi hsafe hrunning rfl rfl rfl rfl
    | ok answer => exact h.give hi hsafe hguard hx (fun _ _ h => h) rfl rfl rfl rfl rfl
  | createCredential type secret metadata =>
    cases x with
    | error e => exact h.unmoved hi hsafe hrunning rfl rfl rfl rfl
    | ok id => exact rotating_create h hi hguard hsafe
  | updateCredentialSecret id secret metadata =>
    cases x with
    | error e => exact h.unmoved hi hsafe hrunning rfl rfl rfl rfl
    | ok row => exact rotating_update h hi hguard hsafe
  | refreshGrant client r => exact rotating_grant h hi hx hheard hguard hsafe

/-! ### A whole run -/

/-- A program enters with nothing in hand; a resolution only when none is under way. -/
theorem rotating_enter {entry : Entry} (h : d.Rotating)
    (hl : entry.refreshes = true → ∀ t ∈ d.tasks, ¬ Refreshing t) :
    (Runs.mk d.world (d.tasks ++ [⟨entry.prog, entry.here⟩]) d.requested).Rotating := by
  have hheld : ∀ l r, (Runs.mk d.world (d.tasks ++ [⟨entry.prog, entry.here⟩])
      d.requested).held l = some r → d.held l = some r := by
    intro l r hl
    cases l with
    | row id => exact hl
    | hand j =>
      obtain ⟨u, hu, hhand⟩ := Option.bind_eq_some_iff.mp hl
      rcases getElem?_append_cases hu with hu | rfl
      · exact (held_hand hu).trans hhand
      · exact absurd hhand nofun
  have hlive : ∀ {j : ℕ} {u : XaiTask}, d.tasks[j]? = some u →
      (d.tasks ++ [⟨entry.prog, entry.here⟩])[j]? = some u := fun hj => by
    rw [List.getElem?_append_left (List.getElem?_eq_some_iff.mp hj).1]
    exact hj
  refine ⟨fun u hu => ?_, fun j₁ j₂ u₁ u₂ hj₁ hj₂ hu₁ hu₂ => ?_, h.custody.drop hheld,
    fun l r hl => h.issued l r (hheld l r hl), h.spent, fun r hr l hl => ?_,
    fun j u hj hu id t₀ r hread hr => ?_, h.replayed⟩
  · exact of_mem_enter hu h.safe (entry_rotates entry)
  · by_cases hrefreshes : entry.refreshes = true
    · -- no other resolution is under way
      have hlast : ∀ {j : ℕ} {u : XaiTask}, (d.tasks ++ [⟨entry.prog, entry.here⟩])[j]? = some u →
          Refreshing u → j = d.tasks.length := by
        intro j u hj hu
        by_contra hne
        have hlt := (List.getElem?_eq_some_iff.mp hj).1
        rw [List.length_append, List.length_singleton] at hlt
        rw [List.getElem?_append_left (by omega)] at hj
        exact hl hrefreshes u (List.mem_of_getElem? hj) hu
      exact (hlast hj₁ hu₁).trans (hlast hj₂ hu₂).symm
    · rcases getElem?_append_cases hj₁ with hj₁ | rfl
      · rcases getElem?_append_cases hj₂ with hj₂ | rfl
        · exact h.one j₁ j₂ u₁ u₂ hj₁ hj₂ hu₁ hu₂
        · exact absurd hu₂.2 hrefreshes
      · exact absurd hu₁.2 hrefreshes
  · obtain ⟨j, u, hj, hu⟩ := h.live r hr l (hheld l r hl)
    exact ⟨j, u, hlive hj, hu⟩
  · rcases getElem?_append_cases hj with hj | rfl
    · obtain ⟨hissued, honly, hunspent⟩ := h.reads j u hj hu id t₀ r hread hr
      exact ⟨hissued, fun l hl => honly l (hheld l r hl), hunspent⟩
    · exact absurd hread List.not_mem_nil

/-- A crash loses what the program has in hand; a resolution has nothing. -/
theorem rotating_crash {t : XaiTask} (h : d.Rotating) (hi : d.tasks[i]? = some t)
    (hl : t.here.refreshes = true → t.here.hand = none) :
    (Runs.mk d.world (d.tasks.set i ⟨.ret (), { t.here with hand := none }⟩)
      d.requested).Rotating := by
  have hdone : ¬ Refreshing (⟨.ret (), { t.here with hand := none }⟩ : XaiTask) := fun hr =>
    hr.1 trivial
  have hheld : ∀ l r, (Runs.mk d.world (d.tasks.set i ⟨.ret (), { t.here with hand := none }⟩)
      d.requested).held l = some r → d.held l = some r := by
    intro l r hl
    cases l with
    | row id => exact hl
    | hand j =>
      rcases held_hand_set hi rfl hl with ⟨-, hnew⟩ | ⟨-, hold⟩
      · exact absurd hnew nofun
      · exact hold
  have hm : Moves d ⟨d.world, d.tasks.set i ⟨.ret (), { t.here with hand := none }⟩, d.requested⟩
      i t ⟨.ret (), { t.here with hand := none }⟩ :=
    { task := hi
      tasks := rfl
      safe := fun _ => rfl
      custody := h.custody.drop hheld
      held := fun l r hl => Or.inl (hheld l r hl)
      issued := fun _ hr => hr
      spent := rfl
      replayed := rfl
      refreshing := fun hr => absurd hr hdone
      reads := fun hr => absurd hr hdone }
  refine h.moves hm (hm.live h fun hr hsome => ?_)
  rw [hl hr.2] at hsome
  exact absurd hsome nofun

/-- A revoked row takes its token with it. -/
theorem rotating_revoke (h : d.Rotating) (id : String) :
    (Runs.mk { d.world with rows := d.world.rows.delete fun row => row.id = id } d.tasks
      d.requested).Rotating := by
  have hheld : ∀ l r, (Runs.mk { d.world with rows := d.world.rows.delete fun row => row.id = id }
      d.tasks d.requested).held l = some r → d.held l = some r := by
    intro l r hl
    cases l with
    | row id' => exact tokenAt_delete (w := d.world) rfl hl
    | hand j => exact hl
  refine ⟨h.safe, h.one, h.custody.drop hheld, fun l r hl => h.issued l r (hheld l r hl), h.spent,
    fun r hr l hl => h.live r hr l (hheld l r hl), fun j u hj hu id t₀ r hread hr => ?_,
    h.replayed⟩
  obtain ⟨hissued, honly, hunspent⟩ := h.reads j u hj hu id t₀ r hread hr
  exact ⟨hissued, fun l hl => honly l (hheld l r hl), hunspent⟩

theorem rotating_step {l : RunStep} (h : d.Rotating) (hl : d.Orderly l)
    (hs : d.step l = some d') : d'.Rotating := by
  cases l with
  | advance i answer =>
    obtain ⟨c, k, here, hi, hx, rfl⟩ := step_advance_cases hs
    exact rotating_advance h hi hx ((atCommand_iff hi).mp hl)
  | enter entry =>
    obtain rfl := Option.some_inj.mp hs
    exact rotating_enter h hl
  | crash i =>
    obtain ⟨t, hi, rfl⟩ := Option.map_eq_some_iff.mp hs
    exact rotating_crash h hi (hl t hi)
  | revoke id =>
    obtain rfl := Option.some_inj.mp hs
    exact rotating_revoke h id

/-- At the start each row has its own token. -/
theorem rotating_init {rows : Rows}
    (hrows : ∀ row ∈ rows, ∀ row' ∈ rows, ∀ r, row.refreshToken = some r →
      row'.refreshToken = some r → row.id = row'.id) : (init rows).Rotating := by
  have hheld : ∀ l r, (init rows).held l = some r →
      ∃ row ∈ rows, l = .row row.id ∧ row.refreshToken = some r := by
    intro l r hl
    cases l with
    | row id =>
      obtain ⟨row, hrow, hr⟩ := Option.bind_eq_some_iff.mp hl
      obtain ⟨hmem, rfl⟩ := Table.get?_eq_some.mp hrow
      exact ⟨row, hmem, rfl, hr⟩
    | hand j => exact absurd hl nofun
  refine ⟨nofun, fun i j t u hi => absurd hi nofun, fun l l' r hl hl' => ?_, fun l r hl => ?_,
    nofun, nofun, fun i t hi => absurd hi nofun, rfl⟩
  · obtain ⟨row, hrow, rfl, hr⟩ := hheld l r hl
    obtain ⟨row', hrow', rfl, hr'⟩ := hheld l' r hl'
    rw [hrows row hrow row' hrow' r hr hr']
  · obtain ⟨row, hrow, -, hr⟩ := hheld l r hl
    exact List.mem_filterMap.mpr ⟨row, hrow, hr⟩

/-- **No spent refresh token is presented**, in any run in which the worker resolves one token at a
time, hears what the provider has done and stores it, whatever administrators start, poll and revoke
meanwhile; and whenever no resolution is under way, no row holds a spent token. -/
theorem never_replayed {rows : Rows}
    (hrows : ∀ row ∈ rows, ∀ row' ∈ rows, ∀ r, row.refreshToken = some r →
      row'.refreshToken = some r → row.id = row'.id)
    (h : Transition.Reach step Orderly (init rows) d) :
    d.world.replayed = [] ∧ ((∀ t ∈ d.tasks, ¬ Refreshing t) →
      ∀ row ∈ d.world.rows, ∀ r ∈ row.refreshToken, r ∉ d.world.spent) := by
  have hrotating : d.Rotating :=
    h.invariant (rotating_init hrows) fun _ _ _ _ hr hl hs => rotating_step hr hl hs
  refine ⟨hrotating.replayed, fun hnone row hrow r hr hspent => ?_⟩
  have hheld : d.held (.row row.id) = some r := by
    rw [held, World.tokenAt, Table.get?_eq_some.mpr ⟨hrow, rfl⟩]
    exact hr
  obtain ⟨i, t, hi, ht, -⟩ := hrotating.live r hspent _ hheld
  exact hnone t (List.mem_of_getElem? hi) ht

instance decidableHeard (here : Here) (c : Cmd) (x : Except Thrown c.Resp) :
    Decidable (Heard here c x) := by
  induction c using Cmd.casesOn with
  | refreshGrant client r =>
    cases x with
    | error e => exact inferInstanceAs (Decidable (e.acted = false))
    | ok answer =>
      exact inferInstanceAs (Decidable (answer.status < 400 →
        answer.refreshToken.isSome ∧ ∃ parsed ∈ answer.token,
          (dateOf (here.now + parsed.expiresIn.getD (6 * 3600) * 1000)).isOk))
  | updateCredentialSecret id secret metadata =>
    cases x with
    | error => exact inferInstanceAs (Decidable (here.refreshes = false))
    | ok => exact isTrue trivial
  | _ => exact isTrue trivial

instance decidableOrderly (d : Runs) : DecidablePred d.Orderly := fun l => by
  cases l with
  | enter entry =>
    exact inferInstanceAs (Decidable (entry.refreshes = true → ∀ t ∈ d.tasks, ¬ Refreshing t))
  | advance i answer => exact inferInstanceAs (Decidable (AtCommand d.tasks i answer Heard))
  | crash i => exact inferInstanceAs
      (Decidable (∀ t ∈ d.tasks[i]?, t.here.refreshes = true → t.here.hand = none))
  | revoke id => exact isTrue trivial

namespace Sample

/-- A subscription that is about to expire. -/
def expiringRow : Row :=
  ⟨"c0", .xaiUserToken, .token ⟨"a0", some "r0", some 1000, []⟩, { health := some "healthy" }⟩

def expiringRows : Rows := ⟨[expiringRow], by decide⟩

/-- The tables answer as they stand at the start; the client is the one that ships. -/
def refreshing : List RunStep :=
  .enter (.resolve none) :: List.replicate 6 (.advance 0 (answering expiringRows))

/-- A resolution that ends when the provider has answered, and the next one. -/
def crashing : List RunStep :=
  .enter (.resolve none) :: List.replicate 5 (.advance 0 (answering expiringRows)) ++
    [.crash 0, .enter (.resolve none)] ++
      List.replicate 4 (.advance 1 (answering expiringRows)) ++
        [.advance 1 fun
          | .refreshGrant .. => .ok { status := 400, error := some "invalid_grant" }
          | c => answering expiringRows c]

end Sample

theorem expiringRows_apart : ∀ row ∈ Sample.expiringRows, ∀ row' ∈ Sample.expiringRows, ∀ r,
    row.refreshToken = some r → row'.refreshToken = some r → row.id = row'.id := by
  intro row hrow row' hrow' _ _ _
  rw [List.mem_singleton.mp hrow, List.mem_singleton.mp hrow']

theorem never_replayed_refreshing : ∃ d : Runs,
    Transition.Reach step Orderly (init Sample.expiringRows) d ∧ d.world.spent = ["r0"] ∧
      d.world.replayed = [] := by
  have hrun : Transition.run step (init Sample.expiringRows) Sample.refreshing = some _ := rfl
  have hreach := Transition.reach_of_run (φ := Orderly) (by decide) hrun
  exact ⟨_, hreach, rfl, (never_replayed expiringRows_apart hreach).1⟩

/-- One `UPDATE` does not save the token: a resolution that ends between the provider's answer and
that update leaves a spent token in the row, and the next one presents it. -/
theorem crash_replays : ∃ d : Runs,
    Transition.Reachable step (init Sample.expiringRows) d ∧ d.world.replayed = ["r0"] := by
  have hrun : Transition.run step (init Sample.expiringRows) Sample.crashing = some _ := rfl
  exact ⟨_, Transition.reach_of_run (Transition.runMeets_true _ _) hrun, rfl⟩

end Runs

end XaiOAuth
