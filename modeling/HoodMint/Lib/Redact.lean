/-
Replacing what stands behind certain groups of letters.

A pattern has groups, folded so that case does not matter, and letters that end a value.  Every
group that is followed by a value is kept, and the value is replaced by a mark.

* `Agree` — two texts are the same up to the first letter of a class, that letter included;
* `Pattern`, `Hit`, `Clean` — a group and its value; a text all of whose values are the mark;
* `replace` — from left to right, each value to its end; `Replaces`, the same as a relation;
* `clean_replace` — nothing is missed; `Clean.replace_eq` — and a second time nothing is done;
* `Clean.replace` — what one pattern has cleaned another leaves clean (`Apart`).
-/
import Mathlib.Data.List.Infix
import Mathlib.Data.List.TakeWhile

namespace Redact

variable {α : Type*}

/-! ### Texts that agree for a while -/

/-- The texts are the same up to the first letter of the class and in that letter. -/
inductive Agree (q : α → Bool) : List α → List α → Prop
  | nil : Agree q [] []
  | head {a : α} (s t : List α) (ha : q a = true) : Agree q (a :: s) (a :: t)
  | cons {s t : List α} (a : α) (h : Agree q s t) : Agree q (a :: s) (a :: t)

namespace Agree

variable {q : α → Bool} {w s t : List α}

theorem symm (h : Agree q s t) : Agree q t s := by
  induction h with
  | nil => exact .nil
  | head s t ha => exact .head t s ha
  | cons a _ ih => exact .cons a ih

theorem head?_eq (h : Agree q s t) : s.head? = t.head? := by
  cases h with
  | nil | head | cons => rfl

/-- A word without letters of the class is read in both. -/
theorem of_append (hw : ∀ a ∈ w, q a = false) (h : Agree q (w ++ s) t) :
    ∃ t', t = w ++ t' ∧ Agree q s t' := by
  induction w generalizing t with
  | nil => exact ⟨t, rfl, h⟩
  | cons a w ih =>
    cases h with
    | head _ t ha =>
      rw [hw a List.mem_cons_self] at ha
      exact absurd ha Bool.false_ne_true
    | cons _ h =>
      obtain ⟨t', rfl, h'⟩ := ih (fun b hb => hw b (List.mem_cons_of_mem a hb)) h
      exact ⟨t', rfl, h'⟩

end Agree

/-- A suffix that starts with a letter of the class lies behind a word without any. -/
theorem suffix_of_suffix_append {q : α → Bool} {w s t : List α} {a : α} (ha : q a = true)
    (hw : ∀ b ∈ w, q b = false) (h : a :: t <:+ w ++ s) : a :: t <:+ s := by
  induction w with
  | nil => exact h
  | cons b w ih =>
    rcases List.suffix_cons_iff.mp h with heq | h
    · rw [(List.cons.inj heq).1, hw b List.mem_cons_self] at ha
      exact absurd ha Bool.false_ne_true
    · exact ih (fun c hc => hw c (List.mem_cons_of_mem b hc)) h

/-- A stretch without stops, up to a stop or the end, is found from its text. -/
theorem span_unique {stop : α → Bool} {v r v' r' : List α} (hv : ∀ x ∈ v, stop x = false)
    (hr : ∀ x ∈ r.head?, stop x = true) (hv' : ∀ x ∈ v', stop x = false)
    (hr' : ∀ x ∈ r'.head?, stop x = true) (h : v ++ r = v' ++ r') : v = v' ∧ r = r' := by
  induction v generalizing v' with
  | nil =>
    cases v' with
    | nil => exact ⟨rfl, h⟩
    | cons x v' =>
      rw [List.nil_append] at h
      have hstop := hr x (by rw [h]; rfl)
      rw [hv' x List.mem_cons_self] at hstop
      exact absurd hstop Bool.false_ne_true
  | cons x v ih =>
    cases v' with
    | nil =>
      rw [List.nil_append] at h
      have hstop := hr' x (by rw [← h]; rfl)
      rw [hv x List.mem_cons_self] at hstop
      exact absurd hstop Bool.false_ne_true
    | cons y v' =>
      obtain ⟨rfl, hrest⟩ := List.cons.inj h
      obtain ⟨rfl, rfl⟩ := ih (fun z hz => hv z (List.mem_cons_of_mem _ hz))
        (fun z hz => hv' z (List.mem_cons_of_mem _ hz)) hrest
      exact ⟨rfl, rfl⟩

/-! ### Patterns -/

/-- Groups, each a letter of the class `head` and a body without any. -/
structure Pattern (α : Type*) where
  fold : α → α
  head : α → Bool
  groups : List (List α)
  stop : α → Bool
  mark : List α
  head_fold : ∀ a, head (fold a) = head a
  group_eq : ∀ g ∈ groups, ∃ a body, g = a :: body ∧ head a = true ∧ ∀ b ∈ body, head b = false
  group_unique : ∀ g ∈ groups, ∀ g' ∈ groups, g <+: g' → g = g'
  mark_ne_nil : mark ≠ []
  mark_head : ∀ b ∈ mark, head b = false
  mark_stop : ∀ b ∈ mark, stop b = false

namespace Pattern

variable (P : Pattern α)

/-- A group, the value behind it, and the rest, which starts with a stop if at all. -/
structure Hit (g v r : List α) : Prop where
  group : g.map P.fold ∈ P.groups
  value_ne_nil : v ≠ []
  value : ∀ x ∈ v, P.stop x = false
  rest : ∀ x ∈ r.head?, P.stop x = true

/-- Wherever a group has a value, that is the mark. -/
def Clean (s : List α) : Prop := ∀ g v r, g ++ (v ++ r) <:+ s → P.Hit g v r → v = P.mark

/-- No group has a value. -/
def Free (s : List α) : Prop := ∀ g v r, g ++ (v ++ r) <:+ s → ¬ P.Hit g v r

variable {P} {g v r g' v' r' s t : List α}

theorem Free.clean (h : P.Free s) : P.Clean s := fun g v r hs hhit => absurd hhit (h g v r hs)

theorem Clean.of_suffix (h : P.Clean s) (ht : t <:+ s) : P.Clean t :=
  fun g v r hs => h g v r (hs.trans ht)

/-- A group is a letter of the class and a body. -/
theorem Hit.group_eq (h : P.Hit g v r) :
    ∃ a body, g = a :: body ∧ P.head a = true ∧ ∀ b ∈ body, P.head b = false := by
  obtain ⟨a', body', heq, hhead, hbody⟩ := P.group_eq _ h.group
  cases g with
  | nil => exact absurd heq (List.cons_ne_nil _ _).symm
  | cons a body =>
    rw [List.map_cons] at heq
    obtain ⟨rfl, rfl⟩ := List.cons.inj heq
    rw [P.head_fold] at hhead
    refine ⟨a, body, rfl, hhead, fun b hb => ?_⟩
    rw [← P.head_fold]
    exact hbody _ (List.mem_map_of_mem hb)

/-- No group stands in a text without letters of the class. -/
theorem free_of_head (hs : ∀ a ∈ s, P.head a = false) : P.Free s := by
  intro g v r hsuffix hhit
  obtain ⟨a, body, rfl, ha, -⟩ := hhit.group_eq
  rw [hs a (hsuffix.subset List.mem_cons_self)] at ha
  exact Bool.false_ne_true ha

/-- Two groups with values at one place are the same. -/
theorem Hit.unique (h : P.Hit g v r) (h' : P.Hit g' v' r')
    (heq : g ++ (v ++ r) = g' ++ (v' ++ r')) : g = g' ∧ v = v' ∧ r = r' := by
  have hg : g = g' := by
    rcases List.prefix_or_prefix_of_prefix (List.prefix_append g (v ++ r))
      (heq ▸ List.prefix_append g' (v' ++ r')) with hpre | hpre
    · have hmap := P.group_unique _ h.group _ h'.group (hpre.map P.fold)
      exact hpre.eq_of_length (by simpa using congrArg List.length hmap)
    · have hmap := P.group_unique _ h'.group _ h.group (hpre.map P.fold)
      exact (hpre.eq_of_length (by simpa using congrArg List.length hmap)).symm
  subst hg
  exact ⟨rfl, span_unique h.value h.rest h'.value h'.rest (List.append_cancel_left heq)⟩

/-- The value behind a group, as far as it goes. -/
theorem exists_hit (hg : g.map P.fold ∈ P.groups) (hr : ∃ x ∈ r.head?, P.stop x = false) :
    P.Hit g (r.takeWhile fun x => !P.stop x) (r.dropWhile fun x => !P.stop x) where
  group := hg
  value_ne_nil := by
    obtain ⟨x, hx, hstop⟩ := hr
    cases r with
    | nil => exact absurd hx (Option.not_mem_none _)
    | cons y r =>
      obtain rfl : y = x := Option.some_inj.mp hx
      rw [List.takeWhile_cons, if_pos (by rw [hstop]; rfl)]
      exact List.cons_ne_nil _ _
  value x hx := by simpa using List.mem_takeWhile_imp hx
  rest x hx := by
    have hfirst := List.head?_dropWhile_not (fun x => !P.stop x) r
    rw [hx] at hfirst
    simpa using hfirst

/-! ### Replacing -/

section

variable [DecidableEq α]

/-- The group that stands at the front with a value behind it. -/
def group? (P : Pattern α) (s : List α) : Option (List α) :=
  P.groups.find? fun g =>
    (s.take g.length).map P.fold = g ∧ (s.drop g.length).head?.any fun x => !P.stop x

/-- Every value is replaced by the mark. -/
def replace (P : Pattern α) : List α → List α
  | [] => []
  | a :: s =>
    match P.group? (a :: s) with
    | none => a :: replace P s
    | some g =>
      (a :: s).take g.length ++ (P.mark ++
        replace P ((s.drop (g.length - 1)).dropWhile fun x => !P.stop x))
termination_by s => s.length
decreasing_by
  · exact Nat.lt_succ_self _
  · have hdrop := List.length_dropWhile_le (fun x => !P.stop x) (s.drop (g.length - 1))
    rw [List.length_drop] at hdrop
    rw [List.length_cons]
    omega

end

/-- How a text is replaced. -/
inductive Replaces (P : Pattern α) : List α → List α → Prop
  | nil : Replaces P [] []
  | hit {g v r t : List α} (h : P.Hit g v r) (ht : Replaces P r t) :
      Replaces P (g ++ (v ++ r)) (g ++ (P.mark ++ t))
  | skip {a : α} {s t : List α} (h : ∀ g v r, a :: s = g ++ (v ++ r) → ¬ P.Hit g v r)
      (ht : Replaces P s t) : Replaces P (a :: s) (a :: t)

section

variable [DecidableEq α]

theorem group?_eq_some {g : List α} (h : P.group? s = some g) :
    (s.take g.length).map P.fold = g ∧ g ∈ P.groups ∧
      ∃ x ∈ (s.drop g.length).head?, P.stop x = false := by
  have hfound := List.find?_some h
  rw [decide_eq_true_eq] at hfound
  refine ⟨hfound.1, List.mem_of_find?_eq_some h, ?_⟩
  cases hnext : (s.drop g.length).head? with
  | none =>
    rw [hnext] at hfound
    exact absurd hfound.2 Bool.false_ne_true
  | some x =>
    rw [hnext, Option.any_some] at hfound
    exact ⟨x, rfl, by simpa using hfound.2⟩

theorem group?_eq_none (h : P.group? s = none) (hs : s = g ++ (v ++ r)) : ¬ P.Hit g v r := by
  intro hhit
  have hnone := List.find?_eq_none.mp h _ hhit.group
  rw [decide_eq_true_eq, List.length_map, hs, List.take_left, List.drop_left] at hnone
  refine hnone ⟨rfl, ?_⟩
  obtain ⟨x, v', hv⟩ := List.exists_cons_of_ne_nil hhit.value_ne_nil
  have hstop := hhit.value x (by rw [hv]; exact List.mem_cons_self)
  rw [hv]
  show (some x).any _ = true
  rw [Option.any_some, hstop]
  rfl

/-- **The relation** is that of the function. -/
theorem replaces (P : Pattern α) (s : List α) : P.Replaces s (P.replace s) := by
  induction s using replace.induct P with
  | case1 =>
    rw [replace]
    exact .nil
  | case2 a s hnone ih =>
    rw [replace, hnone]
    exact .skip (fun g v r hs => group?_eq_none hnone hs) ih
  | case3 a s g hsome ih =>
    rw [replace, hsome]
    obtain ⟨hg, hmem, hnext⟩ := group?_eq_some hsome
    obtain ⟨b, body, heq, -⟩ := P.group_eq g hmem
    have hlen : g.length = g.length - 1 + 1 := by
      rw [heq]
      rfl
    have hdrop : (a :: s).drop g.length = s.drop (g.length - 1) := by
      rw [hlen, List.drop_succ_cons]
      rfl
    show P.Replaces (a :: s) ((a :: s).take g.length ++
      (P.mark ++ P.replace ((s.drop (g.length - 1)).dropWhile fun x => !P.stop x)))
    rw [← hdrop] at ih ⊢
    have hhit := exists_hit (by rw [hg]; exact hmem) hnext
    have hreplaces := Replaces.hit hhit ih
    rwa [List.takeWhile_append_dropWhile, List.take_append_drop] at hreplaces

end

namespace Replaces

/-- What comes before the first letter of the class stays. -/
theorem agree (h : P.Replaces s t) : Agree P.head s t := by
  induction h with
  | nil => exact .nil
  | hit h ht ih =>
    obtain ⟨a, body, rfl, ha, -⟩ := h.group_eq
    exact .head _ _ ha
  | skip h ht ih => exact .cons _ ih

/-- **Nothing is missed.** -/
theorem clean (h : P.Replaces s t) : P.Clean t := by
  induction h with
  | nil =>
    intro g v r hs hhit
    obtain ⟨a, body, rfl, -⟩ := hhit.group_eq
    exact absurd (List.suffix_nil.mp hs) (List.cons_ne_nil _ _)
  | @hit g v r t h ht ih =>
    intro g' v' r' hs hhit
    obtain ⟨a, body, rfl, ha, hbody⟩ := h.group_eq
    obtain ⟨a', body', rfl, ha', -⟩ := hhit.group_eq
    rcases List.suffix_cons_iff.mp hs with heq | hs
    · -- the group that was found here, whose value is now the mark
      have hmark : P.Hit (a :: body) P.mark t :=
        { group := h.group
          value_ne_nil := P.mark_ne_nil
          value := P.mark_stop
          rest := by rw [← ht.agree.head?_eq]; exact h.rest }
      exact (hhit.unique hmark heq).2.1
    · refine ih _ _ _ ?_ hhit
      refine suffix_of_suffix_append (w := body ++ P.mark) ha'
        (fun b hb => (List.mem_append.mp hb).elim (hbody b) (P.mark_head b)) ?_
      rw [List.append_assoc]
      exact hs
  | @skip a s t h ht ih =>
    intro g v r hs hhit
    obtain ⟨b, body, rfl, -, hbody⟩ := hhit.group_eq
    rcases List.suffix_cons_iff.mp hs with heq | hs
    · -- the same group has stood there before, with a value behind it
      obtain ⟨rfl, rfl⟩ := List.cons.inj heq
      obtain ⟨s', rfl, hagree⟩ := ht.agree.symm.of_append hbody
      obtain ⟨x, v', rfl⟩ := List.exists_cons_of_ne_nil hhit.value_ne_nil
      have hnext : ∃ y ∈ s'.head?, P.stop y = false :=
        ⟨x, by rw [← hagree.head?_eq]; rfl, hhit.value x List.mem_cons_self⟩
      refine absurd (exists_hit hhit.group hnext) (h _ _ _ ?_)
      rw [List.takeWhile_append_dropWhile]
      rfl
    · exact ih _ _ _ hs hhit

/-- A clean text stays as it is. -/
theorem eq_of_clean (h : P.Replaces s t) (hs : P.Clean s) : t = s := by
  induction h with
  | nil => rfl
  | hit h ht ih =>
    rw [hs _ _ _ List.suffix_rfl h, ih (hs.of_suffix ?_)]
    rw [← List.append_assoc]
    exact List.suffix_append _ _
  | skip h ht ih => rw [ih (hs.of_suffix (List.suffix_cons _ _))]

end Replaces

/-- **Nothing is missed** by the replacement. -/
theorem clean_replace [DecidableEq α] (P : Pattern α) (s : List α) : P.Clean (P.replace s) :=
  (P.replaces s).clean

theorem Clean.replace_eq [DecidableEq α] (h : P.Clean s) : P.replace s = s :=
  (P.replaces s).eq_of_clean h

/-! ### Two patterns -/

/-- The groups and the mark of one pattern have no letter that starts a group of the other. -/
structure Apart (P Q : Pattern α) : Prop where
  groups : ∀ g ∈ P.groups, ∀ b ∈ g, Q.head b = false
  mark : ∀ b ∈ P.mark, Q.head b = false
  fold : ∀ a, Q.head (P.fold a) = Q.head a

variable {Q : Pattern α}

theorem Apart.group (h : Apart P Q) (hhit : P.Hit g v r) : ∀ b ∈ g, Q.head b = false := by
  intro b hb
  rw [← h.fold]
  exact h.groups _ hhit.group _ (List.mem_map_of_mem hb)

/-- **What one pattern has cleaned**, another leaves clean. -/
theorem Replaces.clean_of_clean (hPQ : Apart P Q) (hQP : Apart Q P) (h : Q.Replaces s t)
    (hs : P.Clean s) : P.Clean t := by
  induction h with
  | nil => exact hs
  | @hit g v r t h ht ih =>
    intro g' v' r' hsuffix hhit
    obtain ⟨a', body', rfl, ha', -⟩ := hhit.group_eq
    have hrest : P.Clean r := by
      refine hs.of_suffix ?_
      rw [← List.append_assoc]
      exact List.suffix_append _ _
    refine ih hrest _ _ _ ?_ hhit
    refine suffix_of_suffix_append (w := g ++ Q.mark) ha'
      (fun b hb => (List.mem_append.mp hb).elim (hQP.group h b) (hQP.mark b)) ?_
    rw [List.append_assoc]
    exact hsuffix
  | @skip a s t h ht ih =>
    intro g v r hsuffix hhit
    rcases List.suffix_cons_iff.mp hsuffix with heq | hsuffix
    · -- the group and its value, which is the mark, are read in the text before as well
      obtain ⟨b, body, rfl, -⟩ := hhit.group_eq
      obtain ⟨rfl, rfl⟩ := List.cons.inj heq
      have hbody : ∀ c ∈ body, Q.head c = false := fun c hc =>
        hPQ.group hhit c (List.mem_cons_of_mem _ hc)
      obtain ⟨s', rfl, hagree⟩ := ht.agree.symm.of_append hbody
      obtain ⟨x, v', rfl⟩ := List.exists_cons_of_ne_nil hhit.value_ne_nil
      have hnext : ∃ y ∈ s'.head?, P.stop y = false :=
        ⟨x, by rw [← hagree.head?_eq]; rfl, hhit.value x List.mem_cons_self⟩
      have hbefore := exists_hit hhit.group hnext
      have hmark := hs _ _ _ (by rw [List.takeWhile_append_dropWhile]; exact List.suffix_rfl)
        hbefore
      rw [← List.takeWhile_append_dropWhile (p := fun x => !P.stop x) (l := s'), hmark] at hagree
      obtain ⟨r₀, heq₀, hagree₀⟩ := hagree.symm.of_append hPQ.mark
      refine (span_unique hhit.value hhit.rest P.mark_stop ?_ heq₀).1
      rw [← hagree₀.head?_eq]
      exact hbefore.rest
    · exact ih (hs.of_suffix (List.suffix_cons _ _)) _ _ _ hsuffix hhit

end Pattern

end Redact
