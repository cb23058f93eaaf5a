/-
Texts as segments between separators.

* `segments`, `joined` — the segments of a text that are not empty, and the text that has them
  each behind one separator; `segments_joined`: the segments of that text are those;
* `around` — what stands before and behind the first segment;
* `around_joined_iff` — to write another first segment and join again leaves the rest of the text
  alone just when the text was joined in that way, without empty segments (`Tidy`).
-/
import Mathlib.Data.List.Basic

namespace Segments

variable {α : Type*} {sep : α}

theorem intercalate_cons (segment : List α) (segs : List (List α)) :
    [sep].intercalate (segment :: segs) = segment ++ segs.flatMap fun s => sep :: s := by
  induction segs generalizing segment with
  | nil => simp
  | cons s segs ih =>
    rw [List.intercalate_cons_cons, ih s, List.flatMap_cons]
    simp

variable [DecidableEq α]

/-- The segments that are not empty. -/
def segments (sep : α) (text : List α) : List (List α) :=
  (text.splitOn sep).filter fun segment => segment ≠ []

/-- Each segment behind a separator. -/
def joined (sep : α) (segs : List (List α)) : List α := sep :: [sep].intercalate segs

/-- What stands before and behind the first segment that is not empty. -/
def around (sep : α) (text : List α) : List α × List α :=
  (text.takeWhile fun a => a = sep, (text.dropWhile fun a => a = sep).dropWhile fun a => a ≠ sep)

/-- The text is a separator and segments of which none is empty. -/
def Tidy (sep : α) (text : List α) : Prop :=
  ∃ segs, text.splitOn sep = [] :: segs ∧ [] ∉ segs

theorem not_mem_of_mem_splitOn {text segment : List α} (h : segment ∈ text.splitOn sep) :
    sep ∉ segment := by
  induction text generalizing segment with
  | nil =>
    rw [List.splitOn_nil, List.mem_singleton] at h
    rw [h]
    exact List.not_mem_nil
  | cons a text ih =>
    rw [List.splitOn_cons_eq_if_modifyHead] at h
    split at h
    · rcases List.mem_cons.mp h with rfl | h
      · exact List.not_mem_nil
      · exact ih h
    · next hne =>
      obtain ⟨first, rest, hsplit⟩ := List.exists_cons_of_ne_nil (List.splitOn_ne_nil sep text)
      rw [hsplit, List.modifyHead_cons] at h
      rcases List.mem_cons.mp h with rfl | h
      · have hfirst := ih (hsplit ▸ List.mem_cons_self)
        simp only [List.mem_cons, not_or]
        exact ⟨fun heq => hne (by simp [heq]), hfirst⟩
      · exact ih (hsplit ▸ List.mem_cons_of_mem first h)

theorem mem_segments {text segment : List α} (h : segment ∈ segments sep text) :
    segment ≠ [] ∧ sep ∉ segment := by
  obtain ⟨hmem, hne⟩ := List.mem_filter.mp h
  exact ⟨of_decide_eq_true hne, not_mem_of_mem_splitOn hmem⟩

theorem mem_of_mem_segments {text segment : List α} {a : α} (h : segment ∈ segments sep text)
    (ha : a ∈ segment) : a ∈ text := by
  have hmem : segment ∈ text.splitOn sep := (List.mem_filter.mp h).1
  have htext := @List.intercalate_splitOn α text _ _ sep
  cases hsplit : text.splitOn sep with
  | nil => exact absurd hsplit (List.splitOn_ne_nil sep text)
  | cons first rest =>
    rw [hsplit] at hmem htext
    rw [← htext, intercalate_cons, List.mem_append]
    rcases List.mem_cons.mp hmem with rfl | hmem
    · exact Or.inl ha
    · exact Or.inr (List.mem_flatMap.mpr ⟨segment, hmem, List.mem_cons_of_mem sep ha⟩)

theorem splitOn_joined {segs : List (List α)} (hne : segs ≠ []) (h : ∀ s ∈ segs, sep ∉ s) :
    (joined sep segs).splitOn sep = [] :: segs := by
  have hsplit := List.splitOn_append_cons_self_of_not_mem (List.not_mem_nil (a := sep))
    ([sep].intercalate segs)
  rw [List.splitOn_intercalate sep h hne] at hsplit
  exact hsplit

/-- **Joined segments** are found again. -/
theorem segments_joined {segs : List (List α)} (h : ∀ s ∈ segs, s ≠ [] ∧ sep ∉ s)
    (hne : segs ≠ []) : segments sep (joined sep segs) = segs := by
  rw [segments, splitOn_joined hne fun s hs => (h s hs).2, List.filter_cons_of_neg (by simp)]
  exact List.filter_eq_self.mpr fun s hs => decide_eq_true (h s hs).1

theorem around_joined {segment : List α} (hne : segment ≠ []) (hsep : sep ∉ segment)
    (segs : List (List α)) : around sep (joined sep (segment :: segs)) =
      ([sep], segs.flatMap fun s => sep :: s) := by
  obtain ⟨a, rest, rfl⟩ := List.exists_cons_of_ne_nil hne
  have ha : a ≠ sep := fun heq => hsep (heq ▸ List.mem_cons_self)
  have hall : ∀ b ∈ a :: rest, decide (b ≠ sep) = true :=
    fun b hb => decide_eq_true fun heq => hsep (heq ▸ hb)
  have hbehind : (segs.flatMap fun s => sep :: s).dropWhile (fun b => b ≠ sep) =
      segs.flatMap fun s => sep :: s := by
    cases segs with
    | nil => rfl
    | cons s segs => simp
  rw [joined, intercalate_cons, around]
  have hfront : (sep :: (a :: rest ++ segs.flatMap fun s => sep :: s)).dropWhile
      (fun b => b = sep) = a :: rest ++ segs.flatMap fun s => sep :: s := by
    simp [ha]
  rw [hfront, List.dropWhile_append_of_pos hall, hbehind]
  simp [ha]

/-- A tidy text is its segments, joined. -/
theorem Tidy.eq_joined {text : List α} (h : Tidy sep text) (hne : segments sep text ≠ []) :
    text = joined sep (segments sep text) := by
  obtain ⟨segs, hsplit, hempty⟩ := h
  have hsegs : segments sep text = segs := by
    rw [segments, hsplit, List.filter_cons_of_neg (by simp)]
    exact List.filter_eq_self.mpr fun s hs => decide_eq_true fun heq => hempty (heq ▸ hs)
  have htext := @List.intercalate_splitOn α text _ _ sep
  rw [hsplit] at htext
  rw [hsegs] at hne ⊢
  obtain ⟨s, segs, rfl⟩ := List.exists_cons_of_ne_nil hne
  rw [← htext, joined, List.intercalate_cons_cons]
  rfl

/-- **Another first segment** leaves what is around it alone just in a tidy text. -/
theorem around_joined_iff {text first segment : List α} {rest : List (List α)}
    (htext : segments sep text = first :: rest) (hne : segment ≠ []) (hsep : sep ∉ segment) :
    around sep (joined sep (segment :: rest)) = around sep text ↔ Tidy sep text := by
  have hsegs : ∀ s ∈ first :: rest, s ≠ [] ∧ sep ∉ s :=
    fun s hs => mem_segments (htext ▸ hs)
  rw [around_joined hne hsep]
  constructor
  · intro haround
    have hbefore : [sep] = text.takeWhile fun a => a = sep := congrArg Prod.fst haround
    have hbehind := congrArg Prod.snd haround
    change (rest.flatMap fun s => sep :: s) =
      (text.dropWhile fun a => a = sep).dropWhile fun a => a ≠ sep at hbehind
    have hhead := @List.head?_dropWhile_not _ (fun a => decide (a = sep)) text
    generalize htail : (text.dropWhile fun a => decide (a = sep)) = tail at hbehind hhead
    have hwhole : sep :: tail = text := by
      rw [← htail]
      exact (congrArg (· ++ _) hbefore).trans List.takeWhile_append_dropWhile
    generalize hword : (tail.takeWhile fun a => decide (a ≠ sep)) = word
    have hpieces : word ++ (rest.flatMap fun s => sep :: s) = tail := by
      rw [← hword, hbehind]
      exact List.takeWhile_append_dropWhile
    have hword_sep : sep ∉ word := by
      intro hmem
      rw [← hword] at hmem
      simpa using List.all_eq_true.mp List.all_takeWhile sep hmem
    -- what stands behind the separator starts with something else
    have hword_ne : word ≠ [] := by
      rintro rfl
      rw [List.nil_append] at hpieces
      cases rest with
      | nil =>
        obtain rfl : [] = tail := hpieces
        rw [← hwhole] at htext
        simp [segments, List.splitOn_cons_eq_if_modifyHead] at htext
      | cons s segs =>
        rw [← hpieces] at hhead
        simp at hhead
    have hjoined : text = joined sep (word :: rest) := by
      rw [← hwhole, ← hpieces, joined, intercalate_cons]
    refine ⟨word :: rest, ?_, ?_⟩
    · rw [hjoined, splitOn_joined (List.cons_ne_nil _ _)]
      exact List.forall_mem_cons.mpr
        ⟨hword_sep, fun s hs => (hsegs s (List.mem_cons_of_mem first hs)).2⟩
    · rw [List.mem_cons, not_or]
      exact ⟨hword_ne.symm, fun hmem => (hsegs [] (List.mem_cons_of_mem first hmem)).1 rfl⟩
  · intro h
    have hself := h.eq_joined (by simp [htext])
    rw [hself, htext, around_joined (hsegs first List.mem_cons_self).1
      (hsegs first List.mem_cons_self).2]

end Segments
