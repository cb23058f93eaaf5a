/-
Long messages in several chunks (`packages/notifications/src/render.ts`).

* `slices`, `packLine`, `chunkDiscordMessage` — as in the source; the limit is positive, which is
  what the inner loop ends by;
* `behind` — the lines that wait and the next one as one text; `packLine_of_fits`,
  `packLine_of_not_fits`: what is done with a line is decided by its length;
* `Filled` — the invariant: no chunk and nothing that waits is too long, and the two say what has
  been read (`Filled.packLines`);
* `NoBlankRun` — no blank lines wait when a line comes that does not fit behind them, and no
  aligned piece of a line that is too long is blank;
* `lossless_iff` — all that is asked of the chunks, and when it holds; `blank_first_line`, a
  message of which an empty chunk is sent.
-/
import HoodMint.Lib.Utf16
import Mathlib.Data.PNat.Notation
import Mathlib.Data.PNat.Defs

namespace DiscordRender

open Utf16

variable {maxLen : ℕ+}

/-! ### Chunks -/

/-- The slices of a line from an index on. -/
def slices (maxLen : ℕ+) (line : JsString) (i : ℕ) : List JsString :=
  if i < line.length then (line.drop i).take maxLen :: slices maxLen line (i + maxLen) else []
termination_by line.length - i
decreasing_by
  have hpos := maxLen.pos
  omega

/-- The chunks that are done, and the lines that wait. -/
structure Packing where
  chunks : List JsString
  current : JsString

/-- What the loop does with a line. -/
def packLine (maxLen : ℕ+) (p : Packing) (line : JsString) : Packing :=
  if p.current.length + line.length + 1 > maxLen then
    let flushed : Packing :=
      if p.current.length > 0 then ⟨p.chunks ++ [trim p.current], []⟩ else p
    if line.length > maxLen then ⟨flushed.chunks ++ slices maxLen line 0, flushed.current⟩
    else ⟨flushed.chunks, line⟩
  else ⟨p.chunks, if p.current = [] then line else p.current ++ 10 :: line⟩

/-- `chunkDiscordMessage`. -/
def chunkDiscordMessage (content : JsString) (maxLen : ℕ+) : List JsString :=
  if content.length ≤ maxLen then [content]
  else
    let p := (content.splitOn 10).foldl (packLine maxLen) ⟨[], []⟩
    if (trim p.current).length > 0 then p.chunks ++ [trim p.current] else p.chunks

/-! ### Blank strings -/

/-- What of a string is not white space. -/
def ink (s : JsString) : JsString := s.filter fun u => !isSpace u

/-- Nothing is left of the string when it is trimmed. -/
def Blank (s : JsString) : Prop := ink s = []

instance : DecidablePred Blank := fun s => (inferInstance : Decidable (ink s = []))

section

variable {s t : JsString}

@[simp] theorem ink_append (s t : JsString) : ink (s ++ t) = ink s ++ ink t :=
  List.filter_append _ _

theorem ink_newline (s : JsString) : ink (10 :: s) = ink s := rfl

theorem ink_dropWhile (s : JsString) : ink (s.dropWhile isSpace) = ink s := by
  conv => rhs; rw [← List.takeWhile_append_dropWhile (p := isSpace) (l := s), ink_append]
  have hspace : ink (s.takeWhile isSpace) = [] := by
    refine List.filter_eq_nil_iff.mpr fun u hu => ?_
    rw [List.mem_takeWhile_imp hu]
    exact Bool.false_ne_true
  rw [hspace, List.nil_append]

/-- Trimming takes white space only. -/
theorem ink_trim (s : JsString) : ink (trim s) = ink s := by
  rw [trim, List.rdropWhile, ink, List.filter_reverse]
  show (ink ((s.dropWhile isSpace).reverse.dropWhile isSpace)).reverse = ink s
  rw [ink_dropWhile, ink, List.filter_reverse, List.reverse_reverse]
  exact ink_dropWhile s

theorem length_trim_le (s : JsString) : (trim s).length ≤ s.length :=
  ((List.rdropWhile_prefix isSpace _).length_le).trans (List.length_dropWhile_le isSpace s)

theorem trim_eq_nil : trim s = [] ↔ Blank s := by
  rw [trim, List.rdropWhile_eq_nil_iff, Blank, ← ink_dropWhile, ink, List.filter_eq_nil_iff]
  simp

theorem blank_trim : Blank (trim s) ↔ Blank s := by
  rw [Blank, ink_trim, Blank]

theorem Blank.of_eq_nil (h : s = []) : Blank s := by
  rw [h]
  rfl

theorem length_pos_of_not_blank (h : ¬ Blank s) : 1 ≤ s.length :=
  List.length_pos_iff.mpr fun hnil => h (.of_eq_nil hnil)

end

/-- The lines of a content have its ink. -/
theorem ink_intercalate (lines : List JsString) :
    ink ([10].intercalate lines) = lines.flatMap ink := by
  induction lines with
  | nil => rfl
  | cons line lines ih =>
    cases lines with
    | nil => simp [List.intercalate]
    | cons line' lines =>
      have hcons : [10].intercalate (line :: line' :: lines) =
          line ++ 10 :: [10].intercalate (line' :: lines) := by simp [List.intercalate]
      rw [hcons, ink_append, ink_newline, ih, ← List.flatMap_cons]

/-! ### Lines that are too long -/

section

variable {line c : JsString} {i : ℕ}

theorem mem_slices : c ∈ slices maxLen line i ↔
    ∃ k, i + k * maxLen < line.length ∧ c = (line.drop (i + k * maxLen)).take maxLen := by
  induction i using slices.induct maxLen line with
  | case1 i hi ih =>
    rw [slices, if_pos hi, List.mem_cons, ih]
    constructor
    · rintro (rfl | ⟨k, hk, rfl⟩)
      · exact ⟨0, by simpa using hi, by simp⟩
      · exact ⟨k + 1, by rw [Nat.succ_mul]; omega, by rw [Nat.succ_mul]; congr 2; omega⟩
    · rintro ⟨k, hk, rfl⟩
      cases k with
      | zero => exact Or.inl (by simp)
      | succ k =>
        rw [Nat.succ_mul] at hk
        exact Or.inr ⟨k, by omega, by rw [Nat.succ_mul]; congr 2; omega⟩
  | case2 i hi =>
    rw [slices, if_neg hi]
    simp only [List.not_mem_nil, false_iff, not_exists, not_and]
    intro k hk
    omega

theorem flatten_slices : (slices maxLen line i).flatten = line.drop i := by
  induction i using slices.induct maxLen line with
  | case1 i hi ih =>
    rw [slices, if_pos hi, List.flatten_cons, ih, ← List.drop_drop, List.take_append_drop]
  | case2 i hi =>
    rw [slices, if_neg hi, List.drop_eq_nil_of_le (not_lt.mp hi)]
    rfl

theorem length_le_of_mem_slices (h : c ∈ slices maxLen line i) : c.length ≤ maxLen := by
  obtain ⟨k, -, rfl⟩ := mem_slices.mp h
  exact List.length_take_le _ _

end

/-! ### One line -/

/-- A line behind those that wait. -/
def behind (current line : JsString) : JsString :=
  if current = [] then line else current ++ 10 :: line

/-- What is sent of the lines that wait when the next does not fit. -/
def flush (current : JsString) : List JsString := if current = [] then [] else [trim current]

section

variable {p : Packing} {line : JsString}

theorem packLine_of_fits (h : (behind p.current line).length ≤ maxLen) :
    packLine maxLen p line = ⟨p.chunks, behind p.current line⟩ := by
  by_cases hcurrent : p.current = []
  · rw [behind, if_pos hcurrent] at h ⊢
    have hflushed : ∀ q : Packing, (if ([] : JsString).length > 0 then q else p) = p :=
      fun q => if_neg (lt_irrefl 0)
    rw [packLine, hcurrent, hflushed]
    -- a line of just the limit takes the other branch, to the same end
    split
    · rw [if_neg (not_lt.mpr h)]
    · rw [if_pos rfl]
  · rw [behind, if_neg hcurrent] at h ⊢
    rw [List.length_append, List.length_cons] at h
    rw [packLine, if_neg (by omega), if_neg hcurrent]

theorem packLine_of_not_fits (h : maxLen < (behind p.current line).length) :
    packLine maxLen p line =
      if maxLen < line.length then ⟨p.chunks ++ flush p.current ++ slices maxLen line 0, []⟩
      else ⟨p.chunks ++ flush p.current, line⟩ := by
  by_cases hcurrent : p.current = []
  · rw [behind, if_pos hcurrent] at h
    have hflushed : ∀ q : Packing, (if ([] : JsString).length > 0 then q else p) = p :=
      fun q => if_neg (lt_irrefl 0)
    rw [packLine, hcurrent, hflushed, if_pos (by simp only [List.length_nil]; omega), if_pos h,
      if_pos h, flush, if_pos rfl, List.append_nil, hcurrent]
  · rw [behind, if_neg hcurrent, List.length_append, List.length_cons] at h
    rw [packLine, if_pos (by omega), if_pos (List.length_pos_iff.mpr hcurrent), flush,
      if_neg hcurrent]

@[simp] theorem ink_behind (current line : JsString) :
    ink (behind current line) = ink current ++ ink line := by
  rw [behind]
  split
  · next h =>
    rw [h]
    rfl
  · rw [ink_append, ink_newline]

theorem ink_flush (current : JsString) : ink (flush current).flatten = ink current := by
  rw [flush]
  split
  · next h => rw [h, List.flatten_nil]
  · rw [List.flatten_singleton, ink_trim]

end

/-! ### All lines -/

/-- No chunk is too long and no line waits that is, and nothing but white space is lost of what has
been read. -/
structure Filled (maxLen : ℕ+) (read : JsString) (p : Packing) : Prop where
  chunks : ∀ c ∈ p.chunks, c.length ≤ maxLen
  current : p.current.length ≤ maxLen
  ink : ink p.chunks.flatten ++ ink p.current = ink read

theorem Filled.packLine {read line : JsString} {p : Packing} (h : Filled maxLen read p) :
    Filled maxLen (read ++ line) (packLine maxLen p line) := by
  have hflush : ∀ c ∈ flush p.current, c.length ≤ maxLen := by
    intro c hc
    rw [flush] at hc
    split at hc
    · exact absurd hc List.not_mem_nil
    · rw [List.mem_singleton.mp hc]
      exact (length_trim_le _).trans h.current
  by_cases hfits : (behind p.current line).length ≤ maxLen
  · rw [packLine_of_fits hfits]
    refine ⟨h.chunks, hfits, ?_⟩
    rw [ink_append, ← h.ink, ink_behind, List.append_assoc]
  rw [packLine_of_not_fits (not_le.mp hfits)]
  split
  · next hlong =>
    constructor
    · intro c hc
      rcases List.mem_append.mp hc with hc | hc
      · exact (List.mem_append.mp hc).elim (h.chunks c) (hflush c)
      · exact length_le_of_mem_slices hc
    · exact Nat.zero_le _
    · show DiscordRender.ink _ ++ [] = _
      rw [List.append_nil, List.flatten_append, List.flatten_append, ink_append, ink_append,
        ink_flush, flatten_slices, List.drop_zero, h.ink, ink_append]
  · next hshort =>
    refine ⟨fun c hc => (List.mem_append.mp hc).elim (h.chunks c) (hflush c), not_lt.mp hshort, ?_⟩
    rw [List.flatten_append, ink_append, ink_flush, h.ink, ink_append]

theorem Filled.packLines {read : JsString} {p : Packing} (h : Filled maxLen read p)
    (lines : List JsString) :
    Filled maxLen (read ++ lines.flatten) (lines.foldl (DiscordRender.packLine maxLen) p) := by
  induction lines generalizing read p with
  | nil => simpa using h
  | cons line lines ih =>
    rw [List.foldl_cons, List.flatten_cons, ← List.append_assoc]
    exact ih h.packLine

/-! ### Blank chunks -/

/-- As lines are put together while they fit, no blank ones wait when a line comes that does not
fit behind them, and no aligned piece of a line that is too long is blank. -/
def NoBlankRun (maxLen : ℕ+) : JsString → List JsString → Prop
  | _, [] => True
  | run, line :: lines =>
    if (behind run line).length ≤ maxLen then NoBlankRun maxLen (behind run line) lines
    else (run = [] ∨ ¬ Blank run) ∧
      if maxLen < line.length then
        (∀ k, k * maxLen < line.length → ¬ Blank ((line.drop (k * maxLen)).take maxLen)) ∧
          NoBlankRun maxLen [] lines
      else NoBlankRun maxLen line lines

theorem flush_not_blank {current : JsString} :
    (∀ c ∈ flush current, ¬ Blank c) ↔ current = [] ∨ ¬ Blank current := by
  rw [flush]
  split
  · next h => exact iff_of_true (fun c hc => absurd hc List.not_mem_nil) (Or.inl h)
  · next h =>
    rw [List.forall_mem_singleton, blank_trim]
    exact ⟨Or.inr, fun hor => hor.resolve_left h⟩

/-- **The chunks of some lines** are not blank as long as no run of them is. -/
theorem packLines_not_blank (lines : List JsString) (p : Packing) :
    (∀ c ∈ (lines.foldl (packLine maxLen) p).chunks, ¬ Blank c) ↔
      (∀ c ∈ p.chunks, ¬ Blank c) ∧ NoBlankRun maxLen p.current lines := by
  induction lines generalizing p with
  | nil => rw [List.foldl_nil, NoBlankRun, and_true]
  | cons line lines ih =>
    rw [List.foldl_cons, ih, NoBlankRun]
    by_cases hfits : (behind p.current line).length ≤ maxLen
    · rw [packLine_of_fits hfits, if_pos hfits]
    rw [packLine_of_not_fits (not_le.mp hfits), if_neg hfits]
    by_cases hlong : maxLen < line.length
    · rw [if_pos hlong, if_pos hlong, List.forall_mem_append, List.forall_mem_append,
        flush_not_blank, and_assoc, and_assoc]
      have hslices : (∀ c ∈ slices maxLen line 0, ¬ Blank c) ↔
          ∀ k, k * maxLen < line.length → ¬ Blank ((line.drop (k * maxLen)).take maxLen) := by
        constructor
        · intro h k hk
          exact h _ (mem_slices.mpr ⟨k, by rwa [Nat.zero_add], by rw [Nat.zero_add]⟩)
        · intro h c hc
          obtain ⟨k, hk, rfl⟩ := mem_slices.mp hc
          rw [Nat.zero_add] at hk ⊢
          exact h k hk
      rw [hslices]
    · rw [if_neg hlong, if_neg hlong, List.forall_mem_append, flush_not_blank, and_assoc]

/-! ### Messages -/

/-- What is asked of the chunks of a content. -/
structure Lossless (content : JsString) (maxLen : ℕ+) (chunks : List JsString) : Prop where
  length : ∀ c ∈ chunks, 1 ≤ c.length ∧ c.length ≤ maxLen
  not_blank : ∀ c ∈ chunks, ¬ Blank c
  ink : ink chunks.flatten = ink content

theorem ink_splitOn (content : JsString) : ink (content.splitOn 10).flatten = ink content := by
  have hlines : ink ([10].intercalate (content.splitOn 10)) = ink content := by
    rw [List.intercalate_splitOn]
  rw [← hlines, ink_intercalate, ink, List.filter_flatten, List.flatMap_def]
  rfl

/-- The chunks and the lines that wait at the end. -/
def packed (content : JsString) (maxLen : ℕ+) : Packing :=
  (content.splitOn 10).foldl (packLine maxLen) ⟨[], []⟩

section

variable {content : JsString}

theorem packed_filled (content : JsString) (maxLen : ℕ+) :
    Filled maxLen (content.splitOn 10).flatten (packed content maxLen) := by
  have hstart : Filled maxLen [] ⟨[], []⟩ :=
    ⟨fun c hc => absurd hc List.not_mem_nil, Nat.zero_le _, rfl⟩
  exact hstart.packLines (content.splitOn 10)

/-- What waits at the end is sent unless it is blank. -/
theorem mem_chunks (hlong : ¬ content.length ≤ maxLen) {c : JsString} :
    c ∈ chunkDiscordMessage content maxLen ↔ c ∈ (packed content maxLen).chunks ∨
      ¬ Blank c ∧ c = trim (packed content maxLen).current := by
  rw [chunkDiscordMessage, if_neg hlong]
  show c ∈ (if (trim (packed content maxLen).current).length > 0 then
    (packed content maxLen).chunks ++ [trim (packed content maxLen).current]
      else (packed content maxLen).chunks) ↔ _
  split
  · next hpos =>
    rw [List.mem_append, List.mem_singleton]
    refine or_congr_right ⟨fun h => ⟨?_, h⟩, And.right⟩
    rw [h, blank_trim, ← trim_eq_nil]
    exact List.length_pos_iff.mp hpos
  · next hpos =>
    have hnil : trim (packed content maxLen).current = [] :=
      List.length_eq_zero_iff.mp (Nat.eq_zero_of_not_pos hpos)
    refine ⟨Or.inl, fun h => h.elim id fun hc => absurd (.of_eq_nil (hc.2.trans hnil)) hc.1⟩

theorem ink_chunks (hlong : ¬ content.length ≤ maxLen) :
    ink (chunkDiscordMessage content maxLen).flatten = ink content := by
  rw [← ink_splitOn content, ← (packed_filled content maxLen).ink, chunkDiscordMessage,
    if_neg hlong]
  show ink (if (trim (packed content maxLen).current).length > 0 then
    (packed content maxLen).chunks ++ [trim (packed content maxLen).current]
      else (packed content maxLen).chunks).flatten = _
  split
  · rw [List.flatten_append, ink_append, List.flatten_singleton, ink_trim]
  · next hpos =>
    -- what is left out is blank
    have hblank : Blank (packed content maxLen).current :=
      trim_eq_nil.mp (List.length_eq_zero_iff.mp (Nat.eq_zero_of_not_pos hpos))
    rw [show ink (packed content maxLen).current = [] from hblank, List.append_nil]

theorem length_chunk_le {c : JsString} (h : c ∈ chunkDiscordMessage content maxLen) :
    c.length ≤ maxLen := by
  by_cases hlong : content.length ≤ maxLen
  · rw [chunkDiscordMessage, if_pos hlong] at h
    rw [List.mem_singleton.mp h]
    exact hlong
  · rcases (mem_chunks hlong).mp h with hc | ⟨-, rfl⟩
    · exact (packed_filled content maxLen).chunks c hc
    · exact (length_trim_le _).trans (packed_filled content maxLen).current

/-- **When no chunk is blank.** -/
theorem chunks_not_blank (hcontent : ¬ Blank content) :
    (∀ c ∈ chunkDiscordMessage content maxLen, ¬ Blank c) ↔
      content.length ≤ maxLen ∨ NoBlankRun maxLen [] (content.splitOn 10) := by
  by_cases hlong : content.length ≤ maxLen
  · refine iff_of_true (fun c hc => ?_) (Or.inl hlong)
    rw [chunkDiscordMessage, if_pos hlong] at hc
    rw [List.mem_singleton.mp hc]
    exact hcontent
  have hpacked := @packLines_not_blank maxLen (content.splitOn 10) ⟨[], []⟩
  rw [or_iff_right hlong]
  constructor
  · intro h
    exact (hpacked.mp fun c hc => h c ((mem_chunks hlong).mpr (Or.inl hc))).2
  · intro h c hc
    rcases (mem_chunks hlong).mp hc with hc | ⟨hc, -⟩
    · exact hpacked.mpr ⟨fun c hc => absurd hc List.not_mem_nil, h⟩ c hc
    · exact hc

end

/-- **When nothing is lost and nothing empty is sent.**  Only the second can fail: blank lines wait
when a line comes that does not fit behind them, or a piece of a line that is too long is blank. -/
theorem lossless_iff (maxLen : ℕ+) {content : JsString} (hcontent : ¬ Blank content) :
    Lossless content maxLen (chunkDiscordMessage content maxLen) ↔
      content.length ≤ maxLen ∨ NoBlankRun maxLen [] (content.splitOn 10) := by
  constructor
  · intro h
    exact (chunks_not_blank hcontent).mp h.not_blank
  · intro h
    have hblank := (chunks_not_blank hcontent).mpr h
    refine ⟨fun c hc => ⟨length_pos_of_not_blank (hblank c hc), length_chunk_le hc⟩, hblank, ?_⟩
    by_cases hlong : content.length ≤ maxLen
    · rw [chunkDiscordMessage, if_pos hlong, List.flatten_singleton]
    · exact ink_chunks hlong

/-- Two lines that do not fit together. -/
theorem lossless_two_lines :
    Lossless (ofText "ab\ncd") 3 (chunkDiscordMessage (ofText "ab\ncd") 3) ↔
      (ofText "ab\ncd").length ≤ (3 : ℕ+) ∨
        NoBlankRun 3 [] ((ofText "ab\ncd").splitOn 10) :=
  lossless_iff 3 (by decide)

/-- A first line of one space, and a second that fills the limit: the first chunk is empty. -/
theorem blank_first_line : ¬ ∀ (maxLen : ℕ+) (content : JsString), ¬ Blank content →
    Lossless content maxLen (chunkDiscordMessage content maxLen) := by
  intro h
  have hlossless := h 2 (ofText " \nab") (by decide)
  have hchunks : chunkDiscordMessage (ofText " \nab") 2 = [[], ofText "ab"] := by decide
  rw [hchunks] at hlossless
  exact hlossless.not_blank [] List.mem_cons_self rfl

end DiscordRender
