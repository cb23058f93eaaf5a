/-
Comma-separated values, written and read.

A cell with a special symbol in it is put between quotes, and its quotes are doubled.  A reader
takes records to end at a newline, or at more symbols than the writer knows of.

* `Dialect` — the symbols; `document` — the writer;
* `Mode`, `read` — the reader, symbol by symbol;
* `breaks` — the symbols at which a reader ends a record within a cell;
* `length_read_document` — how many records are read;
* `read_document_iff` — they are the ones written exactly when no cell breaks.
-/
import Mathlib.Algebra.BigOperators.Group.List.Basic
import Mathlib.Algebra.GroupWithZero.Nat

namespace Csv

/-- The symbols of a writer, and those at which a reader ends a record. -/
structure Dialect (α : Type) where
  comma : α
  quote : α
  newline : α
  ends : α → Bool
  ends_newline : ends newline = true
  ends_comma : ends comma = false
  ends_quote : ends quote = false
  comma_ne_quote : comma ≠ quote

variable {α : Type} [DecidableEq α] (d : Dialect α)

/-! ### Writing -/

/-- The symbols a writer puts a cell between quotes for. -/
def special (c : α) : Bool := c = d.comma ∨ c = d.quote ∨ c = d.newline

def doubled (text : List α) : List α :=
  text.flatMap fun c => if c = d.quote then [d.quote, d.quote] else [c]

def cell (text : List α) : List α :=
  if text.any (special d) then d.quote :: (doubled d text ++ [d.quote]) else text

def record (cells : List (List α)) : List α := [d.comma].intercalate (cells.map (cell d))

def document (rows : List (List (List α))) : List α := [d.newline].intercalate (rows.map (record d))

/-! ### Reading -/

/-- At the start of a cell, within a plain one, between quotes, or behind a quote between quotes. -/
inductive Mode | start | plain | quoted | closing
deriving DecidableEq

/-- The records of a text, given the cell and the record that have been begun. -/
def read : Mode → List α → List (List α) → List α → List (List (List α))
  | _, field, before, [] => [before ++ [field]]
  | .quoted, field, before, c :: rest =>
    if c = d.quote then read .closing field before rest
    else read .quoted (field ++ [c]) before rest
  | mode, field, before, c :: rest =>
    if c = d.comma then read .start [] (before ++ [field]) rest
    else if d.ends c then (before ++ [field]) :: read .start [] [] rest
    else if c = d.quote ∧ mode = .start then read .quoted field before rest
    else if c = d.quote ∧ mode = .closing then read .quoted (field ++ [c]) before rest
    else read .plain (field ++ [c]) before rest

variable {d} {mode : Mode} {field text rest : List α} {before cells : List (List α)}
  {rows : List (List (List α))}

theorem read_nil : read d mode field before [] = [before ++ [field]] := by
  cases mode <;> rfl

theorem read_comma (h : mode ≠ .quoted) :
    read d mode field before (d.comma :: rest) = read d .start [] (before ++ [field]) rest := by
  cases mode with
  | quoted => exact absurd rfl h
  | _ => rw [read, if_pos rfl]; exact nofun

theorem read_ends {c : α} (h : mode ≠ .quoted) (hc : d.ends c = true) :
    read d mode field before (c :: rest) = (before ++ [field]) :: read d .start [] [] rest := by
  have hcomma : c ≠ d.comma := by
    rintro rfl
    exact absurd (hc.symm.trans d.ends_comma) (by decide)
  cases mode with
  | quoted => exact absurd rfl h
  | _ => rw [read, if_neg hcomma, if_pos hc]; exact nofun

/-- A plain symbol. -/
theorem read_plain {c : α} (h : mode = .start ∨ mode = .plain) (hcomma : c ≠ d.comma)
    (hquote : c ≠ d.quote) (hc : d.ends c = false) :
    read d mode field before (c :: rest) = read d .plain (field ++ [c]) before rest := by
  rcases h with rfl | rfl <;>
  · rw [read, if_neg hcomma, hc, if_neg Bool.false_ne_true, if_neg fun h => hquote h.1,
      if_neg fun h => hquote h.1]
    exact nofun

/-- Between quotes, everything is read as it stands. -/
theorem read_doubled : read d .quoted field before (doubled d text ++ d.quote :: rest) =
    read d .closing (field ++ text) before rest := by
  induction text generalizing field with
  | nil => rw [doubled, List.flatMap_nil, List.nil_append, read, if_pos rfl, List.append_nil]
  | cons c text ih =>
    have hcons : doubled d (c :: text) = (if c = d.quote then [d.quote, d.quote] else [c]) ++
        doubled d text := List.flatMap_cons
    have happend : field ++ c :: text = field ++ [c] ++ text := by simp
    rw [hcons, happend]
    by_cases hc : c = d.quote
    · subst hc
      -- the first quote closes, the second one opens again
      rw [if_pos rfl, List.append_assoc]
      show read d .quoted field before (d.quote :: d.quote :: (doubled d text ++ _)) = _
      rw [read, if_pos rfl, read, if_neg d.comma_ne_quote.symm, d.ends_quote,
        if_neg Bool.false_ne_true, if_neg fun h => absurd h.2 (by decide), if_pos ⟨rfl, rfl⟩, ih]
      exact nofun
    · rw [if_neg hc, List.append_assoc]
      show read d .quoted field before (c :: (doubled d text ++ _)) = _
      rw [read, if_neg hc, ih]

/-- How many records are read does not depend on what has been begun. -/
theorem length_read (field field' : List α) (before before' : List (List α)) :
    (read d mode field before text).length = (read d mode field' before' text).length := by
  induction text generalizing mode field field' before before' with
  | nil => rw [read_nil, read_nil]; rfl
  | cons c text ih =>
    cases mode with
    | quoted =>
      rw [read, read]
      split
      · exact ih ..
      · exact ih ..
    | _ =>
      rw [read, read]
      · split
        · exact ih ..
        · split
          · rfl
          · split
            · exact ih ..
            · split
              · exact ih ..
              · exact ih ..
      all_goals exact nofun

/-! ### One cell -/

/-- At how many symbols of a cell a reader ends a record. -/
def breaks (d : Dialect α) (text : List α) : ℕ :=
  if text.any (special d) then 0 else text.countP d.ends

theorem not_special {c : α} (h : special d c = false) : c ≠ d.comma ∧ c ≠ d.quote := by
  simp only [special, decide_eq_false_iff_not, not_or] at h
  exact ⟨h.1, h.2.1⟩

theorem read_quoted_cell (h : text.any (special d) = true) :
    read d .start [] before (cell d text ++ rest) = read d .closing text before rest := by
  rw [cell, if_pos h, List.cons_append, List.append_assoc, List.singleton_append, read,
    if_neg d.comma_ne_quote.symm, d.ends_quote, if_neg Bool.false_ne_true, if_pos ⟨rfl, rfl⟩,
    read_doubled, List.nil_append]
  exact nofun

theorem read_plain_text (field : List α) (before : List (List α))
    (hmode : mode = .start ∨ mode = .plain)
    (hspecial : ∀ c ∈ text, special d c = false) (hends : ∀ c ∈ text, d.ends c = false) :
    ∃ mode', (mode' = .start ∨ mode' = .plain) ∧
      ∀ rest, read d mode field before (text ++ rest) =
        read d mode' (field ++ text) before rest := by
  induction text generalizing mode field with
  | nil => exact ⟨mode, hmode, fun rest => by rw [List.nil_append, List.append_nil]⟩
  | cons c text ih =>
    obtain ⟨hc, hspecial⟩ := List.forall_mem_cons.mp hspecial
    obtain ⟨hend, hends⟩ := List.forall_mem_cons.mp hends
    obtain ⟨hcomma, hquote⟩ := not_special hc
    obtain ⟨mode', hmode', hread⟩ := ih (field ++ [c]) (Or.inr rfl) hspecial hends
    refine ⟨mode', hmode', fun rest => ?_⟩
    rw [List.cons_append, read_plain hmode hcomma hquote hend, hread, List.append_assoc]
    rfl

/-- A cell that does not break is read as it was written. -/
theorem read_cell (before : List (List α)) (h : breaks d text = 0) : ∃ mode, mode ≠ .quoted ∧
    ∀ rest, read d .start [] before (cell d text ++ rest) = read d mode text before rest := by
  rw [breaks] at h
  split at h
  · next hspecial => exact ⟨.closing, by decide, fun rest => read_quoted_cell hspecial⟩
  · next hspecial =>
    have hnone : ∀ c ∈ text, special d c = false := by simpa using hspecial
    have hends : ∀ c ∈ text, d.ends c = false := by simpa using h
    obtain ⟨mode, hmode, hread⟩ :=
      read_plain_text [] before (Or.inl rfl) hnone hends
    refine ⟨mode, by rcases hmode with rfl | rfl <;> decide, fun rest => ?_⟩
    rw [cell, if_neg hspecial, hread, List.nil_append]

theorem length_plain_text (field : List α) (before : List (List α))
    (hmode : mode = .start ∨ mode = .plain)
    (hspecial : ∀ c ∈ text, special d c = false) : ∃ mode', (mode' = .start ∨ mode' = .plain) ∧
      ∀ rest, (read d mode field before (text ++ rest)).length =
        text.countP d.ends + (read d mode' [] [] rest).length := by
  induction text generalizing mode field before with
  | nil => exact ⟨mode, hmode, fun rest => by simpa using length_read ..⟩
  | cons c text ih =>
    obtain ⟨hc, hspecial⟩ := List.forall_mem_cons.mp hspecial
    obtain ⟨hcomma, hquote⟩ := not_special hc
    have hne : mode ≠ .quoted := by rcases hmode with rfl | rfl <;> decide
    cases hend : d.ends c with
    | false =>
      obtain ⟨mode', hmode', hread⟩ :=
        ih (field ++ [c]) before (Or.inr rfl) hspecial
      refine ⟨mode', hmode', fun rest => ?_⟩
      rw [List.cons_append, read_plain hmode hcomma hquote hend, hread,
        List.countP_cons_of_neg (by simp [hend])]
    | true =>
      obtain ⟨mode', hmode', hread⟩ := ih [] [] (Or.inl rfl) hspecial
      refine ⟨mode', hmode', fun rest => ?_⟩
      rw [List.cons_append, read_ends hne hend, List.length_cons, hread,
        List.countP_cons_of_pos hend]
      omega

theorem length_cell (d : Dialect α) (text : List α) : ∃ mode, mode ≠ .quoted ∧ ∀ field before rest,
    (read d .start field before (cell d text ++ rest)).length =
      breaks d text + (read d mode [] [] rest).length := by
  by_cases hspecial : text.any (special d) = true
  · refine ⟨.closing, by decide, fun field before rest => ?_⟩
    rw [length_read field [] before before, read_quoted_cell hspecial, breaks, if_pos hspecial,
      Nat.zero_add]
    exact length_read ..
  · have hnone : ∀ c ∈ text, special d c = false := by simpa using hspecial
    obtain ⟨mode, hmode, hread⟩ :=
      length_plain_text [] [] (Or.inl rfl) hnone
    refine ⟨mode, by rcases hmode with rfl | rfl <;> decide, fun field before rest => ?_⟩
    rw [length_read field [] before [], cell, if_neg hspecial, hread, breaks, if_neg hspecial]

/-! ### One record -/

theorem record_cons {c : List α} (hcells : cells ≠ []) :
    record d (c :: cells) = cell d c ++ d.comma :: record d cells := by
  obtain ⟨c', cells, rfl⟩ := List.exists_cons_of_ne_nil hcells
  rw [record, List.map_cons, List.map_cons, List.intercalate_cons_cons, List.append_assoc]
  rfl

theorem read_record (before : List (List α)) (hcells : cells ≠ [])
    (h : ∀ text ∈ cells, breaks d text = 0) :
    ∃ mode, mode ≠ .quoted ∧ ∃ init last, cells = init ++ [last] ∧
      ∀ rest, read d .start [] before (record d cells ++ rest) =
        read d mode last (before ++ init) rest := by
  induction cells generalizing before with
  | nil => exact absurd rfl hcells
  | cons c cells ih =>
    obtain ⟨hc, h⟩ := List.forall_mem_cons.mp h
    obtain ⟨mode, hmode, hread⟩ := read_cell before hc
    by_cases hnil : cells = []
    · subst hnil
      refine ⟨mode, hmode, [], c, rfl, fun rest => ?_⟩
      rw [record, List.map_singleton, List.intercalate_singleton, hread, List.append_nil]
    · obtain ⟨mode', hmode', init, last, rfl, hrest⟩ := ih (before ++ [c]) hnil h
      refine ⟨mode', hmode', c :: init, last, rfl, fun rest => ?_⟩
      rw [record_cons hnil, List.append_assoc, hread, List.cons_append, read_comma hmode, hrest,
        List.append_assoc]
      rfl

theorem length_record (hcells : cells ≠ []) : ∃ mode, mode ≠ .quoted ∧ ∀ field before rest,
    (read d .start field before (record d cells ++ rest)).length =
      (cells.map (breaks d)).sum + (read d mode [] [] rest).length := by
  induction cells with
  | nil => exact absurd rfl hcells
  | cons c cells ih =>
    obtain ⟨mode, hmode, hread⟩ := length_cell d c
    by_cases hnil : cells = []
    · subst hnil
      refine ⟨mode, hmode, fun field before rest => ?_⟩
      rw [record, List.map_singleton, List.intercalate_singleton, hread, List.map_singleton,
        List.sum_singleton]
    · obtain ⟨mode', hmode', hrest⟩ := ih hnil
      refine ⟨mode', hmode', fun field before rest => ?_⟩
      rw [record_cons hnil, List.append_assoc, hread, List.cons_append, read_comma hmode, hrest,
        List.map_cons, List.sum_cons]
      omega

/-! ### The document -/

theorem document_cons (hrows : rows ≠ []) :
    document d (cells :: rows) = record d cells ++ d.newline :: document d rows := by
  obtain ⟨cells', rows, rfl⟩ := List.exists_cons_of_ne_nil hrows
  rw [document, List.map_cons, List.map_cons, List.intercalate_cons_cons, List.append_assoc]
  rfl

theorem read_document (hrows : rows ≠ []) (hcells : ∀ cells ∈ rows, cells ≠ [])
    (h : ∀ cells ∈ rows, ∀ text ∈ cells, breaks d text = 0) :
    read d .start [] [] (document d rows) = rows := by
  induction rows with
  | nil => exact absurd rfl hrows
  | cons cells rows ih =>
    obtain ⟨hc, hrest⟩ := List.forall_mem_cons.mp hcells
    obtain ⟨hfirst, hothers⟩ := List.forall_mem_cons.mp h
    obtain ⟨mode, hmode, init, last, rfl, hread⟩ := read_record [] hc hfirst
    by_cases hnil : rows = []
    · subst hnil
      have hlast := hread []
      rw [List.append_nil, read_nil] at hlast
      rw [document, List.map_singleton, List.intercalate_singleton, hlast]
      rfl
    · rw [document_cons hnil, hread, read_ends hmode d.ends_newline, ih hnil hrest hothers]
      rfl

/-- **How many records are read.** -/
theorem length_read_document (hrows : rows ≠ []) (hcells : ∀ cells ∈ rows, cells ≠ []) :
    (read d .start [] [] (document d rows)).length =
      rows.length + (rows.map fun cells => (cells.map (breaks d)).sum).sum := by
  induction rows with
  | nil => exact absurd rfl hrows
  | cons cells rows ih =>
    obtain ⟨hc, hrest⟩ := List.forall_mem_cons.mp hcells
    obtain ⟨mode, hmode, hread⟩ := length_record (d := d) hc
    by_cases hnil : rows = []
    · subst hnil
      have hlast := hread [] [] []
      rw [List.append_nil, read_nil] at hlast
      rw [document, List.map_singleton, List.intercalate_singleton, hlast, List.map_singleton,
        List.sum_singleton]
      exact Nat.add_comm _ _
    · rw [document_cons hnil, hread, read_ends hmode d.ends_newline, List.length_cons,
        ih hnil hrest, List.map_cons, List.sum_cons, List.length_cons]
      omega

/-- **What is read is what was written** exactly when no cell breaks. -/
theorem read_document_iff (hrows : rows ≠ []) (hcells : ∀ cells ∈ rows, cells ≠ []) :
    read d .start [] [] (document d rows) = rows ↔
      ∀ cells ∈ rows, ∀ text ∈ cells, breaks d text = 0 := by
  refine ⟨fun hread => ?_, read_document hrows hcells⟩
  have hlength := length_read_document (d := d) hrows hcells
  rw [hread] at hlength
  have hsum : (rows.map fun cells => (cells.map (breaks d)).sum).sum = 0 := by omega
  intro cells hc text ht
  have hzero := List.sum_eq_zero_iff_forall_eq_nat.mp hsum _ (List.mem_map_of_mem hc)
  exact List.sum_eq_zero_iff_forall_eq_nat.mp hzero _ (List.mem_map_of_mem ht)

end Csv
