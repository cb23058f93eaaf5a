/-
JSON texts, as `JSON.parse` reads them.

* `Json` — the values; a number is its literal;
* `stringBody` — a string up to its closing quote, as UTF-16 code units; `ofUnits`, their text;
* `number` — a literal; `value` and `members` — values, and what an object holds, of so many
  levels and members; `parse`;
* `Json.get?` — a property, the last of its name;
* `stringify` — how an object of texts and naturals is written (`parse_stringify`).
-/
import HoodMint.Lib.Text
import Mathlib.Data.Nat.Notation

namespace JsonText

/-- A value. -/
inductive Json
  | null
  | bool (b : Bool)
  | num (literal : String)
  | str (text : String)
  | arr (values : List Json)
  | obj (members : List (String × Json))

/-! ### Code units -/

/-- The code units of a character. -/
def units (c : Char) : List ℕ :=
  if c.toNat < 0x10000 then [c.toNat]
  else [0xd800 + (c.toNat - 0x10000) / 0x400, 0xdc00 + (c.toNat - 0x10000) % 0x400]

def IsHigh (u : ℕ) : Prop := 0xd800 ≤ u ∧ u < 0xdc00

def IsLow (u : ℕ) : Prop := 0xdc00 ≤ u ∧ u < 0xe000

instance : DecidablePred IsHigh := fun u => (inferInstance : Decidable (0xd800 ≤ u ∧ u < 0xdc00))

instance : DecidablePred IsLow := fun u => (inferInstance : Decidable (0xdc00 ≤ u ∧ u < 0xe000))

/-- The character of a unit; a surrogate of no pair is replaced. -/
def ofUnit (u : ℕ) : Char := if IsHigh u ∨ IsLow u then Char.ofNat 0xfffd else Char.ofNat u

/-- The text of some units. -/
def ofUnits : List ℕ → List Char
  | [] => []
  | [u] => [ofUnit u]
  | u :: v :: rest =>
    if IsHigh u ∧ IsLow v then
      Char.ofNat (0x10000 + (u - 0xd800) * 0x400 + (v - 0xdc00)) :: ofUnits rest
    else ofUnit u :: ofUnits (v :: rest)

/-- No character is a surrogate. -/
theorem toNat_valid (c : Char) :
    c.toNat < 0xd800 ∨ (0xdfff < c.toNat ∧ c.toNat < 0x110000) := c.valid

theorem ofUnits_cons {u : ℕ} (h : ¬ IsHigh u) (rest : List ℕ) :
    ofUnits (u :: rest) = ofUnit u :: ofUnits rest := by
  cases rest with
  | nil => rfl
  | cons v rest => rw [ofUnits, if_neg fun hpair => h hpair.1]

/-- The units of a text make it again. -/
theorem ofUnits_units (l : List Char) : ofUnits (l.flatMap units) = l := by
  induction l with
  | nil => rfl
  | cons c l ih =>
    have hvalid := toNat_valid c
    rw [List.flatMap_cons, units]
    split
    · next hc =>
      have hhigh : ¬ IsHigh c.toNat := by
        rw [IsHigh]
        omega
      have hlow : ¬ IsLow c.toNat := by
        rw [IsLow]
        omega
      rw [List.singleton_append, ofUnits_cons hhigh, ofUnit,
        if_neg (not_or.mpr ⟨hhigh, hlow⟩), Char.ofNat_toNat, ih]
    · next hc =>
      have hpair : IsHigh (0xd800 + (c.toNat - 0x10000) / 0x400) ∧
          IsLow (0xdc00 + (c.toNat - 0x10000) % 0x400) := by
        rw [IsHigh, IsLow]
        omega
      have hnat : 0x10000 + (0xd800 + (c.toNat - 0x10000) / 0x400 - 0xd800) * 0x400 +
          (0xdc00 + (c.toNat - 0x10000) % 0x400 - 0xdc00) = c.toNat := by omega
      show ofUnits (_ :: _ :: l.flatMap units) = _
      rw [ofUnits, if_pos hpair, hnat, Char.ofNat_toNat, ih]

/-! ### Strings -/

/-- The value of a hexadecimal digit. -/
def hexValue? (c : Char) : Option ℕ :=
  if '0' ≤ c ∧ c ≤ '9' then some (c.toNat - 48)
  else if 'a' ≤ c ∧ c ≤ 'f' then some (c.toNat - 87)
  else if 'A' ≤ c ∧ c ≤ 'F' then some (c.toNat - 55)
  else none

/-- The unit that four digits write. -/
def hex4? (a b c d : Char) : Option ℕ :=
  (hexValue? a).bind fun a => (hexValue? b).bind fun b => (hexValue? c).bind fun c =>
    (hexValue? d).map fun d => ((a * 16 + b) * 16 + c) * 16 + d

/-- What a backslash and a letter write. -/
def escaped? : Char → Option ℕ
  | '"' => some 34
  | '\\' => some 92
  | '/' => some 47
  | 'b' => some 8
  | 'f' => some 12
  | 'n' => some 10
  | 'r' => some 13
  | 't' => some 9
  | _ => none

/-- Some units before a string that has been read. -/
def before (us : List ℕ) : Option (List ℕ × List Char) → Option (List ℕ × List Char)
  | some (vs, rest) => some (us ++ vs, rest)
  | none => none

/-- A string up to its closing quote, and what follows it. -/
def stringBody : List Char → Option (List ℕ × List Char)
  | [] => none
  | '"' :: rest => some ([], rest)
  | '\\' :: 'u' :: a :: b :: c :: d :: rest =>
    (hex4? a b c d).bind fun u => before [u] (stringBody rest)
  | '\\' :: e :: rest => (escaped? e).bind fun u => before [u] (stringBody rest)
  | c :: rest => if c.toNat < 32 then none else before (units c) (stringBody rest)

/-- A string after its opening quote. -/
def string (cs : List Char) : Option (String × List Char) :=
  (stringBody cs).map fun r => (String.ofList (ofUnits r.1), r.2)

/-! ### Numbers -/

/-- Digits, at least one. -/
def digits (cs : List Char) : Option (List Char × List Char) :=
  if cs.takeWhile Char.isDigit = [] then none
  else some (cs.takeWhile Char.isDigit, cs.dropWhile Char.isDigit)

/-- Digits without a leading zero. -/
def integer (cs : List Char) : Option (List Char × List Char) :=
  (digits cs).bind fun r => if r.1.head? = some '0' ∧ r.1 ≠ ['0'] then none else some r

def fraction : List Char → Option (List Char × List Char)
  | '.' :: cs => (digits cs).map fun r => ('.' :: r.1, r.2)
  | cs => some ([], cs)

def exponent : List Char → Option (List Char × List Char)
  | c :: cs =>
    if c = 'e' ∨ c = 'E' then
      if cs.head? = some '+' ∨ cs.head? = some '-' then
        (digits cs.tail).map fun r => (c :: cs.take 1 ++ r.1, r.2)
      else (digits cs).map fun r => (c :: r.1, r.2)
    else some ([], c :: cs)
  | [] => some ([], [])

def unsigned (cs : List Char) : Option (List Char × List Char) :=
  (integer cs).bind fun i => (fraction i.2).bind fun f => (exponent f.2).map fun e =>
    (i.1 ++ f.1 ++ e.1, e.2)

/-- A literal, and what follows it. -/
def number : List Char → Option (List Char × List Char)
  | '-' :: cs => (unsigned cs).map fun r => ('-' :: r.1, r.2)
  | cs => unsigned cs

/-! ### Values -/

def isSpace (c : Char) : Bool := c = ' ' || c = '\t' || c = '\n' || c = '\r'

def skip (cs : List Char) : List Char := cs.dropWhile isSpace

mutual

/-- A value, and what follows it. -/
def value : ℕ → List Char → Option (Json × List Char)
  | 0, _ => none
  | n + 1, cs =>
    match skip cs with
    | '"' :: cs => (string cs).map fun r => (.str r.1, r.2)
    | '{' :: cs =>
      match skip cs with
      | '}' :: cs => some (.obj [], cs)
      | cs => (members n cs).map fun r => (.obj r.1, r.2)
    | '[' :: cs =>
      match skip cs with
      | ']' :: cs => some (.arr [], cs)
      | cs => (elements n cs).map fun r => (.arr r.1, r.2)
    | 't' :: 'r' :: 'u' :: 'e' :: cs => some (.bool true, cs)
    | 'f' :: 'a' :: 'l' :: 's' :: 'e' :: cs => some (.bool false, cs)
    | 'n' :: 'u' :: 'l' :: 'l' :: cs => some (.null, cs)
    | cs => (number cs).map fun r => (.num (String.ofList r.1), r.2)

/-- The members of an object, up to its closing brace. -/
def members : ℕ → List Char → Option (List (String × Json) × List Char)
  | 0, _ => none
  | n + 1, cs =>
    match skip cs with
    | '"' :: cs => (string cs).bind fun key =>
      match skip key.2 with
      | ':' :: cs => (value n cs).bind fun v =>
        match skip v.2 with
        | ',' :: cs => (members n cs).map fun r => ((key.1, v.1) :: r.1, r.2)
        | '}' :: cs => some ([(key.1, v.1)], cs)
        | _ => none
      | _ => none
    | _ => none

/-- The values of an array, up to its closing bracket. -/
def elements : ℕ → List Char → Option (List Json × List Char)
  | 0, _ => none
  | n + 1, cs => (value n cs).bind fun v =>
    match skip v.2 with
    | ',' :: cs => (elements n cs).map fun r => (v.1 :: r.1, r.2)
    | ']' :: cs => some ([v.1], cs)
    | _ => none

end

/-- `JSON.parse`. -/
def parse (text : String) : Option Json :=
  (value (text.toList.length + 1) text.toList).bind fun r =>
    if skip r.2 = [] then some r.1 else none

/-- A property. -/
def Json.get? : Json → String → Option Json
  | .obj members, key => (members.reverse.find? fun m => m.1 = key).map Prod.snd
  | _, _ => none

/-- The text that a value is. -/
def Json.text? : Json → Option String
  | .str text => some text
  | _ => none

example : ((parse "\x7b\"a\": [1, -2.5e3], \"a\":\"\\u0041\\n\"\x7d ").bind (·.get? "a")).bind
    Json.text? = some "A\n" := by decide +kernel

/-! ### Writing and reading -/

/-- How `JSON.stringify` writes one of these characters, it is read. -/
theorem stringBody_escape (c : Char) (rest : List Char) :
    stringBody (Text.escape c ++ rest) = before (units c) (stringBody rest) := by
  have hcontrol : ∀ n : Fin 32, hex4? '0' '0' (Nat.digitChar (n.val / 16))
      (Nat.digitChar (n.val % 16)) = some n.val := by decide
  rw [Text.escape]
  split
  · next h =>
    rcases h with rfl | rfl
    · rfl
    · rfl
  split
  · next h => rw [h]; rfl
  split
  · next h => rw [h]; rfl
  split
  · next h => rw [h]; rfl
  split
  · next h =>
    have hc : c = Char.ofNat 8 := by rw [← h, Char.ofNat_toNat]
    rw [hc]
    rfl
  split
  · next h =>
    have hc : c = Char.ofNat 12 := by rw [← h, Char.ofNat_toNat]
    rw [hc]
    rfl
  split
  · next h =>
    show (hex4? _ _ _ _).bind _ = _
    rw [hcontrol ⟨c.toNat, h⟩, units, if_pos (by omega)]
    rfl
  · next hspecial _ _ _ _ _ hc =>
    obtain ⟨hquote, hback⟩ := not_or.mp hspecial
    rw [List.singleton_append, stringBody]
    · exact if_neg hc
    · exact hquote
    · rintro a b c d rest' rfl
      exact absurd rfl hback
    · rintro e rest' rfl
      exact absurd rfl hback

theorem stringBody_flatMap (l : List Char) (rest : List Char) :
    stringBody (l.flatMap Text.escape ++ '"' :: rest) = some (l.flatMap units, rest) := by
  induction l with
  | nil => rfl
  | cons c l ih =>
    rw [List.flatMap_cons, List.append_assoc, stringBody_escape, ih]
    rfl

/-- A string is read as it was written. -/
theorem string_quote (text : String) (rest : List Char) :
    string (text.toList.flatMap Text.escape ++ '"' :: rest) = some (text, rest) := by
  rw [string, stringBody_flatMap, Option.map_some, ofUnits_units, String.ofList_toList]

/-- What may follow a number. -/
def Ends (rest : List Char) : Prop := ∃ c cs, rest = c :: cs ∧ (c = ',' ∨ c = '}')

theorem digits_append {ds rest : List Char} (hne : ds ≠ []) (hds : ∀ c ∈ ds, c.isDigit)
    (hrest : Ends rest) : digits (ds ++ rest) = some (ds, rest) := by
  obtain ⟨c, cs, rfl, hc⟩ := hrest
  have hstop : c.isDigit = false := by
    rcases hc with rfl | rfl
    · rfl
    · rfl
  have htake : (ds ++ c :: cs).takeWhile Char.isDigit = ds := by
    rw [List.takeWhile_append_of_pos hds, List.takeWhile_cons_of_neg (by simp [hstop]),
      List.append_nil]
  have hdrop : (ds ++ c :: cs).dropWhile Char.isDigit = c :: cs := by
    rw [List.dropWhile_append_of_pos hds, List.dropWhile_cons_of_neg (by simp [hstop])]
  rw [digits, htake, hdrop, if_neg hne]

/-- A natural has no leading zero. -/
theorem toDigits_head (n : ℕ) : (Nat.toDigits 10 n).head? = some '0' → n = 0 := by
  induction n using Nat.strongRecOn with
  | ind n ih =>
    by_cases hn : n < 10
    · rw [Nat.toDigits_of_lt_base hn]
      have hdigit : ∀ k : Fin 10, [Nat.digitChar k.val].head? = some '0' → k.val = 0 := by decide
      exact hdigit ⟨n, hn⟩
    · have hle : 10 ≤ n := not_lt.mp hn
      rw [Nat.toDigits_of_base_le (by decide) hle,
        List.head?_append_of_ne_nil _ Nat.toDigits_ne_nil]
      intro h
      have hzero := ih (n / 10) (by omega) h
      omega

/-- A natural is read as it was written. -/
theorem number_repr (n : ℕ) {rest : List Char} (hrest : Ends rest) :
    number (Nat.toDigits 10 n ++ rest) = some (Nat.toDigits 10 n, rest) := by
  have hdigits : ∀ c ∈ Nat.toDigits 10 n, c.isDigit := fun c hc =>
    Nat.isDigit_of_mem_toDigits (by decide) (by decide) hc
  have hread := digits_append Nat.toDigits_ne_nil hdigits hrest
  have hinteger : integer (Nat.toDigits 10 n ++ rest) = some (Nat.toDigits 10 n, rest) := by
    rw [integer, hread, Option.bind_some, if_neg]
    intro h
    obtain ⟨hhead, hzero⟩ := h
    rw [toDigits_head n hhead] at hzero
    exact hzero rfl
  have hunsigned : unsigned (Nat.toDigits 10 n ++ rest) = some (Nat.toDigits 10 n, rest) := by
    obtain ⟨c, cs, rfl, hc⟩ := hrest
    rw [unsigned, hinteger]
    rcases hc with rfl | rfl
    · simp [fraction, exponent]
    · simp [fraction, exponent]
  cases hcs : Nat.toDigits 10 n with
  | nil => exact absurd hcs Nat.toDigits_ne_nil
  | cons c ds =>
    have hminus : c ≠ '-' := by
      rintro rfl
      exact absurd (hdigits '-' (hcs ▸ List.mem_cons_self)) (by decide)
    rw [hcs] at hunsigned
    rw [List.cons_append, number, ← List.cons_append, hunsigned]
    rintro cs' h
    exact hminus (List.cons.inj h).1

/-! ### Objects -/

/-- A text or a natural. -/
inductive Scalar
  | str (text : String)
  | nat (n : ℕ)

/-- How it is written. -/
def Scalar.chars : Scalar → List Char
  | .str text => (Text.quote text).toList
  | .nat n => Nat.toDigits 10 n

/-- What is read. -/
def Scalar.json : Scalar → Json
  | .str text => .str text
  | .nat n => .num (toString n)

/-- A member. -/
def memberChars (field : String × Scalar) : List Char :=
  (Text.quote field.1).toList ++ ':' :: field.2.chars

/-- All members. -/
def fieldChars : List (String × Scalar) → List Char
  | [] => []
  | [field] => memberChars field
  | field :: next :: fields => memberChars field ++ ',' :: fieldChars (next :: fields)

/-- `JSON.stringify` of an object. -/
def stringify (fields : List (String × Scalar)) : String :=
  String.ofList ('{' :: (fieldChars fields ++ ['}']))

/-- What starts with a digit is a number. -/
theorem value_of_digit (n : ℕ) {c : Char} (hc : c.isDigit) (cs : List Char) :
    value (n + 1) (c :: cs) = (number (c :: cs)).map fun r => (.num (String.ofList r.1), r.2) := by
  have hskip : skip (c :: cs) = c :: cs := by
    refine List.dropWhile_cons_of_neg fun hspace => ?_
    simp only [isSpace, Bool.or_eq_true, decide_eq_true_eq] at hspace
    rcases hspace with ((rfl | rfl) | rfl) | rfl <;> exact absurd hc (by decide)
  have hother : ∀ d : Char, d.isDigit = false → c ≠ d := by
    rintro d hd rfl
    rw [hd] at hc
    exact absurd hc (by decide)
  rw [value, hskip]
  split
  · next h => exact absurd (List.cons.inj h).1 (hother _ rfl)
  · next h => exact absurd (List.cons.inj h).1 (hother _ rfl)
  · next h => exact absurd (List.cons.inj h).1 (hother _ rfl)
  · next h => exact absurd (List.cons.inj h).1 (hother _ rfl)
  · next h => exact absurd (List.cons.inj h).1 (hother _ rfl)
  · next h => exact absurd (List.cons.inj h).1 (hother _ rfl)
  · rfl

theorem value_scalar (s : Scalar) (n : ℕ) {rest : List Char} (hrest : Ends rest) :
    value (n + 1) (s.chars ++ rest) = some (s.json, rest) := by
  cases s with
  | str text =>
    have hchars : (Scalar.str text).chars ++ rest =
        '"' :: (text.toList.flatMap Text.escape ++ '"' :: rest) := by
      simp [Scalar.chars, Text.quote]
    rw [hchars, value]
    show (string _).map _ = _
    rw [string_quote]
    rfl
  | nat m =>
    have hread := number_repr m hrest
    cases hcs : Nat.toDigits 10 m with
    | nil => exact absurd hcs Nat.toDigits_ne_nil
    | cons c ds =>
      have hdigit : c.isDigit := by
        refine Nat.isDigit_of_mem_toDigits (b := 10) (n := m) (by decide) (by decide) ?_
        rw [hcs]
        exact List.mem_cons_self
      rw [hcs] at hread
      rw [Scalar.chars, hcs, List.cons_append, value_of_digit n hdigit, ← List.cons_append, hread]
      show some (Json.num _, rest) = some (Json.num (Nat.repr m), rest)
      rw [← hcs, Nat.repr_eq_ofList_toDigits]

theorem memberChars_append (field : String × Scalar) (rest : List Char) :
    memberChars field ++ rest =
      '"' :: (field.1.toList.flatMap Text.escape ++ '"' :: ':' :: (field.2.chars ++ rest)) := by
  simp [memberChars, Text.quote]

/-- The last member. -/
theorem members_last (field : String × Scalar) (n : ℕ) (rest : List Char) :
    members (n + 2) (memberChars field ++ '}' :: rest) =
      some ([(field.1, field.2.json)], rest) := by
  have hcolon : skip (':' :: (field.2.chars ++ '}' :: rest)) =
      ':' :: (field.2.chars ++ '}' :: rest) := rfl
  have hbrace : skip ('}' :: rest) = '}' :: rest := rfl
  rw [memberChars_append, members]
  show (string _).bind _ = _
  rw [string_quote, Option.bind_some]
  simp only [hcolon]
  rw [value_scalar field.2 n ⟨'}', rest, rfl, Or.inr rfl⟩, Option.bind_some]
  simp only [hbrace]

/-- A member that is not the last. -/
theorem members_more (field : String × Scalar) (n : ℕ) (rest : List Char) :
    members (n + 2) (memberChars field ++ ',' :: rest) =
      (members (n + 1) rest).map fun r => ((field.1, field.2.json) :: r.1, r.2) := by
  have hcolon : skip (':' :: (field.2.chars ++ ',' :: rest)) =
      ':' :: (field.2.chars ++ ',' :: rest) := rfl
  have hcomma : skip (',' :: rest) = ',' :: rest := rfl
  rw [memberChars_append, members]
  show (string _).bind _ = _
  rw [string_quote, Option.bind_some]
  simp only [hcolon]
  rw [value_scalar field.2 n ⟨',', rest, rfl, Or.inl rfl⟩, Option.bind_some]
  simp only [hcomma]

/-- The members are read as they were written. -/
theorem members_fields (fields : List (String × Scalar)) (hne : fields ≠ []) {n : ℕ}
    (hn : fields.length < n) (rest : List Char) :
    members n (fieldChars fields ++ '}' :: rest) =
      some (fields.map fun field => (field.1, field.2.json), rest) := by
  induction fields using fieldChars.induct generalizing n with
  | case1 => exact absurd rfl hne
  | case2 field =>
    obtain ⟨m, rfl⟩ : ∃ m, n = m + 2 := ⟨n - 2, by
      rw [List.length_singleton] at hn
      omega⟩
    rw [fieldChars, members_last]
    exact congrArg some rfl
  | case3 field next fields ih =>
    rw [List.length_cons] at hn
    obtain ⟨m, rfl⟩ : ∃ m, n = m + 2 := ⟨n - 2, by omega⟩
    have hmore := ih (List.cons_ne_nil _ _) (n := m + 1) (by omega)
    rw [fieldChars, List.append_assoc, List.cons_append, members_more, hmore, Option.map_some]
    exact congrArg some rfl

/-- Each member takes a character at least. -/
theorem length_le_fieldChars (fields : List (String × Scalar)) :
    fields.length ≤ (fieldChars fields).length := by
  have hmember : ∀ field, 1 ≤ (memberChars field).length := by
    intro field
    rw [memberChars, List.length_append, List.length_cons]
    omega
  induction fields using fieldChars.induct with
  | case1 => exact Nat.zero_le _
  | case2 field => exact hmember field
  | case3 field next fields ih =>
    have hfield := hmember field
    rw [List.length_cons, fieldChars, List.length_append, List.length_cons (a := ',')]
    omega

/-- **Round trip.**  An object is read as it was written. -/
theorem parse_stringify (fields : List (String × Scalar)) (hne : fields ≠ []) :
    parse (stringify fields) = some (.obj (fields.map fun field => (field.1, field.2.json))) := by
  have hlength := length_le_fieldChars fields
  have hread := members_fields fields hne
    (n := ('{' :: (fieldChars fields ++ ['}'])).length) (by
      rw [List.length_cons, List.length_append]
      omega) []
  have hquote : ∃ cs, fieldChars fields ++ ['}'] = '"' :: cs := by
    cases fields using fieldChars.induct with
    | case1 => exact absurd rfl hne
    | case2 field => exact ⟨_, memberChars_append field _⟩
    | case3 field next fields => exact ⟨_, by
        rw [fieldChars, List.append_assoc, memberChars_append]⟩
  obtain ⟨cs, hcs⟩ := hquote
  have hopen : skip ('{' :: (fieldChars fields ++ ['}'])) = '{' :: '"' :: cs := by
    rw [hcs]
    rfl
  have hskip : skip ('"' :: cs) = '"' :: cs := rfl
  rw [hcs] at hread
  rw [parse, stringify, String.toList_ofList, value, hopen]
  simp only [hskip]
  rw [hcs]
  show ((members _ _).map _).bind _ = _
  rw [hread]
  rfl

end JsonText
