/-
IP addresses and their texts.

* `parseV4`, `parseV6` — the value of a text, in the grammar of `isIP` of `node:net`: four octets,
  or eight groups of sixteen bits;
* `parse`, `isIP` — either, and which;
* `first_group` — the first group of an address, read off the start of its text;
* `dotted_tail` — a text whose last two groups are an IPv4 address;
* `parseV6_intercalate`, `parseV6_dotted` — texts of a given address.
-/
import Mathlib.Data.List.TakeWhile

namespace IpAddress

/-! ### Texts -/

/-- An octet in decimal, without leading zeros. -/
def octet (text : List Char) : Option ℕ := (List.range 256).find? fun n => Nat.toDigits 10 n = text

/-- Four octets with dots between them. -/
def parseV4 (text : List Char) : Option (List ℕ) :=
  match text.splitOn '.' with
  | [a, b, c, d] => do return [← octet a, ← octet b, ← octet c, ← octet d]
  | _ => none

def hexDigit (c : Char) : Option ℕ := (List.range 16).find? fun n => Nat.digitChar n = c.toLower

def hexDigits : List Char → Option (List ℕ)
  | [] => some []
  | c :: text => do return (← hexDigit c) :: (← hexDigits text)

/-- The number that hexadecimal digits spell. -/
def hexValue (digits : List ℕ) : ℕ := digits.foldl (fun n d => 16 * n + d) 0

/-- A group: one to four hexadecimal digits. -/
def hexGroup (text : List Char) : Option ℕ :=
  if 1 ≤ text.length ∧ text.length ≤ 4 then (hexDigits text).map hexValue else none

/-- Four octets as two groups. -/
def asGroups : List ℕ → List ℕ
  | [a, b, c, d] => [256 * a + b, 256 * c + d]
  | _ => []

/-- Groups, the last two of which may be written as an IPv4 address. -/
def groups : List (List Char) → Option (List ℕ)
  | [] => some []
  | [piece] => ((hexGroup piece).map fun g => [g]).or ((parseV4 piece).map asGroups)
  | piece :: pieces => do return (← hexGroup piece) :: (← groups pieces)

def hexGroups : List (List Char) → Option (List ℕ)
  | [] => some []
  | piece :: pieces => do return (← hexGroup piece) :: (← hexGroups pieces)

/-- The pieces between colons; none of an empty text. -/
def pieces (text : List Char) : List (List Char) := if text = [] then [] else text.splitOn ':'

/-- What stands before and after the first double colon. -/
def doubleColon : List Char → Option (List Char × List Char)
  | ':' :: ':' :: text => some ([], text)
  | c :: text => (doubleColon text).map fun (left, right) => (c :: left, right)
  | [] => none

/-- Eight groups with colons between them; a double colon stands for the zeros that are missing. -/
def parseV6 (text : List Char) : Option (List ℕ) :=
  match doubleColon text with
  | some (left, right) => do
    let left ← hexGroups (pieces left)
    let right ← groups (pieces right)
    if left.length + right.length ≤ 7 then
      some (left ++ List.replicate (8 - (left.length + right.length)) 0 ++ right)
    else none
  | none => (groups (pieces text)).filter fun gs => gs.length = 8

/-- The characters of a zone. -/
def isZoneChar (c : Char) : Bool := c.isAlphanum || c = '-' || c = '.' || c = ':'

/-- An IPv6 address, perhaps with its zone. -/
def parseZoned (text : List Char) : Option (List ℕ) :=
  match text.dropWhile (· ≠ '%') with
  | [] => parseV6 text
  | _ :: zone =>
    if zone ≠ [] ∧ zone.all isZoneChar then parseV6 (text.takeWhile (· ≠ '%')) else none

inductive Address
  | v4 (octets : List ℕ)
  | v6 (groups : List ℕ)
deriving DecidableEq

/-- The address that a text denotes. -/
def parse (text : String) : Option Address :=
  ((parseV4 text.toList).map Address.v4).or ((parseZoned text.toList).map Address.v6)

/-- `isIP` of `node:net`. -/
def isIP (text : String) : ℕ :=
  match parse text with
  | some (.v4 _) => 4
  | some (.v6 _) => 6
  | none => 0

example : parse "fe80::1%eth0" = some (.v6 [0xfe80, 0, 0, 0, 0, 0, 0, 1]) := by decide
example : parse "::ffff:10.0.0.1" = some (.v6 [0, 0, 0, 0, 0, 0xffff, 0xa00, 1]) := by
  decide
example : parse "1:2::3::4" = none ∧ parse "127.0.0.01" = none := by decide

/-! ### Octets and digits -/

variable {text piece left right : List Char} {gs digits : List ℕ} {n g : ℕ} {c : Char}

/-- A number is known by its digits. -/
theorem toDigits_inj {m : ℕ} (h : Nat.toDigits 10 m = Nat.toDigits 10 n) : m = n := by
  have hvalue := congrArg (Nat.ofDigitChars 10 · 0) h
  simpa only [Nat.ofDigitChars_ten_toDigits] using hvalue

theorem octet_eq_some : octet text = some n ↔ n < 256 ∧ Nat.toDigits 10 n = text := by
  constructor
  · intro h
    exact ⟨List.mem_range.mp (List.mem_of_find?_eq_some h), by simpa using List.find?_some h⟩
  · rintro ⟨hn, rfl⟩
    cases hfind : octet (Nat.toDigits 10 n) with
    | none => simpa using List.find?_eq_none.mp hfind n (List.mem_range.mpr hn)
    | some m =>
      have hdigits : Nat.toDigits 10 m = Nat.toDigits 10 n := by simpa using List.find?_some hfind
      rw [toDigits_inj hdigits]

theorem parseV4_eq_some {octets : List ℕ} : parseV4 text = some octets ↔
    ∃ a b c d, text.splitOn '.' = [Nat.toDigits 10 a, Nat.toDigits 10 b, Nat.toDigits 10 c,
      Nat.toDigits 10 d] ∧ a < 256 ∧ b < 256 ∧ c < 256 ∧ d < 256 ∧ octets = [a, b, c, d] := by
  constructor
  · intro h
    rw [parseV4] at h
    split at h
    · next ta tb tc td hsplit =>
      obtain ⟨a, ha, h⟩ := Option.bind_eq_some_iff.mp h
      obtain ⟨b, hb, h⟩ := Option.bind_eq_some_iff.mp h
      obtain ⟨c, hc, h⟩ := Option.bind_eq_some_iff.mp h
      obtain ⟨d, hd, hoctets⟩ := Option.bind_eq_some_iff.mp h
      obtain ⟨hlta, rfl⟩ := octet_eq_some.mp ha
      obtain ⟨hltb, rfl⟩ := octet_eq_some.mp hb
      obtain ⟨hltc, rfl⟩ := octet_eq_some.mp hc
      obtain ⟨hltd, rfl⟩ := octet_eq_some.mp hd
      exact ⟨a, b, c, d, hsplit, hlta, hltb, hltc, hltd, (Option.some_inj.mp hoctets).symm⟩
    · cases h
  · rintro ⟨a, b, c, d, hsplit, ha, hb, hc, hd, rfl⟩
    simp [parseV4, hsplit, octet_eq_some.mpr ⟨ha, rfl⟩, octet_eq_some.mpr ⟨hb, rfl⟩,
      octet_eq_some.mpr ⟨hc, rfl⟩, octet_eq_some.mpr ⟨hd, rfl⟩]

theorem hexDigit_eq_some (h : hexDigit c = some n) : n < 16 ∧ Nat.digitChar n = c.toLower :=
  ⟨List.mem_range.mp (List.mem_of_find?_eq_some h), by simpa using List.find?_some h⟩

/-- Digits are known by their characters in lower case. -/
theorem hexDigits_eq_some (h : hexDigits text = some digits) :
    digits.map Nat.digitChar = text.map Char.toLower ∧ ∀ d ∈ digits, d < 16 := by
  induction text generalizing digits with
  | nil =>
    cases h
    exact ⟨rfl, fun _ h => absurd h List.not_mem_nil⟩
  | cons c text ih =>
    obtain ⟨d, hd, h⟩ := Option.bind_eq_some_iff.mp h
    obtain ⟨ds, hds, h⟩ := Option.bind_eq_some_iff.mp h
    obtain rfl := Option.some_inj.mp h
    obtain ⟨hlt, hchar⟩ := hexDigit_eq_some hd
    obtain ⟨hmap, hall⟩ := ih hds
    exact ⟨by rw [List.map_cons, List.map_cons, hchar, hmap], List.forall_mem_cons.mpr ⟨hlt, hall⟩⟩

theorem hexGroup_eq_some (h : hexGroup text = some g) : ∃ digits, hexDigits text = some digits ∧
    digits.length = text.length ∧ 1 ≤ text.length ∧ text.length ≤ 4 ∧ g = hexValue digits := by
  rw [hexGroup] at h
  split at h
  · next hlength =>
    obtain ⟨digits, hdigits, rfl⟩ := Option.map_eq_some_iff.mp h
    have hmap := congrArg List.length (hexDigits_eq_some hdigits).1
    rw [List.length_map, List.length_map] at hmap
    exact ⟨digits, hdigits, hmap, hlength.1, hlength.2, rfl⟩
  · cases h

/-- A character that is no hexadecimal digit is in no group. -/
theorem not_mem_of_hexGroup (h : hexGroup text = some g) (hc : hexDigit c = none) : c ∉ text := by
  intro hmem
  obtain ⟨digits, hdigits, -⟩ := hexGroup_eq_some h
  clear h
  induction text generalizing digits with
  | nil => exact absurd hmem List.not_mem_nil
  | cons c' text ih =>
    obtain ⟨d, hd, hdigits⟩ := Option.bind_eq_some_iff.mp hdigits
    obtain ⟨ds, hds, -⟩ := Option.bind_eq_some_iff.mp hdigits
    rcases List.mem_cons.mp hmem with rfl | hmem
    · rw [hc] at hd
      cases hd
    · exact ih hmem ds hds

theorem groups_cons {rest : List (List Char)} (hrest : rest ≠ []) :
    groups (piece :: rest) =
      (hexGroup piece).bind fun g => (groups rest).map fun gs => g :: gs := by
  cases rest with
  | nil => exact absurd rfl hrest
  | cons piece' rest =>
    rw [groups]
    cases hexGroup piece <;> cases groups (piece' :: rest) <;> rfl
    exact List.cons_ne_nil _ _

theorem length_groups_singleton (h : groups [piece] = some gs) : gs.length ≤ 2 := by
  rw [groups] at h
  rcases Option.or_eq_some_iff.mp h with hhex | ⟨-, hdotted⟩
  · obtain ⟨g, -, rfl⟩ := Option.map_eq_some_iff.mp hhex
    exact Nat.le_succ 1
  · obtain ⟨octets, hoctets, rfl⟩ := Option.map_eq_some_iff.mp hdotted
    obtain ⟨a, b, c, d, -, -, -, -, -, rfl⟩ := parseV4_eq_some.mp hoctets
    exact Nat.le_refl 2

/-! ### The start of a text -/

theorem splitOn_eq_cons {p : List Char} {ps : List (List Char)} (h : text.splitOn c = p :: ps) :
    c ∉ p ∧ (ps = [] ∧ text = p ∨ ∃ rest, text = p ++ c :: rest ∧ rest.splitOn c = ps) := by
  by_cases hmem : c ∈ text
  · obtain ⟨before, after, rfl, hbefore⟩ := List.eq_append_cons_of_mem hmem
    rw [List.splitOn_append_cons_self_of_not_mem hbefore] at h
    obtain ⟨rfl, rfl⟩ := List.cons.inj h
    exact ⟨hbefore, Or.inr ⟨after, rfl, rfl⟩⟩
  · rw [List.splitOn_eq_singleton hmem] at h
    obtain ⟨rfl, rfl⟩ := List.cons.inj h
    exact ⟨hmem, Or.inl ⟨rfl, rfl⟩⟩

theorem doubleColon_eq_some (h : doubleColon text = some (left, right)) :
    text = left ++ ':' :: ':' :: right := by
  induction text using doubleColon.induct generalizing left with
  | case1 text =>
    cases h
    rfl
  | case2 c text hne ih =>
    rw [doubleColon] at h
    · obtain ⟨⟨left', right'⟩, htext, heq⟩ := Option.map_eq_some_iff.mp h
      obtain ⟨rfl, rfl⟩ := Prod.mk.inj heq
      rw [ih htext]
      rfl
    · exact hne
  | case3 => cases h

/-- **The first group** of an address is that of the first piece of its text; a text that starts
with a double colon starts with zeros. -/
theorem first_group (h : parseV6 text = some gs) :
    (∃ rest, text = ':' :: ':' :: rest ∧ gs.head? = some 0) ∨
    ∃ piece rest, text = piece ++ ':' :: rest ∧ ∃ g, hexGroup piece = some g ∧
      gs.head? = some g := by
  rw [parseV6] at h
  split at h
  · next left right hdouble =>
    obtain rfl := doubleColon_eq_some hdouble
    obtain ⟨lefts, hleft, h⟩ := Option.bind_eq_some_iff.mp h
    obtain ⟨rights, -, h⟩ := Option.bind_eq_some_iff.mp h
    obtain ⟨hlength, hgs⟩ := Option.ite_none_right_eq_some.mp h
    obtain rfl := Option.some_inj.mp hgs
    rw [pieces] at hleft
    split at hleft
    · next hnil =>
      subst hnil
      cases hleft
      refine Or.inl ⟨right, rfl, ?_⟩
      rw [List.nil_append, List.length_nil, Nat.zero_add,
        show 8 - rights.length = 7 - rights.length + 1 by simp at hlength; omega,
        List.replicate_succ]
      rfl
    · right
      obtain ⟨p, ps, hsplit⟩ := List.exists_cons_of_ne_nil (List.splitOn_ne_nil ':' left)
      rw [hsplit] at hleft
      obtain ⟨g, hg, hleft⟩ := Option.bind_eq_some_iff.mp hleft
      obtain ⟨others, -, hlefts⟩ := Option.bind_eq_some_iff.mp hleft
      obtain rfl := Option.some_inj.mp hlefts
      rcases (splitOn_eq_cons hsplit).2 with ⟨-, rfl⟩ | ⟨rest, rfl, -⟩
      · exact ⟨left, _, rfl, g, hg, rfl⟩
      · exact ⟨p, _, by rw [List.append_assoc]; rfl, g, hg, rfl⟩
  · right
    obtain ⟨hgroups, hlength⟩ := Option.filter_eq_some_iff.mp h
    have hlength : gs.length = 8 := by simpa using hlength
    rw [pieces] at hgroups
    split at hgroups
    · cases hgroups
      cases hlength
    · obtain ⟨p, ps, hsplit⟩ := List.exists_cons_of_ne_nil (List.splitOn_ne_nil ':' text)
      rw [hsplit] at hgroups
      rcases (splitOn_eq_cons hsplit).2 with ⟨rfl, rfl⟩ | ⟨rest, rfl, hrest⟩
      · have := length_groups_singleton hgroups
        omega
      · rw [groups_cons (hrest ▸ List.splitOn_ne_nil ':' rest)] at hgroups
        obtain ⟨g, hg, hgroups⟩ := Option.bind_eq_some_iff.mp hgroups
        obtain ⟨others, -, rfl⟩ := Option.map_eq_some_iff.mp hgroups
        exact ⟨p, rest, rfl, g, hg, rfl⟩

/-- **A dotted tail** is the last two groups: what follows a double colon, one group, and a text
whose first piece has a dot. -/
theorem dotted_tail {group before after : List Char} (hbefore : ':' ∉ before)
    (hgroup : ':' ∉ group)
    (h : parseV6 (':' :: ':' :: (group ++ ':' :: (before ++ '.' :: after))) = some gs) :
    ∃ g octets, hexGroup group = some g ∧ parseV4 (before ++ '.' :: after) = some octets ∧
      gs = [0, 0, 0, 0, 0, g] ++ asGroups octets := by
  have hdot : hexDigit '.' = none := by decide
  rw [parseV6] at h
  simp only [doubleColon] at h
  obtain ⟨lefts, hleft, h⟩ := Option.bind_eq_some_iff.mp h
  obtain ⟨rights, hright, h⟩ := Option.bind_eq_some_iff.mp h
  obtain ⟨-, hgs⟩ := Option.ite_none_right_eq_some.mp h
  obtain rfl := Option.some_inj.mp hgs
  cases hleft
  rw [pieces, if_neg (by simp), List.splitOn_append_cons_self_of_not_mem hgroup,
    groups_cons (List.splitOn_ne_nil _ _)] at hright
  obtain ⟨g, hg, hright⟩ := Option.bind_eq_some_iff.mp hright
  obtain ⟨tail, htail, rfl⟩ := Option.map_eq_some_iff.mp hright
  obtain ⟨p, ps, hsplit⟩ := List.exists_cons_of_ne_nil
    (List.splitOn_ne_nil ':' (before ++ '.' :: after))
  obtain ⟨hp, hrest⟩ := splitOn_eq_cons hsplit
  -- the piece with the dot is no hexadecimal group
  have hmem : '.' ∈ p := by
    rcases hrest with ⟨-, rfl⟩ | ⟨rest, hrest, -⟩
    · simp
    · rcases List.append_eq_append_iff.mp hrest with ⟨more, rfl, hmore⟩ | ⟨more, rfl, hmore⟩
      · cases more with
        | nil => simp at hmore
        | cons c more =>
          obtain ⟨rfl, -⟩ := List.cons.inj hmore
          simp
      · cases more with
        | nil => simp at hmore
        | cons c more =>
          obtain ⟨rfl, -⟩ := List.cons.inj hmore
          exact absurd (by simp) hbefore
  have hnone : hexGroup p = none := by
    cases hexadecimal : hexGroup p with
    | none => rfl
    | some g => exact absurd hmem (not_mem_of_hexGroup hexadecimal hdot)
  rw [hsplit] at htail
  rcases hrest with ⟨rfl, rfl⟩ | ⟨rest, hrest, hps⟩
  · rw [groups, hnone] at htail
    obtain ⟨octets, hoctets, rfl⟩ := Option.map_eq_some_iff.mp htail
    obtain ⟨a, b, c, d, -, -, -, -, -, rfl⟩ := parseV4_eq_some.mp hoctets
    exact ⟨g, [a, b, c, d], hg, hoctets, rfl⟩
  · rw [groups_cons (hps ▸ List.splitOn_ne_nil _ _), hnone] at htail
    cases htail

/-! ### Texts of an address -/

theorem groups_of_hexGroups {ps : List (List Char)} (h : hexGroups ps = some gs) :
    groups ps = some gs ∧ gs.length = ps.length ∧ ∀ p ∈ ps, ∃ g, hexGroup p = some g := by
  induction ps generalizing gs with
  | nil =>
    cases h
    exact ⟨rfl, rfl, fun _ h => absurd h List.not_mem_nil⟩
  | cons p ps ih =>
    obtain ⟨g, hg, h⟩ := Option.bind_eq_some_iff.mp h
    obtain ⟨others, hothers, h⟩ := Option.bind_eq_some_iff.mp h
    obtain rfl := Option.some_inj.mp h
    obtain ⟨hgroups, hlength, hall⟩ := ih hothers
    refine ⟨?_, by rw [List.length_cons, List.length_cons, hlength],
      List.forall_mem_cons.mpr ⟨⟨g, hg⟩, hall⟩⟩
    cases ps with
    | nil =>
      cases hothers
      rw [groups, hg]
      rfl
    | cons p' ps =>
      rw [groups_cons (List.cons_ne_nil _ _), hg, hgroups]
      rfl

theorem doubleColon_intercalate {ps : List (List Char)} (hne : ps ≠ [])
    (hcolon : ∀ p ∈ ps, ':' ∉ p) (hempty : [] ∉ ps) :
    doubleColon ([':'].intercalate ps) = none := by
  cases hdouble : doubleColon ([':'].intercalate ps) with
  | none => rfl
  | some parts =>
    obtain ⟨left, right⟩ := parts
    have hsplit := List.splitOn_intercalate ':' hcolon hne
    rw [doubleColon_eq_some hdouble, List.splitOn_append_cons_self] at hsplit
    have hmem : [] ∈ (':' :: right).splitOn ':' := by
      rw [List.splitOn_cons_eq_if_modifyHead, if_pos (beq_self_eq_true _)]
      exact List.mem_cons_self
    exact absurd (hsplit ▸ List.mem_append_right _ hmem) hempty

/-- **Eight groups**, each spelled anyhow, spell their address. -/
theorem parseV6_intercalate {ps : List (List Char)} (h : hexGroups ps = some gs)
    (hlength : ps.length = 8) : parseV6 ([':'].intercalate ps) = some gs := by
  obtain ⟨hgroups, hlength', hall⟩ := groups_of_hexGroups h
  have hne : ps ≠ [] := List.ne_nil_of_length_pos (by omega)
  have hcolon : ∀ p ∈ ps, ':' ∉ p := fun p hp =>
    have ⟨_, hg⟩ := hall p hp
    not_mem_of_hexGroup hg (by decide)
  have hempty : [] ∉ ps := fun hmem => by
    obtain ⟨g, hg⟩ := hall [] hmem
    cases hg
  have htext : [':'].intercalate ps ≠ [] := fun hnil => by
    have hsplit := List.splitOn_intercalate ':' hcolon hne
    rw [hnil, List.splitOn_nil] at hsplit
    exact hempty (hsplit ▸ List.mem_cons_self)
  rw [parseV6, doubleColon_intercalate hne hcolon hempty, pieces, if_neg htext,
    List.splitOn_intercalate ':' hcolon hne, hgroups]
  simp [hlength', hlength]

/-- Four octets with dots. -/
def dotted (octets : List ℕ) : List Char := ['.'].intercalate (octets.map (Nat.toDigits 10))

theorem not_mem_toDigits (hc : c.isDigit = false) : c ∉ Nat.toDigits 10 n := fun hmem => by
  have := Nat.isDigit_of_mem_toDigits (by omega) (by omega) hmem
  rw [hc] at this
  cases this

theorem parseV4_dotted {a b c d : ℕ} (ha : a < 256) (hb : b < 256) (hc : c < 256) (hd : d < 256) :
    parseV4 (dotted [a, b, c, d]) = some [a, b, c, d] := by
  refine parseV4_eq_some.mpr ⟨a, b, c, d, ?_, ha, hb, hc, hd, rfl⟩
  refine List.splitOn_intercalate '.' (fun p hp => ?_) (by simp)
  obtain ⟨n, -, rfl⟩ := List.mem_map.mp hp
  exact not_mem_toDigits (by decide)

theorem eq_dotted {octets : List ℕ} (h : parseV4 text = some octets) : text = dotted octets := by
  obtain ⟨a, b, c, d, hsplit, -, -, -, -, rfl⟩ := parseV4_eq_some.mp h
  have htext : ['.'].intercalate (text.splitOn '.') = text := List.intercalate_splitOn '.'
  rw [hsplit] at htext
  exact htext.symm

/-- **An IPv4 address after a double colon and a group.** -/
theorem parseV6_dotted {group : List Char} {a b c d : ℕ} (hg : hexGroup group = some g)
    (ha : a < 256) (hb : b < 256) (hc : c < 256) (hd : d < 256) :
    parseV6 (':' :: ':' :: (group ++ ':' :: dotted [a, b, c, d])) =
      some [0, 0, 0, 0, 0, g, 256 * a + b, 256 * c + d] := by
  have hcolon : ':' ∉ dotted [a, b, c, d] := by
    simp [dotted, List.intercalate, List.intersperse, not_mem_toDigits]
  have hdot : hexGroup (dotted [a, b, c, d]) = none := by
    cases hexadecimal : hexGroup (dotted [a, b, c, d]) with
    | none => rfl
    | some g =>
      exact absurd (by simp [dotted, List.intercalate, List.intersperse])
        (not_mem_of_hexGroup (c := '.') hexadecimal (by decide))
  have hgroup : ':' ∉ group := not_mem_of_hexGroup hg (by decide)
  rw [parseV6]
  simp only [doubleColon]
  rw [pieces, pieces, if_pos rfl, if_neg (by simp), List.splitOn_append_cons_self_of_not_mem hgroup,
    List.splitOn_eq_singleton hcolon, groups_cons (List.cons_ne_nil _ _), hg, groups, hdot,
    parseV4_dotted ha hb hc hd]
  rfl

theorem hexDigit_digitChar (h : n < 16) : hexDigit (Nat.digitChar n) = some n := by
  have hall : ∀ n < 16, hexDigit (Nat.digitChar n) = some n := by decide
  exact hall n h

theorem hexDigits_digits (hall : ∀ d ∈ digits, d < 16) :
    hexDigits (digits.map Nat.digitChar) = some digits := by
  induction digits with
  | nil => rfl
  | cons d digits ih =>
    obtain ⟨hd, hall⟩ := List.forall_mem_cons.mp hall
    rw [List.map_cons, hexDigits, hexDigit_digitChar hd, ih hall]
    rfl

theorem hexGroup_digits (hall : ∀ d ∈ digits, d < 16) (hpos : 1 ≤ digits.length)
    (hle : digits.length ≤ 4) : hexGroup (digits.map Nat.digitChar) = some (hexValue digits) := by
  rw [hexGroup, if_pos (by simpa using ⟨hpos, hle⟩), hexDigits_digits hall]
  rfl

/-! ### Addresses -/

/-- A text without its zone. -/
theorem parseZoned_eq_some (h : parseZoned text = some gs) :
    ∃ address zone, text = address ++ zone ∧ parseV6 address = some gs ∧
      (zone = [] ∨ ∃ rest, zone = '%' :: rest) := by
  rw [parseZoned] at h
  split at h
  · exact ⟨text, [], (List.append_nil _).symm, h, Or.inl rfl⟩
  · next c zone hdrop =>
    obtain ⟨-, h⟩ := Option.ite_none_right_eq_some.mp h
    refine ⟨_, _, (List.takeWhile_append_dropWhile).symm, h, Or.inr ⟨zone, ?_⟩⟩
    have hc : c = '%' := by
      have hhead := List.head?_dropWhile_not (· ≠ '%') text
      rw [hdrop] at hhead
      simpa using hhead
    rw [hdrop, hc]

theorem parseZoned_of_parseV6 (h : parseV6 text = some gs) (hzone : '%' ∉ text) :
    parseZoned text = some gs := by
  have hdrop : text.dropWhile (· ≠ '%') = [] := by
    rw [List.dropWhile_eq_nil_iff]
    exact fun c hc => by simpa using fun heq : c = '%' => hzone (heq ▸ hc)
  rw [parseZoned, hdrop]
  exact h

theorem dotted_eq {a b c d : ℕ} : dotted [a, b, c, d] = Nat.toDigits 10 a ++ '.' ::
    (Nat.toDigits 10 b ++ '.' :: (Nat.toDigits 10 c ++ '.' :: Nat.toDigits 10 d)) := by
  simp [dotted, List.intercalate, List.intersperse]

theorem parseZoned_dotted {group : List Char} {a b c d : ℕ} (hg : hexGroup group = some g)
    (ha : a < 256) (hb : b < 256) (hc : c < 256) (hd : d < 256) :
    parseZoned (':' :: ':' :: (group ++ ':' :: dotted [a, b, c, d])) =
      some [0, 0, 0, 0, 0, g, 256 * a + b, 256 * c + d] := by
  have hzone : '%' ∉ group := not_mem_of_hexGroup hg (by decide)
  exact parseZoned_of_parseV6 (parseV6_dotted hg ha hb hc hd)
    (by simp [dotted_eq, not_mem_toDigits, hzone])

theorem not_mem_intercalate {ps : List (List Char)} (hc : c ≠ ':') (hps : ∀ p ∈ ps, c ∉ p) :
    c ∉ [':'].intercalate ps := by
  induction ps with
  | nil => exact List.not_mem_nil
  | cons p ps ih =>
    obtain ⟨hp, hps⟩ := List.forall_mem_cons.mp hps
    by_cases hnil : ps = []
    · subst hnil
      simpa [List.intercalate, List.intersperse] using hp
    · rw [List.intercalate_cons_of_ne_nil hnil]
      simp [hp, hc, ih hps]

theorem parseZoned_intercalate {ps : List (List Char)} (h : hexGroups ps = some gs)
    (hlength : ps.length = 8) : parseZoned ([':'].intercalate ps) = some gs := by
  refine parseZoned_of_parseV6 (parseV6_intercalate h hlength) ?_
  refine not_mem_intercalate (by decide) fun p hp => ?_
  obtain ⟨g, hg⟩ := (groups_of_hexGroups h).2.2 p hp
  exact not_mem_of_hexGroup hg (by decide)

theorem colon_of_parseZoned (h : parseZoned text = some gs) : ':' ∈ text := by
  obtain ⟨address, zone, rfl, haddress, -⟩ := parseZoned_eq_some h
  rcases first_group haddress with ⟨rest, rfl, -⟩ | ⟨piece, rest, rfl, -⟩ <;> simp

theorem colon_of_parseV4 {octets : List ℕ} (h : parseV4 text = some octets) : ':' ∉ text := by
  obtain ⟨a, b, c, d, -, -, -, -, -, rfl⟩ := parseV4_eq_some.mp h
  rw [eq_dotted h]
  simp [dotted, List.intercalate, List.intersperse, not_mem_toDigits]

theorem parse_eq_v4 {name : String} {octets : List ℕ} :
    parse name = some (.v4 octets) ↔ parseV4 name.toList = some octets := by
  rw [parse]
  cases parseV4 name.toList with
  | none => cases parseZoned name.toList <;> simp
  | some octets' => simp

theorem parse_eq_v6 {name : String} :
    parse name = some (.v6 gs) ↔ parseZoned name.toList = some gs := by
  rw [parse]
  cases hv4 : parseV4 name.toList with
  | none => simp
  | some octets =>
    refine iff_of_false (by simp) fun h => ?_
    exact colon_of_parseV4 hv4 (colon_of_parseZoned h)

theorem isIP_eq_zero {name : String} : isIP name = 0 ↔ parse name = none := by
  rw [isIP]
  split <;> simp_all

end IpAddress
