/-
What the guard of outbound URLs lets through (`packages/notifications/src/ssrf.ts`).

An IPv6 address is tested by the start of its text, of which it has many.

* `Forbidden` — the addresses the guard is about; `Denoted` — those a host stands for;
* `isPrivateV4_iff` — the test of an IPv4 address is exact;
* `isPrivateV6_of_piece`, `isPrivateV6_of_colons` — what the test of an IPv6 address comes to, for
  a text that starts with a group or with a double colon;
* `slips_iff` — the texts of forbidden addresses that the test lets through;
* `assertSafeWebhookUrl_eq_ok` — the guard, as what it asks of a URL;
* `sameVerdict_iff` — exactly which addresses have the same verdict in all their texts;
* `guarded_iff` — that, and exactly when the guard keeps its promise; `mapped_link_local` — a URL
  and an address for which not.
-/
import HoodMint.AlertChannels
import HoodMint.Lib.IpAddress

namespace Notifications

open IpAddress (Address parse parseV4 parseV6 parseZoned hexGroup hexValue hexDigits)

/-! ### Addresses -/

/-- The platform, with the classifier of `node:net`. -/
def platform (parseUrl : String → Option Url) (lookup : String → Option (List String)) : Platform :=
  ⟨parseUrl, IpAddress.isIP, lookup⟩

/-- Loopback, private, link-local and this-network, by the first two octets. -/
def ForbiddenV4 (a b : ℕ) : Prop :=
  a = 127 ∨ a = 10 ∨ (a = 172 ∧ 16 ≤ b ∧ b ≤ 31) ∨ (a = 192 ∧ b = 168) ∨ (a = 169 ∧ b = 254) ∨ a = 0

instance (a b : ℕ) : Decidable (ForbiddenV4 a b) := by
  unfold ForbiddenV4
  infer_instance

def unspecified : List ℕ := [0, 0, 0, 0, 0, 0, 0, 0]

def loopback : List ℕ := [0, 0, 0, 0, 0, 0, 0, 1]

/-- The first two octets of the IPv4 address that an IPv6 address is the mapped form of. -/
def mapped : List ℕ → Option (ℕ × ℕ)
  | [0, 0, 0, 0, 0, 0xffff, high, _] => some (high / 256, high % 256)
  | _ => none

/-- The ranges of IPv4, and of IPv6 with the mapped forms of those of IPv4. -/
def Forbidden : Address → Prop
  | .v4 octets => ForbiddenV4 (octets.getD 0 0) (octets.getD 1 0)
  | .v6 groups => groups = unspecified ∨ groups = loopback ∨
      (0xfe80 ≤ groups.headD 0 ∧ groups.headD 0 ≤ 0xfebf) ∨
      (0xfc00 ≤ groups.headD 0 ∧ groups.headD 0 ≤ 0xfdff) ∨
      ∃ o ∈ mapped groups, ForbiddenV4 o.1 o.2

/-- The address that a host spells out, with or without brackets. -/
def literal (hostname : String) : Option Address :=
  (parse hostname).or <|
    match hostname.toList with
    | '[' :: text => if text.getLast? = some ']' then parse (String.ofList text.dropLast) else none
    | _ => none

/-- The addresses that a host stands for, literal or resolved. -/
def Denoted (p : Platform) (hostname : String) (a : Address) : Prop :=
  literal hostname = some a ∨
    p.isIP hostname = 0 ∧ ∃ answers, p.lookup hostname = some answers ∧
      ∃ text ∈ answers, parse text = some a

/-- The explicit option for a loopback host without TLS. -/
def Spared (allowInsecureLoopback : Bool) (url : Url) : Prop :=
  allowInsecureLoopback ∧ url.hostname ∈ ["localhost", "127.0.0.1", "[::1]"] ∧
    url.protocol = "http:"

/-- The guard keeps its promise: no URL that it returns stands for a forbidden address. -/
def Guarded (p : Platform) (rawUrl : String) (allowInsecureLoopback : Bool) : Prop :=
  ∀ url, assertSafeWebhookUrl p rawUrl allowInsecureLoopback = .ok url →
    ¬Spared allowInsecureLoopback url → ∀ a, Denoted p url.hostname a → ¬Forbidden a

/-! ### IPv4 -/

theorem shiftLeft_or {a b i : ℕ} (h : b < 2 ^ i) : (a <<< i) ||| b = a * 2 ^ i + b := by
  rw [← Nat.shiftLeft_add_eq_or_of_lt h, Nat.shiftLeft_eq]

theorem decimal_toDigits {n : ℕ} (h : n < 256) : decimal (Nat.toDigits 10 n) = n := by
  have hall : ∀ n < 256, decimal (Nat.toDigits 10 n) = n := by decide +kernel
  exact hall n h

/-- **The test of an IPv4 address** is exact, up to the addresses from 240 on. -/
theorem isPrivateV4_iff {text : String} {octets : List ℕ} (h : parseV4 text.toList = some octets) :
    isPrivateV4 text = true ↔
      ForbiddenV4 (octets.getD 0 0) (octets.getD 1 0) ∨ 240 ≤ octets.getD 0 0 := by
  obtain ⟨a, b, c, d, hsplit, ha, hb, hc, hd, rfl⟩ := IpAddress.parseV4_eq_some.mp h
  have hvalue : ipv4ToInt text = a * 2 ^ 24 + (b * 2 ^ 16 + (c * 2 ^ 8 + d)) := by
    rw [ipv4ToInt, hsplit]
    simp only [List.map_cons, List.map_nil, decimal_toDigits ha, decimal_toDigits hb,
      decimal_toDigits hc, decimal_toDigits hd, List.getD_cons_zero, List.getD_cons_succ]
    rw [Nat.or_assoc, Nat.or_assoc, shiftLeft_or (by omega : d < 2 ^ 8),
      shiftLeft_or (by omega : c * 2 ^ 8 + d < 2 ^ 16),
      shiftLeft_or (by omega : b * 2 ^ 16 + (c * 2 ^ 8 + d) < 2 ^ 24), Nat.mod_eq_of_lt (by omega)]
  have hfirst : ipv4ToInt text >>> 24 = a := by
    rw [hvalue, Nat.shiftRight_eq_div_pow]
    omega
  have hsecond : (ipv4ToInt text >>> 16) &&& 0xff = b := by
    rw [hvalue, Nat.shiftRight_eq_div_pow, show (0xff : ℕ) = 2 ^ 8 - 1 by rfl,
      Nat.and_two_pow_sub_one_eq_mod]
    omega
  rw [isPrivateV4]
  simp only [hfirst, hsecond, List.getD_cons_zero, List.getD_cons_succ, ForbiddenV4]
  simp only [Bool.or_eq_true, Bool.and_eq_true, decide_eq_true_eq, or_assoc, and_assoc]

/-! ### The start of an IPv6 text -/

variable {text : String} {groups digits : List ℕ} {g : ℕ}

/-- How a text starts whose address is written as the mapped form of an IPv4 address. -/
def MappedStart (text : String) : Prop :=
  ["::ffff:127.", "::ffff:10.", "::ffff:192.168.", "::ffff:172."].any
    (Text.startsWith (Text.lower text) ·) = true

instance (text : String) : Decidable (MappedStart text) :=
  (inferInstance : Decidable (_ = true))

theorem startsWith_iff {start : String} :
    Text.startsWith text start = true ↔ start.toList <+: text.toList :=
  decide_eq_true_iff

theorem isPrivateV6_iff : isPrivateV6 text = true ↔
    (Text.lower text = "::" ∨ Text.lower text = "::1") ∨
      ("fe80".toList <+: (Text.lower text).toList ∨ "fc".toList <+: (Text.lower text).toList ∨
        "fd".toList <+: (Text.lower text).toList ∨ "ff".toList <+: (Text.lower text).toList) ∨
      MappedStart text := by
  rw [isPrivateV6, MappedStart]
  simp only [List.any_cons, List.any_nil, Bool.or_false, Bool.or_eq_true, decide_eq_true_eq,
    startsWith_iff]
  simp only [or_assoc]

theorem prefix_append_cons {start piece rest : List Char} {c : Char} (hc : c ∉ start) :
    start <+: piece ++ c :: rest ↔ start <+: piece := by
  refine ⟨fun h => ?_, fun h => h.trans (List.prefix_append _ _)⟩
  rcases List.prefix_or_prefix_of_prefix h (List.prefix_append _ _) with hstart | ⟨more, rfl⟩
  · exact hstart
  · cases more with
    | nil => simp
    | cons c' more =>
      rw [List.prefix_append_right_inj, List.cons_prefix_cons] at h
      exact absurd (by simp [h.1]) hc

theorem digitChar_ne_colon {n : ℕ} (h : n < 16) : Nat.digitChar n ≠ ':' := by
  have hall : ∀ n < 16, Nat.digitChar n ≠ ':' := by decide
  exact hall n h

theorem prefix_map_digitChar {start : List ℕ} (hstart : ∀ d ∈ start, d < 16)
    (hdigits : ∀ d ∈ digits, d < 16) :
    start.map Nat.digitChar <+: digits.map Nat.digitChar ↔ start <+: digits := by
  have hinj : ∀ a < 16, ∀ b < 16, Nat.digitChar a = Nat.digitChar b → a = b := by decide
  refine ⟨fun h => ?_, fun h => h.map _⟩
  induction start generalizing digits with
  | nil => exact List.nil_prefix
  | cons a start ih =>
    cases digits with
    | nil => simp at h
    | cons b digits =>
      obtain ⟨ha, hstart⟩ := List.forall_mem_cons.mp hstart
      obtain ⟨hb, hdigits⟩ := List.forall_mem_cons.mp hdigits
      rw [List.map_cons, List.map_cons, List.cons_prefix_cons] at h
      exact List.cons_prefix_cons.mpr ⟨hinj a ha b hb h.1, ih hstart hdigits h.2⟩

/-- **A text that starts with a group** is private by the digits of the group. -/
theorem isPrivateV6_of_piece {piece rest : List Char} (htext : text.toList = piece ++ ':' :: rest)
    (hdigits : hexDigits piece = some digits) (hne : digits ≠ []) :
    isPrivateV6 text = true ↔
      [15, 14, 8, 0] <+: digits ∨ [15, 12] <+: digits ∨ [15, 13] <+: digits ∨
        [15, 15] <+: digits := by
  obtain ⟨hmap, hall⟩ := IpAddress.hexDigits_eq_some hdigits
  have hlower : (Text.lower text).toList = digits.map Nat.digitChar ++ ':' :: rest.map Char.toLower := by
    rw [Text.lower, String.toList_ofList, htext, List.map_append, List.map_cons, ← hmap]
    rfl
  obtain ⟨a, others, rfl⟩ := List.exists_cons_of_ne_nil hne
  -- it does not start with a colon, and the four starts have none
  have hcolon := digitChar_ne_colon (hall a List.mem_cons_self)
  have hother : ∀ start : List Char, ¬ ':' :: start <+:
      (a :: others).map Nat.digitChar ++ ':' :: rest.map Char.toLower := fun start h =>
    hcolon (List.cons_prefix_cons.mp h).1.symm
  have hnot : ∀ name : String, (∃ start, name.toList = ':' :: start) → Text.lower text ≠ name := by
    rintro name ⟨start, hname⟩ rfl
    exact hother start (hname ▸ hlower ▸ List.prefix_rfl)
  have hgroup : ∀ start : List ℕ, (∀ d ∈ start, d < 16) →
      (start.map Nat.digitChar <+: (a :: others).map Nat.digitChar ++ ':' :: rest.map Char.toLower ↔
        start <+: a :: others) := fun start hstart => by
    rw [prefix_append_cons, prefix_map_digitChar hstart hall]
    intro hmem
    obtain ⟨d, hd, heq⟩ := List.mem_map.mp hmem
    exact digitChar_ne_colon (hstart d hd) heq
  have hmapped : ¬MappedStart text := fun h => by
    simp only [MappedStart, List.any_cons, List.any_nil, Bool.or_false, Bool.or_eq_true,
      startsWith_iff, hlower] at h
    rcases h with h | h | h | h <;> exact hother _ h
  rw [isPrivateV6_iff, hlower]
  simp only [hnot "::" ⟨_, rfl⟩, hnot "::1" ⟨_, rfl⟩, hmapped, or_false, false_or]
  rw [← hgroup [15, 14, 8, 0] (by decide), ← hgroup [15, 12] (by decide),
    ← hgroup [15, 13] (by decide), ← hgroup [15, 15] (by decide)]
  rfl

/-! ### The start of an address -/

/-- Groups whose text, of four digits, starts as the test asks. -/
def Plain (g : ℕ) : Prop := g = 0xfe80 ∨ g / 256 = 0xfc ∨ g / 256 = 0xfd ∨ g / 256 = 0xff

/-- Groups that have a shorter text that starts so. -/
def Short (g : ℕ) : Prop :=
  (g = 0xfc ∨ g = 0xfd ∨ g = 0xff) ∨ g / 16 = 0xfc ∨ g / 16 = 0xfd ∨ g / 16 = 0xff

theorem starts_iff (hpos : 1 ≤ digits.length) (hle : digits.length ≤ 4) (hall : ∀ d ∈ digits, d < 16) :
    ([15, 14, 8, 0] <+: digits ∨ [15, 12] <+: digits ∨ [15, 13] <+: digits ∨ [15, 15] <+: digits) ↔
      Plain (hexValue digits) ∨ Short (hexValue digits) ∧ digits.head? = some 15 := by
  match digits, hpos, hle with
  | [a], _, _ =>
    have ha : a < 16 := hall a (by simp)
    simp [Plain, Short, hexValue, List.cons_prefix_cons]
    omega
  | [a, b], _, _ =>
    have ha : a < 16 := hall a (by simp)
    have hb : b < 16 := hall b (by simp)
    simp [Plain, Short, hexValue, List.cons_prefix_cons]
    omega
  | [a, b, c], _, _ =>
    have ha : a < 16 := hall a (by simp)
    have hb : b < 16 := hall b (by simp)
    have hc : c < 16 := hall c (by simp)
    simp [Plain, Short, hexValue, List.cons_prefix_cons]
    omega
  | [a, b, c, d], _, _ =>
    have ha : a < 16 := hall a (by simp)
    have hb : b < 16 := hall b (by simp)
    have hc : c < 16 := hall c (by simp)
    have hd : d < 16 := hall d (by simp)
    simp [Plain, Short, hexValue, List.cons_prefix_cons]
    omega

/-- A character that is no letter is in lower case already. -/
theorem eq_of_toLower {c d : Char} (h : c.toLower = d) (hd : d.isLower = false) : c = d := by
  by_cases hupper : c.val ≥ 'A'.val ∧ c.val ≤ 'Z'.val
  · exfalso
    have hval : d.val = c.val + 32 := by
      rw [← h]
      exact congrArg Char.val (dif_pos hupper)
    have hd : (decide (d.val ≥ 'a'.val) && decide (d.val ≤ 'z'.val)) = false := hd
    have hle := UInt32.le_iff_toNat_le.mp hupper.1
    have hle' := UInt32.le_iff_toNat_le.mp hupper.2
    simp [hval, UInt32.le_iff_toNat_le] at hd hle hle'
    omega
  · exact (show c.toLower = c from dif_neg hupper).symm.trans h

theorem eq_of_map_toLower {l l' : List Char} (h : l.map Char.toLower = l')
    (hl' : l'.all (!Char.isLower ·) = true) : l = l' := by
  induction l generalizing l' with
  | nil => exact h
  | cons c l ih =>
    subst h
    obtain ⟨hc, hl⟩ := (Bool.and_eq_true _ _).mp hl'
    exact congrArg₂ List.cons (eq_of_toLower rfl (by simpa using hc)) (ih rfl hl)

theorem lower_eq {name : String} (hname : name.toList.all (!Char.isLower ·) = true)
    (hlower : Text.lower name = name) : Text.lower text = name ↔ text = name := by
  constructor
  · intro h
    have hlist : text.toList.map Char.toLower = name.toList := by
      rw [← h, Text.lower, String.toList_ofList]
    exact String.toList_inj.mp (eq_of_map_toLower hlist hname)
  · rintro rfl
    exact hlower

/-- **A text that starts with a double colon** is private as it stands. -/
theorem isPrivateV6_of_colons {rest : List Char} (htext : text.toList = ':' :: ':' :: rest) :
    isPrivateV6 text = true ↔ text = "::" ∨ text = "::1" ∨ MappedStart text := by
  have hlower : (Text.lower text).toList = ':' :: ':' :: rest.map Char.toLower := by
    rw [Text.lower, String.toList_ofList, htext]
    rfl
  have hnot : ∀ start : List Char, ¬ 'f' :: start <+: (Text.lower text).toList := fun start h => by
    rw [hlower, List.cons_prefix_cons] at h
    exact absurd h.1 (by decide)
  rw [isPrivateV6_iff, lower_eq (by decide) (by decide), lower_eq (by decide) (by decide)]
  have hstarts : ¬("fe80".toList <+: (Text.lower text).toList ∨
      "fc".toList <+: (Text.lower text).toList ∨ "fd".toList <+: (Text.lower text).toList ∨
        "ff".toList <+: (Text.lower text).toList) := by
    rintro (h | h | h | h) <;> exact hnot _ h
  simp only [hstarts, false_or, or_assoc]

/-- What follows a mapped start is the rest of an IPv4 address. -/
theorem dotted_of_start {first second : List Char} (h : parse text = some (.v6 groups))
    (hstart : "::ffff:".toList ++ (first ++ '.' :: second) <+: (Text.lower text).toList)
    (hcolon : ':' ∉ first) (hzone : '%' ∉ first ++ '.' :: second)
    (hlower : (first ++ '.' :: second).all (!Char.isLower ·) = true) :
    ∃ after octets, parseV4 (first ++ '.' :: (second ++ after)) = some octets ∧
      groups = [0, 0, 0, 0, 0, 0xffff] ++ IpAddress.asGroups octets := by
  obtain ⟨address, zone, htext, haddress, hz⟩ :=
    IpAddress.parseZoned_eq_some (IpAddress.parse_eq_v6.mp h)
  have hlist : (Text.lower text).toList =
      address.map Char.toLower ++ zone.map Char.toLower := by
    rw [Text.lower, String.toList_ofList, htext, List.map_append]
  rw [hlist] at hstart
  -- the zone comes after
  have hstarts : "::ffff:".toList ++ (first ++ '.' :: second) <+: address.map Char.toLower := by
    rcases hz with rfl | ⟨rest, rfl⟩
    · simpa using hstart
    · refine (prefix_append_cons (c := '%') fun hmem => ?_).mp hstart
      rcases List.mem_append.mp hmem with hmem | hmem
      · exact absurd hmem (by decide)
      · exact hzone hmem
  obtain ⟨tail, htail⟩ := hstarts
  rw [List.append_assoc] at htail
  obtain ⟨colons, more, rfl, hcolons, hmore⟩ := List.map_eq_append_iff.mp htail.symm
  obtain ⟨dots, after, rfl, hdots, -⟩ := List.map_eq_append_iff.mp hmore
  obtain rfl := eq_of_map_toLower hdots hlower
  -- the characters of `::ffff:`, in either case
  obtain ⟨c₁, colons, rfl, h₁, hcolons⟩ := List.map_eq_cons_iff.mp
    (show colons.map Char.toLower = ':' :: ':' :: (['f', 'f', 'f', 'f'] ++ [':']) from hcolons)
  obtain ⟨c₂, colons, rfl, h₂, hcolons⟩ := List.map_eq_cons_iff.mp hcolons
  obtain ⟨group, last, rfl, hgroup, hlast⟩ := List.map_eq_append_iff.mp hcolons
  obtain rfl := eq_of_toLower h₁ (by decide)
  obtain rfl := eq_of_toLower h₂ (by decide)
  obtain rfl := eq_of_map_toLower hlast (by decide)
  have hgroup' : ':' ∉ group := fun hmem => by
    have := List.mem_map_of_mem (f := Char.toLower) hmem
    rw [hgroup] at this
    exact absurd this (by decide)
  have htail' : ':' :: ':' :: (group ++ [':']) ++ ((first ++ '.' :: second) ++ after) =
      ':' :: ':' :: (group ++ ':' :: (first ++ '.' :: (second ++ after))) := by
    simp
  rw [htail'] at haddress
  obtain ⟨g, octets, hg, hoctets, rfl⟩ := IpAddress.dotted_tail hcolon hgroup' haddress
  refine ⟨after, octets, hoctets, ?_⟩
  obtain ⟨digits, hdigits, -, -, -, rfl⟩ := IpAddress.hexGroup_eq_some hg
  have hffff : digits = [15, 15, 15, 15] := by
    obtain ⟨hmap, hall⟩ := IpAddress.hexDigits_eq_some hdigits
    rw [hgroup] at hmap
    have hstarts := (@prefix_map_digitChar digits [15, 15, 15, 15] (by decide) hall).mp
      (hmap ▸ List.prefix_rfl)
    have hlength := congrArg List.length hmap
    rw [List.length_map] at hlength
    exact (hstarts.eq_of_length hlength.symm).symm
  rw [hffff]
  rfl

theorem octets_of_start {n : ℕ} {rest : List Char} {octets : List ℕ}
    (h : parseV4 (Nat.toDigits 10 n ++ '.' :: rest) = some octets) :
    ∃ b c d, octets = [n, b, c, d] ∧ b < 256 ∧
      rest.splitOn '.' = [Nat.toDigits 10 b, Nat.toDigits 10 c, Nat.toDigits 10 d] := by
  obtain ⟨a, b, c, d, hsplit, -, hb, -, -, rfl⟩ := IpAddress.parseV4_eq_some.mp h
  rw [List.splitOn_append_cons_self_of_not_mem (IpAddress.not_mem_toDigits (by decide))] at hsplit
  obtain ⟨hfirst, hrest⟩ := List.cons.inj hsplit
  obtain rfl := IpAddress.toDigits_inj hfirst
  exact ⟨b, c, d, rfl, hb, hrest⟩

theorem mapped_asGroups {a b c d : ℕ} (hb : b < 256) :
    mapped ([0, 0, 0, 0, 0, 0xffff] ++ IpAddress.asGroups [a, b, c, d]) = some (a, b) := by
  show some ((256 * a + b) / 256, (256 * a + b) % 256) = _
  rw [show (256 * a + b) / 256 = a by omega, show (256 * a + b) % 256 = b by omega]

/-- **A mapped start** is that of a mapped form of such an IPv4 address. -/
theorem mapped_of_start (h : parse text = some (.v6 groups)) (hstart : MappedStart text) :
    ∃ a b, mapped groups = some (a, b) ∧ (a = 127 ∨ a = 10 ∨ a = 172 ∨ a = 192 ∧ b = 168) := by
  simp only [MappedStart, List.any_cons, List.any_nil, Bool.or_false, Bool.or_eq_true,
    startsWith_iff] at hstart
  rcases hstart with hstart | hstart | hstart | hstart
  · obtain ⟨after, octets, hoctets, rfl⟩ := @dotted_of_start text groups ['1', '2', '7'] [] h
      hstart (by decide) (by decide) (by decide)
    obtain ⟨b, c, d, rfl, hb, -⟩ := @octets_of_start 127 _ _ hoctets
    exact ⟨127, b, mapped_asGroups hb, Or.inl rfl⟩
  · obtain ⟨after, octets, hoctets, rfl⟩ := @dotted_of_start text groups ['1', '0'] [] h
      hstart (by decide) (by decide) (by decide)
    obtain ⟨b, c, d, rfl, hb, -⟩ := @octets_of_start 10 _ _ hoctets
    exact ⟨10, b, mapped_asGroups hb, Or.inr (Or.inl rfl)⟩
  · obtain ⟨after, octets, hoctets, rfl⟩ := @dotted_of_start text groups ['1', '9', '2']
      ['1', '6', '8', '.'] h hstart (by decide) (by decide) (by decide)
    obtain ⟨b, c, d, rfl, hb, hrest⟩ := @octets_of_start 192 _ _ hoctets
    have hsplit := List.splitOn_append_cons_self_of_not_mem
      (by decide : '.' ∉ Nat.toDigits 10 168) after
    obtain ⟨hsecond, -⟩ := List.cons.inj (hsplit.symm.trans hrest)
    obtain rfl := IpAddress.toDigits_inj hsecond
    exact ⟨192, 168, mapped_asGroups hb, Or.inr (Or.inr (Or.inr ⟨rfl, rfl⟩))⟩
  · obtain ⟨after, octets, hoctets, rfl⟩ := @dotted_of_start text groups ['1', '7', '2'] [] h
      hstart (by decide) (by decide) (by decide)
    obtain ⟨b, c, d, rfl, hb, -⟩ := @octets_of_start 172 _ _ hoctets
    exact ⟨172, b, mapped_asGroups hb, Or.inr (Or.inr (Or.inl rfl))⟩

/-! ### The texts that slip through -/

/-- A text is tested by its first group, or as it stands. -/
theorem isPrivateV6_cases (h : parse text = some (.v6 groups)) :
    (groups.headD 0 = 0 ∧ (isPrivateV6 text = true ↔
      text = "::" ∨ text = "::1" ∨ MappedStart text)) ∨
    (isPrivateV6 text = true → Plain (groups.headD 0) ∨ Short (groups.headD 0)) ∧
      (Plain (groups.headD 0) → isPrivateV6 text = true) ∧
        text ≠ "::" ∧ text ≠ "::1" ∧ ¬MappedStart text := by
  obtain ⟨address, zone, htext, haddress, -⟩ :=
    IpAddress.parseZoned_eq_some (IpAddress.parse_eq_v6.mp h)
  rcases IpAddress.first_group haddress with ⟨rest, rfl, hhead⟩ | ⟨piece, rest, rfl, g, hg, hhead⟩
  · left
    refine ⟨by rw [List.headD_eq_head?_getD, hhead]; rfl, ?_⟩
    exact isPrivateV6_of_colons htext
  · right
    obtain ⟨digits, hdigits, hlength, hpos, hle, rfl⟩ := IpAddress.hexGroup_eq_some hg
    rw [List.append_assoc, List.cons_append] at htext
    have hne : digits ≠ [] := List.ne_nil_of_length_pos (by omega)
    have hiff := isPrivateV6_of_piece htext hdigits hne
    rw [starts_iff (by omega) (by omega) (IpAddress.hexDigits_eq_some hdigits).2] at hiff
    have hvalue : groups.headD 0 = hexValue digits := by
      rw [List.headD_eq_head?_getD, hhead]
      rfl
    -- the text starts with a digit, and what is tested as it stands with a colon
    have hcolon : ∀ start : List Char, text.toList.map Char.toLower ≠ ':' :: start := by
      intro start heq
      rw [htext, List.map_append, ← (IpAddress.hexDigits_eq_some hdigits).1] at heq
      obtain ⟨d, others, rfl⟩ := List.exists_cons_of_ne_nil hne
      exact digitChar_ne_colon ((IpAddress.hexDigits_eq_some hdigits).2 d List.mem_cons_self)
        (List.cons.inj heq).1
    rw [hvalue]
    refine ⟨fun hprivate => (hiff.mp hprivate).imp_right And.left,
      fun hplain => hiff.mpr (Or.inl hplain), ?_, ?_, fun hmapped => ?_⟩
    · rintro rfl
      exact hcolon _ rfl
    · rintro rfl
      exact hcolon _ rfl
    · simp only [MappedStart, List.any_cons, List.any_nil, Bool.or_false, Bool.or_eq_true,
        startsWith_iff, Text.lower, String.toList_ofList] at hmapped
      rcases hmapped with ⟨rest, h⟩ | ⟨rest, h⟩ | ⟨rest, h⟩ | ⟨rest, h⟩ <;> exact hcolon _ h.symm

theorem mapped_eq_some {o : ℕ × ℕ} (h : mapped groups = some o) :
    ∃ high low, groups = [0, 0, 0, 0, 0, 0xffff, high, low] ∧ o = (high / 256, high % 256) := by
  unfold mapped at h
  split at h
  · exact ⟨_, _, rfl, (Option.some_inj.mp h).symm⟩
  · cases h

theorem headD_of_mapped {o : ℕ × ℕ} (h : mapped groups = some o) : groups.headD 0 = 0 := by
  obtain ⟨high, low, rfl, -⟩ := mapped_eq_some h
  rfl

theorem not_mapped_colons (h : parse text = some (.v6 groups)) (hmapped : MappedStart text) :
    groups ≠ unspecified ∧ groups ≠ loopback := by
  obtain ⟨a, b, hab, -⟩ := mapped_of_start h hmapped
  constructor <;> (rintro rfl; cases hab)

theorem parse_colons : parse "::" = some (.v6 unspecified) ∧ parse "::1" = some (.v6 loopback) := by
  decide

/-- The texts of an address that pass the test though the address is forbidden. -/
def SlipsAs (text : String) (groups : List ℕ) : Prop :=
  (0xfe81 ≤ groups.headD 0 ∧ groups.headD 0 ≤ 0xfebf) ∨
    (groups = unspecified ∧ text ≠ "::") ∨ (groups = loopback ∧ text ≠ "::1") ∨
    ((∃ o ∈ mapped groups, ForbiddenV4 o.1 o.2) ∧ ¬MappedStart text)

/-- The texts that slip through. -/
def Slips (text : String) : Prop := ∃ groups, parse text = some (.v6 groups) ∧ SlipsAs text groups

theorem slipsAs_iff (h : parse text = some (.v6 groups)) :
    SlipsAs text groups ↔ Forbidden (.v6 groups) ∧ isPrivateV6 text = false := by
  rw [← Bool.not_eq_true]
  rcases isPrivateV6_cases h with ⟨hzero, hiff⟩ | ⟨hstart, hplain, hcolons, hone, hmapped⟩
  · -- a text that starts with a double colon: one of two texts, or a mapped start
    have hpass : text ≠ "::" ∧ text ≠ "::1" ∧ ¬MappedStart text ↔ ¬isPrivateV6 text = true := by
      rw [hiff, not_or, not_or]
    rw [← hpass]
    constructor
    · rintro (hrange | ⟨rfl, hne⟩ | ⟨rfl, hne⟩ | ⟨hforbidden, hstart⟩)
      · omega
      · refine ⟨Or.inl rfl, hne, ?_, fun hmapped => (not_mapped_colons h hmapped).1 rfl⟩
        rintro rfl
        exact absurd (h.symm.trans parse_colons.2) (by decide)
      · refine ⟨Or.inr (Or.inl rfl), ?_, hne, fun hmapped => (not_mapped_colons h hmapped).2 rfl⟩
        rintro rfl
        exact absurd (h.symm.trans parse_colons.1) (by decide)
      · refine ⟨Or.inr (Or.inr (Or.inr (Or.inr hforbidden))), ?_, ?_, hstart⟩
        · rintro rfl
          obtain rfl : unspecified = groups := by simpa using parse_colons.1.symm.trans h
          obtain ⟨o, ho, -⟩ := hforbidden
          cases ho
        · rintro rfl
          obtain rfl : loopback = groups := by simpa using parse_colons.2.symm.trans h
          obtain ⟨o, ho, -⟩ := hforbidden
          cases ho
    · rintro ⟨hforbidden, hcolons, hone, hstart⟩
      rcases hforbidden with hzeros | hloop | hlocal | hunique | hforbidden
      · exact Or.inr (Or.inl ⟨hzeros, hcolons⟩)
      · exact Or.inr (Or.inr (Or.inl ⟨hloop, hone⟩))
      · omega
      · omega
      · exact Or.inr (Or.inr (Or.inr ⟨hforbidden, hstart⟩))
  · -- a text that starts with a group, which decides
    constructor
    · intro hslips
      have hfar : ¬(Plain (groups.headD 0) ∨ Short (groups.headD 0)) := by
        rcases hslips with hrange | ⟨rfl, -⟩ | ⟨rfl, -⟩ | ⟨⟨o, ho, -⟩, -⟩
        · unfold Plain Short
          omega
        · simp [Plain, Short, unspecified]
        · simp [Plain, Short, loopback]
        · rw [headD_of_mapped ho]
          simp [Plain, Short]
      refine ⟨?_, fun hprivate => hfar (hstart hprivate)⟩
      rcases hslips with hrange | ⟨hzeros, -⟩ | ⟨hloop, -⟩ | ⟨hforbidden, -⟩
      · exact Or.inr (Or.inr (Or.inl (by omega)))
      · exact Or.inl hzeros
      · exact Or.inr (Or.inl hloop)
      · exact Or.inr (Or.inr (Or.inr (Or.inr hforbidden)))
    · rintro ⟨hforbidden, hpass⟩
      have hnot : ¬Plain (groups.headD 0) := fun h => hpass (hplain h)
      rcases hforbidden with hzeros | hloop | hlocal | hunique | hforbidden
      · exact Or.inr (Or.inl ⟨hzeros, hcolons⟩)
      · exact Or.inr (Or.inr (Or.inl ⟨hloop, hone⟩))
      · unfold Plain at hnot
        exact Or.inl (by omega)
      · unfold Plain at hnot
        omega
      · exact Or.inr (Or.inr (Or.inr ⟨hforbidden, hmapped⟩))

section

variable {parseUrl : String → Option Url} {lookup : String → Option (List String)}
  {rawUrl : String} {allow : Bool} {url : Url}

theorem isPrivateAddress_v6 (h : parse text = some (.v6 groups)) :
    isPrivateAddress (platform parseUrl lookup) text = isPrivateV6 text := by
  simp [isPrivateAddress, platform, IpAddress.isIP, h]

/-- **What slips through** is exactly what passes the test and denotes a forbidden address. -/
theorem slips_iff : Slips text ↔ (∃ a, parse text = some a ∧ Forbidden a) ∧
    isPrivateAddress (platform parseUrl lookup) text = false := by
  constructor
  · rintro ⟨groups, h, hslips⟩
    obtain ⟨hforbidden, hpass⟩ := (slipsAs_iff h).mp hslips
    exact ⟨⟨_, h, hforbidden⟩, (isPrivateAddress_v6 h).trans hpass⟩
  · rintro ⟨⟨a, h, hforbidden⟩, hpass⟩
    cases a with
    | v4 octets =>
      have hv4 : isPrivateAddress (platform parseUrl lookup) text = isPrivateV4 text := by
        simp [isPrivateAddress, platform, IpAddress.isIP, h]
      have hprivate := (isPrivateV4_iff (IpAddress.parse_eq_v4.mp h)).mpr (Or.inl hforbidden)
      rw [hv4, hprivate] at hpass
      cases hpass
    | v6 groups =>
      exact ⟨groups, h, (slipsAs_iff h).mpr ⟨hforbidden, (isPrivateAddress_v6 h) ▸ hpass⟩⟩

/-! ### The guard -/

/-- What is asked of a URL before its host is looked at. -/
def Admitted (allowInsecureLoopback : Bool) (url : Url) : Prop :=
  (url.protocol = "https:" ∨
      allowInsecureLoopback ∧ url.hostname ∈ ["localhost", "127.0.0.1", "[::1]"]) ∧
    url.username = "" ∧ url.password = ""

/-- A check that throws is passed. -/
theorem passes_iff {β : Type} {c : Prop} [Decidable c] {error : AppError} {k : β → Except AppError Url}
    {rest : Except AppError Url} :
    (if c then ((throw error : Except AppError β) >>= k) else rest) = .ok url ↔
      ¬c ∧ rest = .ok url := by
  by_cases hc : c
  · rw [if_pos hc]
    exact iff_of_false (fun h => by cases h) fun h => h.1 hc
  · rw [if_neg hc]
    exact ⟨fun h => ⟨hc, h⟩, And.right⟩

theorem pure_iff {url' : Url} : (pure url' : Except AppError Url) = .ok url ↔ url' = url :=
  ⟨fun h => Except.ok.inj h, fun h => h ▸ rfl⟩

/-- **The guard**, as what it asks of a URL. -/
theorem assertSafeWebhookUrl_eq_ok {p : Platform} :
    assertSafeWebhookUrl p rawUrl allow = .ok url ↔ p.parseUrl rawUrl = some url ∧
      Admitted allow url ∧
      ((p.isIP url.hostname ≠ 0 ∧
          (isPrivateAddress p url.hostname = true → Spared allow url)) ∨
        (p.isIP url.hostname = 0 ∧ ∃ answers, p.lookup url.hostname = some answers ∧
          ∀ text ∈ answers, isPrivateAddress p text = true → Spared allow url)) := by
  cases hparse : p.parseUrl rawUrl with
  | none =>
    rw [assertSafeWebhookUrl, hparse]
    exact iff_of_false (fun h => by cases h) (by simp)
  | some url' =>
    -- the check of an address, a literal or an answer of the resolver
    have hcheck : ∀ text, (isPrivateAddress p text && !(allow &&
        decide (url'.hostname ∈ ["localhost", "127.0.0.1", "[::1]"]) &&
          decide (url'.protocol = "http:"))) = true ↔
        ¬(isPrivateAddress p text = true → Spared allow url') := fun text => by
      have hspared : (allow && decide (url'.hostname ∈ ["localhost", "127.0.0.1", "[::1]"]) &&
          decide (url'.protocol = "http:")) = true ↔ Spared allow url' := by
        simp [Spared, and_assoc]
      rw [Classical.not_imp, ← hspared, Bool.and_eq_true, Bool.not_eq_true', Bool.not_eq_true]
    have hadmitted : (¬(url'.protocol ≠ "https:" ∧
        ¬(allow && decide (url'.hostname ∈ ["localhost", "127.0.0.1", "[::1]"])) = true) ∧
          ¬(url'.username ≠ "" ∨ url'.password ≠ "")) ↔ Admitted allow url' := by
      simp only [Admitted, Bool.and_eq_true, decide_eq_true_eq]
      tauto
    rw [assertSafeWebhookUrl, hparse]
    show (if _ then _ else _) = _ ↔ _
    rw [passes_iff, passes_iff, ← and_assoc, hadmitted]
    -- a name is resolved; an address is checked as it stands
    by_cases hip : p.isIP url'.hostname = 0
    · rw [if_neg (not_not.mpr hip)]
      cases hlookup : p.lookup url'.hostname with
      | none =>
        refine iff_of_false (fun h => by cases h.2) ?_
        rintro ⟨heq, -, ⟨hne, -⟩ | ⟨-, answers, hanswers, -⟩⟩
        · exact hne (Option.some_inj.mp heq ▸ hip)
        · rw [← Option.some_inj.mp heq, hlookup] at hanswers
          cases hanswers
      | some answers =>
        show _ ∧ (if _ then _ else _) = _ ↔ _
        rw [passes_iff, pure_iff, List.any_eq_true]
        simp only [hcheck, not_exists, not_and, not_not]
        constructor
        · rintro ⟨hurl, hall, rfl⟩
          exact ⟨rfl, hurl, Or.inr ⟨hip, answers, hlookup, hall⟩⟩
        · rintro ⟨heq, hurl, ⟨hne, -⟩ | ⟨-, others, hothers, hall⟩⟩
          · exact absurd (Option.some_inj.mp heq ▸ hip) hne
          · obtain rfl := Option.some_inj.mp heq
            obtain rfl := Option.some_inj.mp (hlookup.symm.trans hothers)
            exact ⟨hurl, hall, rfl⟩
    · rw [if_pos hip]
      show _ ∧ (if _ then _ else _) = _ ↔ _
      rw [passes_iff, pure_iff, hcheck, not_not]
      constructor
      · rintro ⟨hurl, hpass, rfl⟩
        exact ⟨rfl, hurl, Or.inl ⟨hip, hpass⟩⟩
      · rintro ⟨heq, hurl, ⟨-, hpass⟩ | ⟨hzero, -⟩⟩
        · obtain rfl := Option.some_inj.mp heq
          exact ⟨hurl, hpass, rfl⟩
        · exact absurd (Option.some_inj.mp heq ▸ hzero) hip

/-- The condition: nothing that the URL stands for slips through. -/
def Tight (p : Platform) (rawUrl : String) (allowInsecureLoopback : Bool) : Prop :=
  ∀ url, p.parseUrl rawUrl = some url → Admitted allowInsecureLoopback url →
    ¬Spared allowInsecureLoopback url →
      (p.isIP url.hostname ≠ 0 → ¬Slips url.hostname) ∧
      (p.isIP url.hostname = 0 → ∀ answers, p.lookup url.hostname = some answers →
        (∃ text ∈ answers, isPrivateAddress p text = true) ∨
          ((∀ a ∈ literal url.hostname, ¬Forbidden a) ∧ ∀ text ∈ answers, ¬Slips text))

theorem literal_of_parse {hostname : String} {a : Address} (h : parse hostname = some a) :
    literal hostname = some a := by
  rw [literal, h]
  rfl

theorem guarded_iff_tight : Guarded (platform parseUrl lookup) rawUrl allow ↔
    Tight (platform parseUrl lookup) rawUrl allow := by
  constructor
  · intro hguarded url hparse hurl hspared
    refine ⟨fun hip hslips => ?_, fun hip answers hanswers => ?_⟩
    · obtain ⟨⟨a, ha, hforbidden⟩, hpass⟩ := (@slips_iff _ parseUrl lookup).mp hslips
      have hok := assertSafeWebhookUrl_eq_ok.mpr ⟨hparse, hurl,
        Or.inl ⟨hip, fun hprivate => nomatch hprivate.symm.trans hpass⟩⟩
      exact hguarded url hok hspared a (Or.inl (literal_of_parse ha)) hforbidden
    · -- one private answer is enough to refuse the URL
      by_cases hcaught : ∃ text ∈ answers,
          isPrivateAddress (platform parseUrl lookup) text = true
      · exact Or.inl hcaught
      · have hpass : ∀ text ∈ answers,
            ¬isPrivateAddress (platform parseUrl lookup) text = true := fun text htext h =>
          hcaught ⟨text, htext, h⟩
        have hok := assertSafeWebhookUrl_eq_ok.mpr ⟨hparse, hurl,
          Or.inr ⟨hip, answers, hanswers, fun text htext h => absurd h (hpass text htext)⟩⟩
        refine Or.inr ⟨fun a ha => hguarded url hok hspared a (Or.inl ha),
          fun text htext hslips => ?_⟩
        obtain ⟨⟨a, ha, hforbidden⟩, -⟩ := (@slips_iff _ parseUrl lookup).mp hslips
        exact hguarded url hok hspared a (Or.inr ⟨hip, answers, hanswers, text, htext, ha⟩)
          hforbidden
  · intro htight url hok hspared a hdenoted hforbidden
    obtain ⟨hparse, hurl, hcases⟩ := assertSafeWebhookUrl_eq_ok.mp hok
    obtain ⟨hliteral, hresolved⟩ := htight url hparse hurl hspared
    rcases hcases with ⟨hip, hpass⟩ | ⟨hip, answers, hanswers, hpass⟩
    · have hnone : IpAddress.isIP url.hostname ≠ 0 := hip
      obtain ⟨b, hb⟩ := Option.ne_none_iff_exists'.mp (mt IpAddress.isIP_eq_zero.mpr hnone)
      rcases hdenoted with ha | ⟨hzero, -⟩
      · obtain rfl := Option.some_inj.mp (ha.symm.trans (literal_of_parse hb))
        exact hliteral hip
          (slips_iff.mpr ⟨⟨a, hb, hforbidden⟩, eq_false_of_ne_true fun h => hspared (hpass h)⟩)
      · exact hip hzero
    · have hpass : ∀ text ∈ answers,
          ¬isPrivateAddress (platform parseUrl lookup) text = true := fun text htext h =>
        hspared (hpass text htext h)
      rcases hresolved hip answers hanswers with ⟨text, htext, hprivate⟩ | ⟨hnone, hslips⟩
      · exact hpass text htext hprivate
      · rcases hdenoted with ha | ⟨-, others, hothers, text, htext, ha⟩
        · exact hnone a ha hforbidden
        · obtain rfl := Option.some_inj.mp (hanswers.symm.trans hothers)
          exact hslips text htext
            (slips_iff.mpr ⟨⟨a, ha, hforbidden⟩, eq_false_of_ne_true (hpass text htext)⟩)

/-! ### Other texts of an address -/

/-- An IPv6 address. -/
structure V6 where
  groups : List ℕ
  eight : groups.length = 8
  bounded : ∀ g ∈ groups, g < 65536

/-- All texts of an address have one verdict. -/
def SameVerdict (p : Platform) (groups : List ℕ) : Prop :=
  ∀ text text', parse text = some (.v6 groups) → parse text' = some (.v6 groups) →
    isPrivateAddress p text = isPrivateAddress p text'

/-- The addresses of which some texts pass the test and some do not. -/
def Ambiguous (groups : List ℕ) : Prop :=
  groups = unspecified ∨ groups = loopback ∨ Short (groups.headD 0) ∨
    ∃ o ∈ mapped groups, o.1 = 127 ∨ o.1 = 10 ∨ o.1 = 172 ∨ o.1 = 192 ∧ o.2 = 168

/-- The other addresses are tested by their first group. -/
theorem isPrivateV6_iff_plain (h : parse text = some (.v6 groups)) (hsure : ¬Ambiguous groups) :
    isPrivateV6 text = true ↔ Plain (groups.headD 0) := by
  simp only [Ambiguous, not_or] at hsure
  obtain ⟨hzeros, hloop, hshort, hfour⟩ := hsure
  rcases isPrivateV6_cases h with ⟨hzero, hiff⟩ | ⟨hstart, hplain, -⟩
  · rw [hiff, hzero]
    refine iff_of_false ?_ (by simp [Plain])
    rintro (rfl | rfl | hmapped)
    · exact hzeros (by simpa using h.symm.trans parse_colons.1)
    · exact hloop (by simpa using h.symm.trans parse_colons.2)
    · obtain ⟨a, b, hab, hfirst⟩ := mapped_of_start h hmapped
      exact hfour ⟨(a, b), hab, hfirst⟩
  · exact ⟨fun hprivate => (hstart hprivate).resolve_right hshort, hplain⟩

/-- A text that spells out each group, given the spelling. -/
def spelled (spell : ℕ → List ℕ) (groups : List ℕ) : String :=
  String.ofList ([':'].intercalate (groups.map fun g => (spell g).map Nat.digitChar))

/-- A way to spell groups: one to four digits, of the group's value. -/
def Spells (spell : ℕ → List ℕ) (g : ℕ) : Prop :=
  (1 ≤ (spell g).length ∧ (spell g).length ≤ 4) ∧ (∀ d ∈ spell g, d < 16) ∧ hexValue (spell g) = g

theorem parse_spelled {spell : ℕ → List ℕ} (a : V6) (hspell : ∀ g ∈ a.groups, Spells spell g) :
    parse (spelled spell a.groups) = some (.v6 a.groups) := by
  have hgroups : ∀ gs : List ℕ, (∀ g ∈ gs, Spells spell g) →
      IpAddress.hexGroups (gs.map fun g => (spell g).map Nat.digitChar) = some gs := by
    intro gs hgs
    induction gs with
    | nil => rfl
    | cons g gs ih =>
      obtain ⟨⟨⟨hpos, hle⟩, hall, hvalue⟩, hgs⟩ := List.forall_mem_cons.mp hgs
      rw [List.map_cons, IpAddress.hexGroups, IpAddress.hexGroup_digits hall hpos hle, ih hgs, hvalue]
      rfl
  refine IpAddress.parse_eq_v6.mpr ?_
  rw [spelled, String.toList_ofList]
  exact IpAddress.parseZoned_intercalate (hgroups _ hspell) (by rw [List.length_map, a.eight])

/-- **A text that spells out each group** is private by the first. -/
theorem isPrivateV6_spelled {spell : ℕ → List ℕ} (a : V6)
    (hspell : ∀ g ∈ a.groups, Spells spell g) :
    isPrivateV6 (spelled spell a.groups) = true ↔ Plain (a.groups.headD 0) ∨
      Short (a.groups.headD 0) ∧ (spell (a.groups.headD 0)).head? = some 15 := by
  obtain ⟨groups, height, hbounded⟩ := a
  match groups, height with
  | g :: g' :: groups, _ =>
    obtain ⟨⟨hpos, hle⟩, hall, hvalue⟩ := hspell g List.mem_cons_self
    have htext : (spelled spell (g :: g' :: groups)).toList =
        (spell g).map Nat.digitChar ++ ':' ::
          [':'].intercalate ((g' :: groups).map fun g => (spell g).map Nat.digitChar) := by
      rw [spelled, String.toList_ofList, List.map_cons,
        List.intercalate_cons_of_ne_nil (by simp)]
      simp
    rw [isPrivateV6_of_piece htext (IpAddress.hexDigits_digits hall)
      (List.ne_nil_of_length_pos hpos), starts_iff hpos hle hall, hvalue]
    rfl

/-- Four digits for each group. -/
def padded (g : ℕ) : List ℕ := [g / 4096, g / 256 % 16, g / 16 % 16, g % 16]

/-- Two or three digits for small groups. -/
def trimmed (g : ℕ) : List ℕ :=
  if g < 256 then [g / 16, g % 16] else if g < 4096 then [g / 256, g / 16 % 16, g % 16]
  else padded g

theorem spells_padded {g : ℕ} (h : g < 65536) : Spells padded g := by
  refine ⟨⟨by simp [padded], by simp [padded]⟩, ?_, ?_⟩
  · simp [padded]
    omega
  · simp [padded, hexValue]
    omega

theorem spells_trimmed {g : ℕ} (h : g < 65536) : Spells trimmed g := by
  unfold Spells trimmed
  split
  · refine ⟨by simp, ?_, ?_⟩
    · simp
      omega
    · simp [hexValue]
      omega
  · split
    · refine ⟨by simp, ?_, ?_⟩
      · simp
        omega
      · simp [hexValue]
        omega
    · exact spells_padded h

theorem not_plain_of_ambiguous (h : Ambiguous groups) : ¬Plain (groups.headD 0) := by
  rcases h with rfl | rfl | hshort | ⟨o, ho, -⟩
  · simp [Plain, unspecified]
  · simp [Plain, loopback]
  · unfold Plain
    unfold Short at hshort
    omega
  · rw [headD_of_mapped ho]
    simp [Plain]

/-- **The padded text** of an ambiguous address passes. -/
theorem padded_passes (a : V6) (h : Ambiguous a.groups) :
    isPrivateV6 (spelled padded a.groups) = false := by
  rw [← Bool.not_eq_true, isPrivateV6_spelled a fun g hg => spells_padded (a.bounded g hg)]
  rintro (hplain | ⟨hshort, hhead⟩)
  · exact not_plain_of_ambiguous h hplain
  · unfold Short at hshort
    simp only [padded, List.head?_cons, Option.some_inj] at hhead
    omega

theorem mappedStart_dotted {a b c d : ℕ} (h : a = 127 ∨ a = 10 ∨ a = 172 ∨ a = 192 ∧ b = 168) :
    MappedStart (String.ofList ("::ffff:".toList ++ IpAddress.dotted [a, b, c, d])) := by
  have hstart : ∀ start rest : List Char, start.map Char.toLower = start →
      String.ofList start ∈ ["::ffff:127.", "::ffff:10.", "::ffff:192.168.", "::ffff:172."] →
      MappedStart (String.ofList (start ++ rest)) := fun start rest hlower hmem => by
    refine List.any_eq_true.mpr ⟨_, hmem, startsWith_iff.mpr ⟨rest.map Char.toLower, ?_⟩⟩
    rw [Text.lower, String.toList_ofList, String.toList_ofList, String.toList_ofList,
      List.map_append, hlower]
  rw [IpAddress.dotted_eq]
  rcases h with rfl | rfl | rfl | ⟨rfl, rfl⟩
  · exact hstart "::ffff:127.".toList _ (by decide) (by decide)
  · exact hstart "::ffff:10.".toList _ (by decide) (by decide)
  · exact hstart "::ffff:172.".toList _ (by decide) (by decide)
  · exact hstart "::ffff:192.168.".toList _ (by decide) (by decide)

/-- **Another text** of an ambiguous address does not. -/
theorem exists_caught (a : V6) (h : Ambiguous a.groups) :
    ∃ text, parse text = some (.v6 a.groups) ∧ isPrivateV6 text = true := by
  rcases h with hzeros | hloop | hshort | ⟨⟨first, second⟩, ho, hfirst⟩
  · exact ⟨"::", hzeros ▸ parse_colons.1, by decide⟩
  · exact ⟨"::1", hloop ▸ parse_colons.2, by decide⟩
  · have hspell : ∀ g ∈ a.groups, Spells trimmed g := fun g hg => spells_trimmed (a.bounded g hg)
    refine ⟨spelled trimmed a.groups, parse_spelled a hspell,
      (isPrivateV6_spelled a hspell).mpr (Or.inr ⟨hshort, ?_⟩)⟩
    unfold Short at hshort
    unfold trimmed
    split
    · simp only [List.head?_cons, Option.some_inj]
      omega
    · rw [if_pos (by omega)]
      simp only [List.head?_cons, Option.some_inj]
      omega
  · obtain ⟨high, low, hgroups, hoctets⟩ := mapped_eq_some ho
    obtain ⟨rfl, rfl⟩ := Prod.mk.inj hoctets
    have hhigh : high < 65536 := a.bounded high (by simp [hgroups])
    have hlow : low < 65536 := a.bounded low (by simp [hgroups])
    -- the last two groups written as an IPv4 address
    have hparse := @IpAddress.parseZoned_dotted 0xffff ['f', 'f', 'f', 'f'] (high / 256)
      (high % 256) (low / 256) (low % 256) (by decide) (by omega) (by omega) (by omega) (by omega)
    rw [Nat.div_add_mod, Nat.div_add_mod, ← hgroups] at hparse
    refine ⟨_, IpAddress.parse_eq_v6.mpr ?_,
      isPrivateV6_iff.mpr (Or.inr (Or.inr (@mappedStart_dotted _ _ (low / 256) (low % 256) hfirst)))⟩
    rw [String.toList_ofList]
    exact hparse

/-- **One verdict.** -/
theorem sameVerdict_iff (a : V6) :
    SameVerdict (platform parseUrl lookup) a.groups ↔ ¬Ambiguous a.groups := by
  constructor
  · intro hsame hambiguous
    obtain ⟨text, htext, hcaught⟩ := exists_caught a hambiguous
    have hpadded := parse_spelled a fun g hg => spells_padded (a.bounded g hg)
    have heq := hsame _ _ htext hpadded
    rw [isPrivateAddress_v6 htext, isPrivateAddress_v6 hpadded, hcaught,
      padded_passes a hambiguous] at heq
    cases heq
  · intro hsure text text' htext htext'
    rw [isPrivateAddress_v6 htext, isPrivateAddress_v6 htext', Bool.eq_iff_iff,
      isPrivateV6_iff_plain htext hsure, isPrivateV6_iff_plain htext' hsure]

end

/-! ### The guard's promise -/

/-- **The guard of outbound URLs.**  It keeps its promise for a URL exactly when nothing that the
URL stands for slips through; and the verdict is that of the address, whatever its text, exactly
for the addresses that are not ambiguous. -/
theorem guarded_iff (parseUrl : String → Option Url) (lookup : String → Option (List String)) :
    (∀ rawUrl allowInsecureLoopback,
      Guarded (platform parseUrl lookup) rawUrl allowInsecureLoopback ↔
        Tight (platform parseUrl lookup) rawUrl allowInsecureLoopback) ∧
    ∀ a : V6, SameVerdict (platform parseUrl lookup) a.groups ↔ ¬Ambiguous a.groups :=
  ⟨fun _ _ => guarded_iff_tight, sameVerdict_iff⟩

/-- A host whose one address is the mapped form of a link-local one, as resolvers write it. -/
def mappedHost : Platform :=
  platform (fun rawUrl => if rawUrl = "https://hooks.example/" then
    some ⟨"https:", "", "", "hooks.example"⟩ else none)
    fun hostname => if hostname = "hooks.example" then some ["::ffff:169.254.169.254"] else none

/-- That host is let through, and loopback passes when its zeros are written out. -/
theorem mapped_link_local :
    ¬Guarded mappedHost "https://hooks.example/" false ∧ ¬SameVerdict mappedHost loopback := by
  constructor
  · intro hguarded
    have hok : assertSafeWebhookUrl mappedHost "https://hooks.example/" false =
        .ok ⟨"https:", "", "", "hooks.example"⟩ := by
      have hpass : isPrivateAddress mappedHost "::ffff:169.254.169.254" = false := by
        decide
      refine assertSafeWebhookUrl_eq_ok.mpr ⟨rfl, ⟨Or.inl rfl, rfl, rfl⟩, Or.inr
        ⟨by decide, _, rfl, fun text htext => ?_⟩⟩
      rw [List.mem_singleton.mp htext, hpass]
      exact fun h => nomatch h
    have hparse : parse "::ffff:169.254.169.254" =
        some (.v6 [0, 0, 0, 0, 0, 0xffff, 0xa9fe, 0xa9fe]) := by decide
    refine hguarded _ hok (fun h => nomatch h.1) _
      (Or.inr ⟨by decide, _, rfl, _, List.mem_cons_self, hparse⟩) ?_
    exact Or.inr (Or.inr (Or.inr (Or.inr ⟨(169, 254), rfl, by decide⟩)))
  · intro hsame
    have hverdicts := hsame "::1" "0:0:0:0:0:0:0:1" (by decide) (by decide)
    exact absurd hverdicts (by decide)

end Notifications
