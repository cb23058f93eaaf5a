/-
What is taken out of a value before it is logged (`packages/secrets/src/index.ts`).

* `secretUrl`, `telegramBotPath`, `redactUrl` — the two patterns, and the strings without them;
* `Json`, `redactDeep` — values of any depth, with what a sensitive key has replaced;
* `Json.Sound`, `Json.Keeps` — no secret is left; nothing else is changed;
* `redactDeep_sound`, `redactDeep_redactDeep` — of every value;
* `redactDeep_iff` — all that is asked, which holds just of the values in which no object that is
  walked through has a key `__proto__`: an assignment to that key adds no entry; `proto_lost`.
-/
import HoodMint.Lib.Redact
import HoodMint.Lib.Utf16

namespace Secrets

open Utf16 Redact

/-! ### Strings -/

/-- Case as the flag `i` ignores it. -/
def foldAscii (u : UInt16) : UInt16 := if 65 ≤ u ∧ u ≤ 90 then u + 32 else u

theorem foldAscii_eq_iff {u c : UInt16} (hc : c < 65) : foldAscii u = c ↔ u = c := by
  rw [foldAscii]
  split
  · next hupper =>
    obtain ⟨hle, hge⟩ := hupper
    rw [UInt16.lt_iff_toNat_lt] at hc
    rw [UInt16.le_iff_toNat_le] at hle hge
    rw [← UInt16.toNat_inj, ← UInt16.toNat_inj, UInt16.toNat_add]
    simp at hc hle hge ⊢
    omega
  · exact Iff.rfl

/-- `[REDACTED]` -/
def redacted : JsString := ofText "[REDACTED]"

/-- The parameters of `SECRET_URL_PATTERN`. -/
def secretNames : List JsString :=
  ["key", "token", "apikey", "api_key", "access_token", "subjecttoken", "secret", "sig",
    "signature", "password", "pass"].map ofText

/-- `[?&](?:…)=` -/
def secretGroups : List JsString :=
  [63, 38].flatMap fun start => secretNames.map fun name => start :: (name ++ [61])

def startsParameter (u : UInt16) : Bool := u = 63 ∨ u = 38

def endsParameter (u : UInt16) : Bool := u = 38 ∨ isSpace u

/-- `/bot` -/
def botGroup : JsString := ofText "/bot"

def startsPath (u : UInt16) : Bool := u = 47

def endsPath (u : UInt16) : Bool := u = 47 ∨ u = 63 ∨ isSpace u

theorem startsParameter_fold (u : UInt16) : startsParameter (foldAscii u) = startsParameter u := by
  rw [startsParameter, startsParameter, decide_eq_decide, foldAscii_eq_iff (by decide),
    foldAscii_eq_iff (by decide)]

theorem startsPath_fold (u : UInt16) : startsPath (foldAscii u) = startsPath u := by
  rw [startsPath, startsPath, decide_eq_decide, foldAscii_eq_iff (by decide)]

theorem secretGroups_eq : ∀ g ∈ secretGroups, ∃ a body, g = a :: body ∧ startsParameter a = true ∧
    ∀ b ∈ body, startsParameter b = false := by
  have hall : ∀ g ∈ secretGroups, g ≠ [] ∧ (g.take 1).all startsParameter = true ∧
      (g.drop 1).all (fun b => !startsParameter b) = true := by decide
  intro g hg
  obtain ⟨hne, hhead, hbody⟩ := hall g hg
  obtain ⟨a, body, rfl⟩ := List.exists_cons_of_ne_nil hne
  refine ⟨a, body, rfl, by simpa using hhead, fun b hb => ?_⟩
  simpa using List.all_eq_true.mp hbody b hb

theorem secretGroups_unique : ∀ g ∈ secretGroups, ∀ g' ∈ secretGroups, g <+: g' → g = g' := by
  decide

theorem botGroup_eq : ∀ g ∈ [botGroup], ∃ a body, g = a :: body ∧ startsPath a = true ∧
    ∀ b ∈ body, startsPath b = false := by
  intro g hg
  rw [List.mem_singleton.mp hg]
  have hall : ((ofText "bot").all fun b => !startsPath b) = true := by decide
  refine ⟨47, ofText "bot", by decide, by decide, fun b hb => ?_⟩
  exact (Bool.not_eq_true' _).mp (List.all_eq_true.mp hall b hb)

theorem botGroup_unique : ∀ g ∈ [botGroup], ∀ g' ∈ [botGroup], g <+: g' → g = g' := by
  intro g hg g' hg' _
  rw [List.mem_singleton.mp hg, List.mem_singleton.mp hg']

theorem redacted_ne_nil : redacted ≠ [] := by decide

theorem redacted_letters : ∀ u ∈ redacted, startsParameter u = false ∧ endsParameter u = false ∧
    startsPath u = false ∧ endsPath u = false := by
  intro u hu
  have hall : (redacted.all fun u => !startsParameter u && !endsParameter u && !startsPath u &&
      !endsPath u) = true := by decide
  have h := List.all_eq_true.mp hall u hu
  simp only [Bool.and_eq_true, Bool.not_eq_true'] at h
  exact ⟨h.1.1.1, h.1.1.2, h.1.2, h.2⟩

/-- `SECRET_URL_PATTERN` -/
def secretUrl : Pattern UInt16 where
  fold := foldAscii
  head := startsParameter
  groups := secretGroups
  stop := endsParameter
  mark := redacted
  head_fold := startsParameter_fold
  group_eq := secretGroups_eq
  group_unique := secretGroups_unique
  mark_ne_nil := redacted_ne_nil
  mark_head u hu := (redacted_letters u hu).1
  mark_stop u hu := (redacted_letters u hu).2.1

/-- `TELEGRAM_BOT_PATH_PATTERN` -/
def telegramBotPath : Pattern UInt16 where
  fold := foldAscii
  head := startsPath
  groups := [botGroup]
  stop := endsPath
  mark := redacted
  head_fold := startsPath_fold
  group_eq := botGroup_eq
  group_unique := botGroup_unique
  mark_ne_nil := redacted_ne_nil
  mark_head u hu := (redacted_letters u hu).2.2.1
  mark_stop u hu := (redacted_letters u hu).2.2.2

/-- `redactUrl`. -/
def redactUrl (url : JsString) : JsString := telegramBotPath.replace (secretUrl.replace url)

theorem secretUrl_apart : secretUrl.Apart telegramBotPath where
  groups := by
    have hall : ∀ g ∈ secretGroups, g.all (fun b => !startsPath b) = true := by decide
    intro g hg b hb
    have hfalse : (!startsPath b) = true := List.all_eq_true.mp (hall g hg) b hb
    exact (Bool.not_eq_true' _).mp hfalse
  mark u hu := (redacted_letters u hu).2.2.1
  fold := startsPath_fold

theorem telegramBotPath_apart : telegramBotPath.Apart secretUrl where
  groups g hg b hb := by
    rw [List.mem_singleton.mp hg] at hb
    have hall : (botGroup.all fun b => !startsParameter b) = true := by decide
    exact (Bool.not_eq_true' _).mp (List.all_eq_true.mp hall b hb)
  mark u hu := (redacted_letters u hu).1
  fold := startsParameter_fold

/-- No secret is left in the string. -/
def Redacted (s : JsString) : Prop := secretUrl.Clean s ∧ telegramBotPath.Clean s

/-- Neither pattern matches anywhere in the string. -/
def Plain (s : JsString) : Prop := secretUrl.Free s ∧ telegramBotPath.Free s

theorem Redacted.redactUrl_eq {s : JsString} (h : Redacted s) : redactUrl s = s := by
  rw [redactUrl, h.1.replace_eq, h.2.replace_eq]

/-- **A string without its secrets**: the second pattern puts back none of the first. -/
theorem redactUrl_redacted (url : JsString) : Redacted (redactUrl url) :=
  ⟨(telegramBotPath.replaces _).clean_of_clean secretUrl_apart telegramBotPath_apart
    (secretUrl.clean_replace url), telegramBotPath.clean_replace _⟩

theorem Plain.redactUrl_eq {s : JsString} (h : Plain s) : redactUrl s = s :=
  Redacted.redactUrl_eq ⟨h.1.clean, h.2.clean⟩

/-! ### Values -/

/-- JSON values; an object is its entries, with distinct keys, as `Object.entries` lists them. -/
inductive Json
  | null
  | bool (b : Bool)
  | num (literal : String)
  | str (s : JsString)
  | arr (values : List Json)
  | obj (entries : List (JsString × Json))

/-- What holds of a value when it holds of the values in it holds of all. -/
theorem Json.induction_mem {motive : Json → Prop} (null : motive .null)
    (bool : ∀ b, motive (.bool b)) (num : ∀ literal, motive (.num literal))
    (str : ∀ s, motive (.str s)) (arr : ∀ values, (∀ v ∈ values, motive v) → motive (.arr values))
    (obj : ∀ entries : List (JsString × Json), (∀ e ∈ entries, motive e.2) → motive (.obj entries))
    (v : Json) : motive v := by
  refine Json.rec (motive_1 := motive) (motive_2 := fun values => ∀ v ∈ values, motive v)
    (motive_3 := fun entries => ∀ e ∈ entries, motive e.2) (motive_4 := fun e => motive e.2)
    null bool num str arr obj ?_ ?_ ?_ ?_ (fun _ _ h => h) v
  · exact fun v hv => absurd hv List.not_mem_nil
  · intro v values hv hvalues w hw
    rcases List.mem_cons.mp hw with rfl | hw
    · exact hv
    · exact hvalues w hw
  · exact fun e he => absurd he List.not_mem_nil
  · intro e entries he hentries f hf
    rcases List.mem_cons.mp hf with rfl | hf
    · exact he
    · exact hentries f hf

/-- `SENSITIVE_HEADERS` -/
def sensitiveHeaders : List JsString :=
  ["authorization", "cookie", "set-cookie", "x-api-key", "x-apikey", "api-key", "apikey",
    "x-auth-token", "x-wallet-jwt", "proxy-authorization", "privatekey", "sessionkey",
    "session_key"].map ofText

/-- `toLowerCase`, as far as it makes ASCII letters: of these and of the Kelvin sign. -/
def lowerUnit (u : UInt16) : UInt16 := if u = 0x212a then 107 else foldAscii u

/-- `SENSITIVE_HEADERS.has(key.toLowerCase())` -/
def isSensitive (key : JsString) : Bool := key.map lowerUnit ∈ sensitiveHeaders

def proto : JsString := ofText "__proto__"

mutual

/-- `redactDeep`. -/
def redactDeep : Json → Json
  | .str s => .str (redactUrl s)
  | .arr values => .arr (redactItems values)
  | .obj entries => .obj (redactEntries entries)
  | .null => .null
  | .bool b => .bool b
  | .num literal => .num literal

def redactItems : List Json → List Json
  | [] => []
  | v :: values => redactDeep v :: redactItems values

/-- The entries that the assignments make; one to `__proto__` sets the prototype. -/
def redactEntries : List (JsString × Json) → List (JsString × Json)
  | [] => []
  | (key, val) :: entries =>
    if key = proto then redactEntries entries
    else (key, if isSensitive key then .str redacted else redactDeep val) :: redactEntries entries

end

theorem redactItems_eq (values : List Json) : redactItems values = values.map redactDeep := by
  induction values with
  | nil => rw [redactItems, List.map_nil]
  | cons v values ih => rw [redactItems, ih, List.map_cons]

/-- What an entry becomes. -/
def redactEntry (e : JsString × Json) : JsString × Json :=
  (e.1, if isSensitive e.1 then .str redacted else redactDeep e.2)

theorem redactEntries_eq (entries : List (JsString × Json)) :
    redactEntries entries = (entries.filter fun e => e.1 ≠ proto).map redactEntry := by
  induction entries with
  | nil => rw [redactEntries, List.filter_nil, List.map_nil]
  | cons e entries ih =>
    obtain ⟨key, val⟩ := e
    rw [redactEntries, ih]
    split
    · next h => rw [List.filter_cons_of_neg (by simpa using h)]
    · next h =>
      rw [List.filter_cons_of_pos (by simpa using h), List.map_cons]
      rfl

/-! ### What is asked of the result -/

namespace Json

/-- No secret is left at any depth. -/
inductive Sound : Json → Prop
  | null : Sound .null
  | bool (b : Bool) : Sound (.bool b)
  | num (literal : String) : Sound (.num literal)
  | str {s : JsString} (h : Redacted s) : Sound (.str s)
  | arr {values : List Json} (h : ∀ v ∈ values, Sound v) : Sound (.arr values)
  | obj {entries : List (JsString × Json)}
      (hsensitive : ∀ e ∈ entries, isSensitive e.1 = true → e.2 = .str redacted)
      (h : ∀ e ∈ entries, Sound e.2) : Sound (.obj entries)

/-- The second value is the first but for what a sensitive key has and for strings that one of the
patterns matches. -/
inductive Keeps : Json → Json → Prop
  | null : Keeps .null .null
  | bool (b : Bool) : Keeps (.bool b) (.bool b)
  | num (literal : String) : Keeps (.num literal) (.num literal)
  | str {s s' : JsString} (h : Plain s → s' = s) : Keeps (.str s) (.str s')
  | arr {values values' : List Json} (hlength : values'.length = values.length)
      (h : ∀ p ∈ values.zip values', Keeps p.1 p.2) : Keeps (.arr values) (.arr values')
  | obj {entries entries' : List (JsString × Json)}
      (hkeys : entries'.map Prod.fst = entries.map Prod.fst)
      (h : ∀ p ∈ entries.zip entries', isSensitive p.1.1 = false → Keeps p.1.2 p.2.2) :
      Keeps (.obj entries) (.obj entries')

/-- No object that is walked through has a key `__proto__`. -/
inductive NoProto : Json → Prop
  | null : NoProto .null
  | bool (b : Bool) : NoProto (.bool b)
  | num (literal : String) : NoProto (.num literal)
  | str (s : JsString) : NoProto (.str s)
  | arr {values : List Json} (h : ∀ v ∈ values, NoProto v) : NoProto (.arr values)
  | obj {entries : List (JsString × Json)} (hkeys : ∀ e ∈ entries, e.1 ≠ proto)
      (h : ∀ e ∈ entries, isSensitive e.1 = false → NoProto e.2) : NoProto (.obj entries)

end Json

theorem redacted_redacted : Redacted redacted :=
  ⟨(Pattern.free_of_head fun u hu => (redacted_letters u hu).1).clean,
    (Pattern.free_of_head fun u hu => (redacted_letters u hu).2.2.1).clean⟩

/-- **No secret is left**, at any depth of any value. -/
theorem redactDeep_sound (v : Json) : (redactDeep v).Sound := by
  induction v using Json.induction_mem with
  | null => exact .null
  | bool b => exact .bool b
  | num literal => exact .num literal
  | str s => exact .str (redactUrl_redacted s)
  | arr values ih =>
    rw [redactDeep, redactItems_eq]
    refine .arr fun v hv => ?_
    obtain ⟨w, hw, rfl⟩ := List.mem_map.mp hv
    exact ih w hw
  | obj entries ih =>
    rw [redactDeep, redactEntries_eq]
    constructor
    · intro e he hsensitive
      obtain ⟨f, -, rfl⟩ := List.mem_map.mp he
      exact if_pos hsensitive
    · intro e he
      obtain ⟨f, hf, rfl⟩ := List.mem_map.mp he
      show (if isSensitive f.1 then Json.str redacted else redactDeep f.2).Sound
      split
      · exact .str redacted_redacted
      · exact ih f (List.mem_of_mem_filter hf)

theorem redactDeep_noProto (v : Json) : (redactDeep v).NoProto := by
  induction v using Json.induction_mem with
  | null => exact .null
  | bool b => exact .bool b
  | num literal => exact .num literal
  | str s => exact .str _
  | arr values ih =>
    rw [redactDeep, redactItems_eq]
    refine .arr fun v hv => ?_
    obtain ⟨w, hw, rfl⟩ := List.mem_map.mp hv
    exact ih w hw
  | obj entries ih =>
    rw [redactDeep, redactEntries_eq]
    constructor
    · intro e he
      obtain ⟨f, hf, rfl⟩ := List.mem_map.mp he
      have hkey := List.of_mem_filter hf
      exact of_decide_eq_true hkey
    · intro e he hplain
      obtain ⟨f, hf, rfl⟩ := List.mem_map.mp he
      show (if isSensitive f.1 then Json.str redacted else redactDeep f.2).NoProto
      rw [if_neg (by rw [show isSensitive f.1 = false from hplain]; exact Bool.false_ne_true)]
      exact ih f (List.mem_of_mem_filter hf)

/-- A value without secrets stays as it is. -/
theorem Json.Sound.redactDeep_eq {v : Json} (hsound : v.Sound) (hproto : v.NoProto) :
    redactDeep v = v := by
  induction v using Json.induction_mem with
  | null | bool b | num literal => rw [redactDeep]
  | str s =>
    cases hsound with
    | str h => rw [redactDeep, h.redactUrl_eq]
  | arr values ih =>
    cases hsound with
    | arr h =>
      cases hproto with
      | arr hproto =>
        rw [redactDeep, redactItems_eq]
        conv => rhs; rw [← List.map_id values]
        exact congrArg Json.arr (List.map_congr_left fun v hv => ih v hv (h v hv) (hproto v hv))
  | obj entries ih =>
    cases hsound with
    | obj hsensitive h =>
      cases hproto with
      | obj hkeys hproto =>
        rw [redactDeep, redactEntries_eq,
          List.filter_eq_self.mpr fun e he => decide_eq_true (hkeys e he)]
        conv => rhs; rw [← List.map_id entries]
        refine congrArg Json.obj (List.map_congr_left fun e he => ?_)
        show redactEntry e = e
        rw [redactEntry]
        split
        · next hs => rw [← hsensitive e he hs]
        · next hs =>
          rw [ih e he (h e he) (hproto e he (Bool.eq_false_iff.mpr hs))]

/-- **Twice is once**, for every value. -/
theorem redactDeep_redactDeep (v : Json) : redactDeep (redactDeep v) = redactDeep v :=
  (redactDeep_sound v).redactDeep_eq (redactDeep_noProto v)

theorem mem_zip_map {α β : Type*} {f : α → β} {l : List α} {p : α × β} :
    p ∈ l.zip (l.map f) ↔ p.1 ∈ l ∧ p.2 = f p.1 := by
  induction l with
  | nil => simp
  | cons a l ih =>
    rw [List.map_cons, List.zip_cons_cons, List.mem_cons, ih, List.mem_cons]
    constructor
    · rintro (rfl | ⟨hp, heq⟩)
      · exact ⟨Or.inl rfl, rfl⟩
      · exact ⟨Or.inr hp, heq⟩
    · rintro ⟨rfl | hp, heq⟩
      · exact Or.inl (Prod.ext rfl heq)
      · exact Or.inr ⟨hp, heq⟩

/-- A value without a key `__proto__` is kept. -/
theorem Json.NoProto.keeps {v : Json} (h : v.NoProto) : v.Keeps (redactDeep v) := by
  induction v using Json.induction_mem with
  | null =>
    rw [redactDeep]
    exact .null
  | bool b =>
    rw [redactDeep]
    exact .bool b
  | num literal =>
    rw [redactDeep]
    exact .num literal
  | str s =>
    rw [redactDeep]
    exact .str Plain.redactUrl_eq
  | arr values ih =>
    cases h with
    | arr h =>
      rw [redactDeep, redactItems_eq]
      refine .arr (List.length_map _) fun p hp => ?_
      obtain ⟨hp, heq⟩ := mem_zip_map.mp hp
      rw [heq]
      exact ih _ hp (h _ hp)
  | obj entries ih =>
    cases h with
    | obj hkeys h =>
      rw [redactDeep, redactEntries_eq,
        List.filter_eq_self.mpr fun e he => decide_eq_true (hkeys e he)]
      refine .obj (List.map_map.trans rfl) fun p hp hplain => ?_
      obtain ⟨hp, heq⟩ := mem_zip_map.mp hp
      rw [heq, redactEntry]
      show Json.Keeps p.1.2 (if isSensitive p.1.1 then .str redacted else redactDeep p.1.2)
      rw [hplain]
      exact ih _ hp (h _ hp hplain)

/-- A value that is kept has no key `__proto__`: the entry would be lost. -/
theorem Json.Keeps.noProto {v : Json} (h : v.Keeps (redactDeep v)) : v.NoProto := by
  induction v using Json.induction_mem with
  | null => exact .null
  | bool b => exact .bool b
  | num literal => exact .num literal
  | str s => exact .str s
  | arr values ih =>
    rw [redactDeep, redactItems_eq] at h
    cases h with
    | arr hlength h =>
      exact .arr fun v hv => ih v hv (h (v, redactDeep v) (mem_zip_map.mpr ⟨hv, rfl⟩))
  | obj entries ih =>
    rw [redactDeep, redactEntries_eq] at h
    cases h with
    | obj hkeys h =>
      -- as many entries as before, so that none was left out
      have hfilter : entries.filter (fun e => e.1 ≠ proto) = entries := by
        refine List.filter_sublist.eq_of_length ?_
        simpa using congrArg List.length hkeys
      have hall := List.filter_eq_self.mp hfilter
      rw [hfilter] at h
      refine .obj (fun e he => of_decide_eq_true (hall e he)) fun e he hplain => ?_
      have hentry := h (e, redactEntry e) (mem_zip_map.mpr ⟨he, rfl⟩) hplain
      rw [redactEntry] at hentry
      refine ih e he ?_
      rwa [hplain] at hentry

/-- What is asked of a value that is logged for another. -/
structure Json.Redacts (v out : Json) : Prop where
  sound : out.Sound
  keeps : v.Keeps out
  again : redactDeep out = out

/-- **When nothing but secrets is lost.**  No secret is left of any value; the other entries are
all there exactly when none of them is `__proto__`. -/
theorem redactDeep_iff (v : Json) : v.Redacts (redactDeep v) ↔ v.NoProto :=
  ⟨fun h => h.keeps.noProto, fun h =>
    { sound := redactDeep_sound v
      keeps := h.keeps
      again := redactDeep_redactDeep v }⟩

/-- An object with a key `__proto__`, as `JSON.parse` makes it. -/
theorem proto_lost : ¬∀ v : Json, v.Redacts (redactDeep v) := by
  intro h
  have hkeeps := (h (.obj [(proto, .null)])).keeps
  cases hkeeps.noProto with
  | obj hkeys => exact hkeys _ List.mem_cons_self rfl

end Secrets
