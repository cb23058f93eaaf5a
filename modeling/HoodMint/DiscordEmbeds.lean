/-
Embeds as they are sent to Discord (`packages/notifications/src/render.ts`).

* `truncateDiscordString`, `sanitizeDiscordEmbed` — as in the source;
* `Within` — the limits of each part; `sanitize_within`: they are met by every embed;
* `total_le_iff` — the limit of all parts together is met exactly when the parts that are never
  dropped leave it room;
* `sanitize_sanitize` — an embed that has been cut once is not cut again;
* `sanitized_iff` — all that is asked of the result, and when it holds; `overlong_footer`, an embed
  that Discord refuses.
-/
import HoodMint.Lib.Utf16
import Mathlib.Algebra.BigOperators.Group.List.Basic
import Mathlib.Algebra.GroupWithZero.Nat

namespace DiscordRender

open Utf16

/-! ### Embeds -/

/-- `DiscordEmbedField`. -/
structure DiscordEmbedField where
  name : JsString
  value : JsString
  inline : Option Bool
deriving DecidableEq

/-- `DiscordEmbed`; the text of the footer is its only entry. -/
@[ext] structure DiscordEmbed where
  title : JsString
  url : Option JsString
  description : Option JsString
  color : ℕ
  fields : List DiscordEmbedField
  footer : JsString
  timestamp : JsString
deriving DecidableEq

/-- `truncateDiscordString`. -/
def truncateDiscordString (value : JsString) (max : ℕ) : JsString :=
  if value = [] then []
  else if value.length ≤ max then value
  else value.take (max - 1) ++ [0x2026]

/-- `text || "—"`. -/
def orDash (text : JsString) : JsString := if text = [] then [0x2014] else text

/-- A string that is there and not empty. -/
def present : Option JsString → Option JsString
  | some [] => none
  | text => text

/-- A field as it is kept. -/
def sanitizeField (f : DiscordEmbedField) : DiscordEmbedField where
  name := orDash (truncateDiscordString f.name 256)
  value := orDash (truncateDiscordString f.value 1024)
  inline := f.inline

/-- What a field adds to the length of its embed. -/
def DiscordEmbedField.chars (f : DiscordEmbedField) : ℕ := f.name.length + f.value.length

/-- The fields up to the first that does not fit. -/
def safeFields : ℕ → List DiscordEmbedField → List DiscordEmbedField
  | _, [] => []
  | totalChars, f :: fields =>
    if totalChars + f.chars > 5500 then [] else f :: safeFields (totalChars + f.chars) fields

/-- The length of an optional part. -/
def optionLength (text : Option JsString) : ℕ := (text.getD []).length

/-- `sanitizeDiscordEmbed`. -/
def sanitizeDiscordEmbed (embed : DiscordEmbed) : DiscordEmbed :=
  let title := truncateDiscordString embed.title 256
  let description := (present embed.description).map fun text => truncateDiscordString text 4000
  let footerText := truncateDiscordString embed.footer 2048
  let fields := (embed.fields.take 25).map sanitizeField
  let totalChars := title.length + optionLength description + footerText.length
  { title := title
    url := present embed.url
    description := present description
    color := embed.color
    fields := safeFields totalChars fields
    footer := footerText
    timestamp := embed.timestamp }

/-! ### Truncation -/

section

variable {value : JsString} {max : ℕ}

theorem truncate_of_le (h : value.length ≤ max) : truncateDiscordString value max = value := by
  rw [truncateDiscordString, if_pos h]
  split
  · next hempty => exact hempty.symm
  · rfl

/-- Nothing is longer than it may be. -/
theorem length_truncate (h : 0 < max) :
    (truncateDiscordString value max).length = min value.length max := by
  by_cases hle : value.length ≤ max
  · rw [truncate_of_le hle, min_eq_left hle]
  · have hne : value ≠ [] := by
      rintro rfl
      exact hle (Nat.zero_le _)
    rw [truncateDiscordString, if_neg hne, if_neg hle, List.length_append, List.length_take,
      List.length_singleton]
    omega

theorem truncate_truncate (h : 0 < max) :
    truncateDiscordString (truncateDiscordString value max) max =
      truncateDiscordString value max :=
  truncate_of_le (by rw [length_truncate h]; exact min_le_right _ _)

theorem truncate_eq_nil (h : 0 < max) : truncateDiscordString value max = [] ↔ value = [] := by
  rw [← List.length_eq_zero_iff, ← List.length_eq_zero_iff, length_truncate h]
  omega

end

theorem orDash_ne_nil (text : JsString) : orDash text ≠ [] := by
  rw [orDash]
  split
  · exact List.cons_ne_nil _ _
  · next h => exact h

theorem orDash_eq (text : JsString) (h : text ≠ []) : orDash text = text := if_neg h

theorem length_orDash_le {text : JsString} {n : ℕ} (hn : 1 ≤ n) (h : text.length ≤ n) :
    (orDash text).length ≤ n := by
  rw [orDash]
  split
  · exact hn
  · exact h

theorem present_of_ne_nil {text : JsString} (h : text ≠ []) : present (some text) = some text := by
  cases text with
  | nil => exact absurd rfl h
  | cons => rfl

theorem present_present (text : Option JsString) : present (present text) = present text := by
  rcases text with _ | _ | _ <;> rfl

/-! ### Fields -/

/-- The limits of a field. -/
structure DiscordEmbedField.Within (f : DiscordEmbedField) : Prop where
  name_ne_nil : f.name ≠ []
  name_le : f.name.length ≤ 256
  value_ne_nil : f.value ≠ []
  value_le : f.value.length ≤ 1024

theorem sanitizeField_within (f : DiscordEmbedField) : (sanitizeField f).Within where
  name_ne_nil := orDash_ne_nil _
  name_le := length_orDash_le (by omega) (by
    rw [length_truncate (by omega)]
    exact min_le_right _ _)
  value_ne_nil := orDash_ne_nil _
  value_le := length_orDash_le (by omega) (by
    rw [length_truncate (by omega)]
    exact min_le_right _ _)

/-- A field within the limits stays as it is. -/
theorem DiscordEmbedField.Within.sanitize {f : DiscordEmbedField} (h : f.Within) :
    sanitizeField f = f := by
  rw [sanitizeField, truncate_of_le h.name_le, truncate_of_le h.value_le,
    orDash_eq _ h.name_ne_nil, orDash_eq _ h.value_ne_nil]

def fieldChars (fields : List DiscordEmbedField) : ℕ := (fields.map DiscordEmbedField.chars).sum

section

variable {total : ℕ} {fields : List DiscordEmbedField}

theorem safeFields_start : safeFields total fields <+: fields := by
  induction fields generalizing total with
  | nil => exact List.prefix_rfl
  | cons f fields ih =>
    rw [safeFields]
    split
    · exact List.nil_prefix
    · exact List.cons_prefix_cons.mpr ⟨rfl, ih⟩

/-- Fields are only added while there is room. -/
theorem total_safeFields : total + fieldChars (safeFields total fields) ≤ max total 5500 := by
  induction fields generalizing total with
  | nil => exact le_max_left _ _
  | cons f fields ih =>
    rw [safeFields]
    split
    · exact le_max_left _ _
    · next hroom =>
      have hrest := @ih (total + f.chars)
      rw [max_eq_right (not_lt.mp hroom)] at hrest
      have hsum : fieldChars (f :: safeFields (total + f.chars) fields) =
          f.chars + fieldChars (safeFields (total + f.chars) fields) := by
        rw [fieldChars, List.map_cons, List.sum_cons]
        rfl
      rw [hsum]
      omega

/-- Fields that were added once are added again. -/
theorem safeFields_safeFields :
    safeFields total (safeFields total fields) = safeFields total fields := by
  induction fields generalizing total with
  | nil => rfl
  | cons f fields ih =>
    by_cases hroom : total + f.chars > 5500
    · rw [safeFields, if_pos hroom]
      rfl
    · rw [safeFields, if_neg hroom, safeFields, if_neg hroom, ih]

end

/-! ### The whole embed -/

namespace DiscordEmbed

variable (embed : DiscordEmbed)

/-- The length of all parts together. -/
def total : ℕ :=
  embed.title.length + optionLength embed.description + fieldChars embed.fields +
    embed.footer.length

/-- The length of the parts that are never dropped, each cut to its own limit. -/
def kept : ℕ :=
  min embed.title.length 256 + min (optionLength embed.description) 4000 +
    min embed.footer.length 2048

/-- The limits of the parts, as Discord has them. -/
structure Within : Prop where
  title_le : embed.title.length ≤ 256
  description_le : optionLength embed.description ≤ 4096
  fields_le : embed.fields.length ≤ 25
  fields : ∀ f ∈ embed.fields, f.Within
  footer_le : embed.footer.length ≤ 2048

end DiscordEmbed

section

variable (embed : DiscordEmbed)

theorem title_sanitize :
    (sanitizeDiscordEmbed embed).title.length = min embed.title.length 256 :=
  length_truncate (by omega)

theorem footer_sanitize :
    (sanitizeDiscordEmbed embed).footer.length = min embed.footer.length 2048 :=
  length_truncate (by omega)

/-- A description is left out, or cut to a string that is not empty. -/
theorem description_sanitize : (sanitizeDiscordEmbed embed).description =
    (present embed.description).map fun text => truncateDiscordString text 4000 := by
  show present ((present embed.description).map _) = _
  cases hdescription : embed.description with
  | none => rfl
  | some text =>
    cases text with
    | nil => rfl
    | cons u text =>
      exact present_of_ne_nil fun h => List.cons_ne_nil u text ((truncate_eq_nil (by omega)).mp h)

theorem length_description_sanitize :
    optionLength (sanitizeDiscordEmbed embed).description =
      min (optionLength embed.description) 4000 := by
  rw [description_sanitize]
  cases hdescription : embed.description with
  | none => rfl
  | some text =>
    cases text with
    | nil => rfl
    | cons u text => exact length_truncate (by omega)

/-- The fields of a sanitized embed. -/
theorem sanitize_fields : (sanitizeDiscordEmbed embed).fields =
    safeFields embed.kept ((embed.fields.take 25).map sanitizeField) := by
  have htotal : embed.kept = (sanitizeDiscordEmbed embed).title.length +
      optionLength ((present embed.description).map fun text => truncateDiscordString text 4000) +
        (sanitizeDiscordEmbed embed).footer.length := by
    rw [← description_sanitize, title_sanitize, length_description_sanitize, footer_sanitize]
    rfl
  rw [htotal]
  rfl

theorem sanitize_fields_start :
    (sanitizeDiscordEmbed embed).fields <+: embed.fields.map sanitizeField := by
  rw [sanitize_fields]
  refine safeFields_start.trans ?_
  rw [List.map_take]
  exact List.take_prefix 25 _

/-- **Each part is within its limit.** -/
theorem sanitize_within : (sanitizeDiscordEmbed embed).Within where
  title_le := by
    rw [title_sanitize]
    exact min_le_right _ _
  description_le := by
    rw [length_description_sanitize]
    exact (min_le_right _ _).trans (by omega)
  fields_le := by
    rw [sanitize_fields]
    refine safeFields_start.length_le.trans ?_
    rw [List.length_map, List.length_take]
    exact min_le_left _ _
  fields f hf := by
    obtain ⟨g, -, rfl⟩ := List.mem_map.mp ((sanitize_fields_start embed).subset hf)
    exact sanitizeField_within g
  footer_le := by
    rw [footer_sanitize]
    exact min_le_right _ _

theorem total_sanitize : (sanitizeDiscordEmbed embed).total =
    embed.kept + fieldChars (sanitizeDiscordEmbed embed).fields := by
  rw [DiscordEmbed.total, title_sanitize, length_description_sanitize, footer_sanitize,
    DiscordEmbed.kept]
  omega

/-- **All parts together**: only fields are dropped to make room. -/
theorem total_le_iff : (sanitizeDiscordEmbed embed).total ≤ 6000 ↔ embed.kept ≤ 6000 := by
  rw [total_sanitize, sanitize_fields]
  constructor
  · intro h
    omega
  · intro h
    exact total_safeFields.trans (max_le h (by omega))

/-- The parts that are never dropped are not cut again. -/
theorem kept_sanitize : (sanitizeDiscordEmbed embed).kept = embed.kept := by
  rw [DiscordEmbed.kept, title_sanitize, length_description_sanitize, footer_sanitize,
    DiscordEmbed.kept]
  omega

/-- **Twice is once.** -/
theorem sanitize_sanitize :
    sanitizeDiscordEmbed (sanitizeDiscordEmbed embed) = sanitizeDiscordEmbed embed := by
  have htitle : (sanitizeDiscordEmbed (sanitizeDiscordEmbed embed)).title =
      (sanitizeDiscordEmbed embed).title := truncate_truncate (by omega)
  have hurl : (sanitizeDiscordEmbed (sanitizeDiscordEmbed embed)).url =
      (sanitizeDiscordEmbed embed).url := present_present _
  have hdescription : (sanitizeDiscordEmbed (sanitizeDiscordEmbed embed)).description =
      (sanitizeDiscordEmbed embed).description := by
    have hpresent : present (sanitizeDiscordEmbed embed).description =
        (sanitizeDiscordEmbed embed).description := present_present _
    rw [description_sanitize, hpresent, description_sanitize, Option.map_map]
    exact Option.map_congr fun text _ => truncate_truncate (by omega)
  have hfooter : (sanitizeDiscordEmbed (sanitizeDiscordEmbed embed)).footer =
      (sanitizeDiscordEmbed embed).footer := truncate_truncate (by omega)
  have hfields : (sanitizeDiscordEmbed (sanitizeDiscordEmbed embed)).fields =
      (sanitizeDiscordEmbed embed).fields := by
    have hwithin := sanitize_within embed
    have hsame : ((sanitizeDiscordEmbed embed).fields.take 25).map sanitizeField =
        (sanitizeDiscordEmbed embed).fields := by
      rw [List.take_of_length_le hwithin.fields_le]
      conv => rhs; rw [← List.map_id (sanitizeDiscordEmbed embed).fields]
      exact List.map_congr_left fun f hf => (hwithin.fields f hf).sanitize
    rw [sanitize_fields, hsame, kept_sanitize, sanitize_fields, safeFields_safeFields]
  exact DiscordEmbed.ext htitle hurl hdescription rfl hfields hfooter rfl

/-- What is asked of an embed that is sent for another. -/
structure Sanitized (out : DiscordEmbed) : Prop where
  within : out.Within
  total_le : out.total ≤ 6000
  fields : out.fields <+: embed.fields.map sanitizeField
  again : sanitizeDiscordEmbed out = out

/-- **When an embed fits.**  All limits but that of the parts together are always met. -/
theorem sanitized_iff : Sanitized embed (sanitizeDiscordEmbed embed) ↔
    min embed.title.length 256 + min (optionLength embed.description) 4000 +
      min embed.footer.length 2048 ≤ 6000 :=
  ⟨fun h => (total_le_iff embed).mp h.total_le, fun h =>
    { within := sanitize_within embed
      total_le := (total_le_iff embed).mpr h
      fields := sanitize_fields_start embed
      again := sanitize_sanitize embed }⟩

end

/-- A long description and a long footer, and no field that could be dropped. -/
theorem overlong_footer : ¬∀ embed, Sanitized embed (sanitizeDiscordEmbed embed) := by
  intro h
  have htotal := (h
    { title := [], url := none, description := some (List.replicate 4000 97), color := 0
      fields := [], footer := List.replicate 2048 97, timestamp := [] }).total_le
  rw [total_le_iff, DiscordEmbed.kept] at htotal
  have hdescription : optionLength (some (List.replicate 4000 97)) = 4000 := List.length_replicate
  simp only [hdescription, List.length_nil, List.length_replicate] at htotal
  omega

end DiscordRender
