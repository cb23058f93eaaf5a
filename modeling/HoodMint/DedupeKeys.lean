/-
The keys that alerts are told apart by (`packages/core/src/dedupe.ts`).

* `AlertKeyParts`, `alertDedupeKey` — what makes two alerts the same, and the key of it;
* `alertDedupeKey_injective` — no two opportunities have one key, whatever their texts are;
* `Kept` — what becomes of the rows along a run of the outbox (`kept_of_reach`);
* `alerts_apart` — in every run, an opportunity has at most one row, none is kept from its row by
  another, and a row that has been sent stays as it is.
-/
import HoodMint.Lib.Netstring
import HoodMint.Lib.Utf16
import HoodMint.OutboxLifecycle
import Std.Data.String.ToInt

namespace Notifications

open Relational Transition Utf16

/-! ### The key -/

/-- `AlertKeyParts`; the alert type is any string, the five names of `AlertType` among them. -/
structure AlertKeyParts where
  deploymentId : JsString
  walletId : JsString
  projectId : JsString
  stageId : JsString
  alertType : JsString
  thresholdMinutes : ℤ
deriving DecidableEq

theorem colon_not_mem (n : ℕ) : 58 ∉ ofText n.repr := by
  intro hmem
  obtain ⟨u, hu, hcolon⟩ := List.mem_map.mp hmem
  obtain ⟨c, hc, hcu⟩ := List.mem_flatMap.mp hu
  rw [Nat.toList_repr] at hc
  -- a digit, and its code unit is what it is
  have hdigit : 48 ≤ c.toNat ∧ c.toNat ≤ 57 :=
    Char.isDigit_iff_toNat.mp (Nat.isDigit_of_mem_toDigits (by omega) (by omega) hc)
  rw [JsonText.units, if_pos (by omega), List.mem_singleton] at hcu
  have hnat := congrArg UInt16.toNat hcolon
  rw [UInt16.toNat_ofNat_of_lt' (by rw [hcu]; exact lt_of_le_of_lt hdigit.2 (by decide))] at hnat
  have h58 : u = 58 := hnat
  omega

/-- Lengths as a template literal writes them. -/
def lengths : Netstring.Numerals UInt16 where
  text n := ofText n.repr
  colon := 58
  text_injective h := Nat.repr_injective (ofText_injective h)
  colon_not_mem := colon_not_mem

def AlertKeyParts.components (parts : AlertKeyParts) : List JsString :=
  [parts.deploymentId, parts.walletId, parts.projectId, parts.stageId, parts.alertType,
    ofText parts.thresholdMinutes.repr]

/-- `alertDedupeKey`: each component behind its length and a colon, with bars between. -/
def alertDedupeKey (parts : AlertKeyParts) : JsString := lengths.joined 124 parts.components

/-- The template literal of `alertDedupeKey`, on texts. -/
def keyText (components : List String) : String :=
  String.ofList (['|'].intercalate (components.map fun c =>
    (ofText c).length.repr.toList ++ ':' :: c.toList))

theorem ofText_append (a b : List Char) :
    ofText (String.ofList (a ++ b)) = ofText (String.ofList a) ++ ofText (String.ofList b) := by
  simp [ofText, units]

theorem ofText_keyText (components : List String) :
    ofText (keyText components) = lengths.joined 124 (components.map ofText) := by
  have hframed : ∀ c : String, ofText (String.ofList ((ofText c).length.repr.toList ++
      ':' :: c.toList)) = lengths.framed (ofText c) := by
    intro c
    have hcolon := ofText_append [':'] c.toList
    rw [List.singleton_append, String.ofList_toList] at hcolon
    rw [ofText_append, String.ofList_toList, hcolon]
    rfl
  induction components with
  | nil => rfl
  | cons c components ih =>
    rw [List.map_cons, Netstring.Numerals.joined_cons]
    cases components with
    | nil => simpa [keyText] using hframed c
    | cons c' rest =>
      have hrest : ofText (keyText (c :: c' :: rest)) = lengths.framed (ofText c) ++
          124 :: ofText (keyText (c' :: rest)) := by
        rw [keyText, List.map_cons, List.map_cons, List.intercalate_cons_cons, ofText_append,
          ofText_append, hframed, List.append_assoc]
        rfl
      rw [hrest, ih]
      rfl

example : alertDedupeKey ⟨ofText "d", ofText "w:1", [], ofText "3|x", ofText "watched_live", -10⟩ =
    ofText "1:d|3:w:1|0:|3:3|x|12:watched_live|3:-10" := by decide

/-- **No two opportunities have one key.** -/
theorem alertDedupeKey_injective {p q : AlertKeyParts}
    (h : alertDedupeKey p = alertDedupeKey q) : p = q := by
  have hcomponents : p.components = q.components := Netstring.Numerals.joined_injective h
  simp only [AlertKeyParts.components, List.cons.injEq, and_true] at hcomponents
  obtain ⟨hdeployment, hwallet, hproject, hstage, htype, hthreshold⟩ := hcomponents
  have hminutes : p.thresholdMinutes = q.thresholdMinutes :=
    Int.repr_injective (ofText_injective hthreshold)
  cases p
  cases q
  congr

/-! ### The rows -/

/-- The row is that of an opportunity. -/
def OutboxRow.StandsFor (r : OutboxRow) (parts : AlertKeyParts) : Prop :=
  ofText r.dedupeKey = alertDedupeKey parts

namespace OutboxRun

variable {iso : ℤ → String} {s s' : OutboxRun} {p q : AlertKeyParts}

/-- What becomes of the rows: each keeps its key and its identifier, and stays as it is once it is
sent. -/
def Kept (s s' : OutboxRun) : Prop :=
  ∀ r ∈ s.world.outbox, ∃ r' ∈ s'.world.outbox, r'.id = r.id ∧ r'.dedupeKey = r.dedupeKey ∧
    (r.status = .sent → r' = r)

theorem kept_of_reach (hok : s.Ok) (h : Reachable (step iso) s s') : s'.Ok ∧ Kept s s' := by
  have hstart : s.Ok ∧ Kept s s := ⟨hok, fun r hr => ⟨r, hr, rfl, rfl, fun _ => rfl⟩⟩
  refine h.invariant (I := fun s' => s'.Ok ∧ Kept s s') hstart ?_
  rintro s₁ l s₂ - ⟨hok₁, hkept⟩ - hstep
  refine ⟨hok₁.step hstep, fun r hr => ?_⟩
  obtain ⟨r₁, hr₁, hid₁, hkey₁, hsent₁⟩ := hkept r hr
  obtain ⟨r₂, hr₂, hfollows⟩ := (Evolves.of_step hok₁ hstep).kept r₁ hr₁
  refine ⟨r₂, hr₂, hfollows.id.trans hid₁, hfollows.dedupeKey.trans hkey₁, fun hsent => ?_⟩
  obtain rfl := hsent₁ hsent
  rcases hfollows.status with heq | hmoves
  · exact heq
  · -- nothing moves a row that has been sent
    rw [hsent] at hmoves
    cases hmoves

/-- An opportunity has one row. -/
theorem eq_iff_of_standsFor (hok : s.Ok) {r r' : OutboxRow} (hr : r ∈ s.world.outbox)
    (hr' : r' ∈ s.world.outbox) (hp : r.StandsFor p) (hq : r'.StandsFor q) : r = r' ↔ p = q := by
  constructor
  · rintro rfl
    exact alertDedupeKey_injective (hp.symm.trans hq)
  · rintro rfl
    exact List.inj_on_of_nodup_map hok.consistent.keys hr hr' (ofText_injective (hp.trans hq.symm))

theorem exists_standsFor_iff {input : EnqueueAlertInput}
    (hq : ofText input.dedupeKey = alertDedupeKey q) :
    (∃ r ∈ s.world.outbox, r.dedupeKey = input.dedupeKey) ↔
      ∃ r ∈ s.world.outbox, r.StandsFor q := by
  constructor
  · rintro ⟨r, hr, hkey⟩
    exact ⟨r, hr, (congrArg ofText hkey).trans hq⟩
  · rintro ⟨r, hr, hstands⟩
    exact ⟨r, hr, ofText_injective (hstands.trans hq.symm)⟩

/-- **Enqueueing** an opportunity adds its row unless that is there already. -/
theorem enqueue_cases {id : String} {now : ℤ} {input : EnqueueAlertInput}
    (hq : ofText input.dedupeKey = alertDedupeKey q)
    (h : s.step iso (.enqueueAlert id now input) = some s') :
    ((∃ r ∈ s.world.outbox, r.StandsFor q) ∧ s' = s) ∨
      ((¬ ∃ r ∈ s.world.outbox, r.StandsFor q) ∧
        (∃ r ∈ s'.world.outbox, r.StandsFor q ∧ r.status = .pending) ∧
          ∀ r ∈ s.world.outbox, r ∈ s'.world.outbox) := by
  rw [OutboxRun.step] at h
  split at h
  · exact absurd h.symm (Option.some_ne_none _)
  next hfresh =>
  obtain rfl := Option.some_inj.mp h
  by_cases hkey : ∃ r ∈ s.world.outbox, r.dedupeKey = input.dedupeKey
  · refine Or.inl ⟨(exists_standsFor_iff hq).mp hkey, ?_⟩
    rw [Outbox.enqueueAlert, if_pos hkey]
  · refine Or.inr ⟨fun hstands => hkey ((exists_standsFor_iff hq).mpr hstands), ?_⟩
    rw [Outbox.enqueueAlert, if_neg hkey]
    refine ⟨⟨_, Table.mem_insert.mpr (Or.inr ⟨rfl, ?_⟩), hq, rfl⟩,
      fun r hr => Table.mem_insert_of_mem hr⟩
    exact fun r hr heq => hfresh ⟨r, hr, heq⟩

end OutboxRun

/-- **Opportunities do not get in each other's way.**  Their keys are equal only if all six parts
are; in every state of every run an opportunity has at most one row and shares it with no other,
enqueueing it adds its row unless that very row is there, and later it has the row it had, which
stays as it is once it is sent. -/
theorem alerts_apart (iso : ℤ → String) :
    (∀ p q, alertDedupeKey p = alertDedupeKey q → p = q) ∧
    ∀ s, Reachable (OutboxRun.step iso) OutboxRun.start s →
      (∀ r ∈ s.world.outbox, ∀ r' ∈ s.world.outbox, ∀ p q, r.StandsFor p → r'.StandsFor q →
        (r = r' ↔ p = q)) ∧
      (∀ id now input s' q, ofText input.dedupeKey = alertDedupeKey q →
        s.step iso (.enqueueAlert id now input) = some s' →
          ((∃ r ∈ s.world.outbox, r.StandsFor q) ∧ s' = s) ∨
            ((¬ ∃ r ∈ s.world.outbox, r.StandsFor q) ∧
              (∃ r ∈ s'.world.outbox, r.StandsFor q ∧ r.status = .pending) ∧
                ∀ r ∈ s.world.outbox, r ∈ s'.world.outbox)) ∧
      ∀ s', Reachable (OutboxRun.step iso) s s' → ∀ r ∈ s.world.outbox,
        ∀ r' ∈ s'.world.outbox, ∀ p, r.StandsFor p → r'.StandsFor p →
          r'.id = r.id ∧ (r.status = .sent → r' = r) := by
  refine ⟨fun p q => alertDedupeKey_injective, fun s hs => ?_⟩
  have hok := OutboxRun.ok_of_reach hs
  refine ⟨fun r hr r' hr' p q hp hq => OutboxRun.eq_iff_of_standsFor hok hr hr' hp hq,
    fun id now input s' q hq hstep => OutboxRun.enqueue_cases hq hstep, ?_⟩
  intro s' hreach r hr r' hr' p hp hp'
  obtain ⟨hok', hkept⟩ := OutboxRun.kept_of_reach hok hreach
  obtain ⟨r₁, hr₁, hid, hkey, hsent⟩ := hkept r hr
  have hone : r' = r₁ := (OutboxRun.eq_iff_of_standsFor hok' hr' hr₁ hp'
    ((congrArg ofText hkey).trans hp)).mpr rfl
  rw [hone]
  exact ⟨hid, hsent⟩

end Notifications
