/-
What the guard of RPC endpoints lets through (`packages/providers/src/chain/rpc-url.ts`).

* `assertSafeRpcUrl` — the guard: names and addresses of cloud metadata services, as texts;
* `assertSafeRpcUrl_eq_ok` — the guard, as what it asks of a URL;
* `Blocked` — the addresses behind those texts; `Complete` — no URL that is returned names or
  stands for one;
* `uncaught_iff` — the answers that stand for one and are not in the list;
* `complete_iff_covered` — exactly when the guard is complete; `bracketed_metadata` — a URL for
  which it is not.
-/
import HoodMint.WebhookGuard

namespace RpcUrl

open IpAddress (Address parse)
open Notifications (AppError Url Platform literal)

/-! ### The guard -/

def metadataHostnames : List String :=
  ["169.254.169.254", "metadata.google.internal", "metadata.internal", "fd00:ec2::254"]

section

variable (p : Platform)

/-- `assertSafeRpcUrl`. -/
def assertSafeRpcUrl (rawUrl : String) : Except AppError Url := do
  let url ← match p.parseUrl rawUrl with
    | some url => pure url
    | none => throw ⟨"PermanentConfig", "RPC URL is not a valid URL", none⟩
  if url.protocol ≠ "http:" ∧ url.protocol ≠ "https:" ∧ url.protocol ≠ "ws:" ∧
      url.protocol ≠ "wss:" then
    throw ⟨"PermanentConfig", "RPC URL must be http(s) or ws(s)", none⟩
  let hostname := Text.lower url.hostname
  if hostname ∈ metadataHostnames then
    throw ⟨"PermanentConfig", "RPC URL points at a cloud metadata endpoint", none⟩
  if p.isIP hostname ≠ 0 then
    return url
  match p.lookup hostname with
  -- a host that does not resolve is left to the caller's connectivity check
  | none => return url
  | some addresses =>
    if addresses.any fun address => Text.lower address ∈ metadataHostnames then
      throw ⟨"PermanentConfig", "RPC host resolves to a cloud metadata endpoint", none⟩
    return url

end

/-! ### Metadata services -/

/-- Their names. -/
def metadataNames : List String := ["metadata.google.internal", "metadata.internal"]

/-- A host that is such a name with a dot after it. -/
def Dotted (hostname : String) : Prop :=
  ∃ name ∈ metadataNames, Text.lower hostname = name ++ "."

def Named (hostname : String) : Prop := Text.lower hostname ∈ metadataNames ∨ Dotted hostname

/-- Their addresses: one of IPv4, its mapped form, and one of IPv6. -/
def Blocked : Address → Prop
  | .v4 octets => octets = [169, 254, 169, 254]
  | .v6 groups => groups = [0xfd00, 0x0ec2, 0, 0, 0, 0, 0, 0x254] ∨
      groups = [0, 0, 0, 0, 0, 0xffff, 0xa9fe, 0xa9fe]

/-- The addresses that a URL stands for, literal or resolved. -/
def StandsFor (p : Platform) (url : Url) (a : Address) : Prop :=
  literal url.hostname = some a ∨
    p.isIP (Text.lower url.hostname) = 0 ∧
      ∃ answers, p.lookup (Text.lower url.hostname) = some answers ∧
        ∃ text ∈ answers, parse text = some a

/-- No URL that the guard returns names a metadata service or stands for the address of one. -/
def Complete (p : Platform) (rawUrl : String) : Prop :=
  ∀ url, assertSafeRpcUrl p rawUrl = .ok url →
    ¬Named url.hostname ∧ ∀ a, StandsFor p url a → ¬Blocked a

variable {p : Platform} {rawUrl text : String} {url : Url}

/-- The schemes of an RPC endpoint. -/
def Schemed (url : Url) : Prop := url.protocol ∈ ["http:", "https:", "ws:", "wss:"]

/-- **The guard**, as what it asks of a URL. -/
theorem assertSafeRpcUrl_eq_ok : assertSafeRpcUrl p rawUrl = .ok url ↔
    p.parseUrl rawUrl = some url ∧ Schemed url ∧ Text.lower url.hostname ∉ metadataHostnames ∧
      (p.isIP (Text.lower url.hostname) = 0 → ∀ answers,
        p.lookup (Text.lower url.hostname) = some answers →
          ∀ text ∈ answers, Text.lower text ∉ metadataHostnames) := by
  cases hparse : p.parseUrl rawUrl with
  | none =>
    rw [assertSafeRpcUrl, hparse]
    exact iff_of_false (fun h => by cases h) (by simp)
  | some url' =>
    have hschemed : ¬(url'.protocol ≠ "http:" ∧ url'.protocol ≠ "https:" ∧
        url'.protocol ≠ "ws:" ∧ url'.protocol ≠ "wss:") ↔ Schemed url' := by
      simp only [Schemed, List.mem_cons, List.not_mem_nil, or_false]
      tauto
    -- a host that is no literal is returned unless its answers say otherwise
    have hanswers : ((if p.isIP (Text.lower url'.hostname) ≠ 0 then pure url' else
        match p.lookup (Text.lower url'.hostname) with
        | none => pure url'
        | some addresses =>
          if addresses.any fun address => Text.lower address ∈ metadataHostnames then
            (throw ⟨"PermanentConfig", "RPC host resolves to a cloud metadata endpoint", none⟩ :
              Except AppError Url) >>= fun _ => pure url'
          else pure url') : Except AppError Url) = .ok url ↔
        url' = url ∧ (p.isIP (Text.lower url'.hostname) = 0 → ∀ answers,
          p.lookup (Text.lower url'.hostname) = some answers →
            ∀ text ∈ answers, Text.lower text ∉ metadataHostnames) := by
      by_cases hip : p.isIP (Text.lower url'.hostname) = 0
      · rw [if_neg (not_not.mpr hip)]
        cases p.lookup (Text.lower url'.hostname) with
        | none => simp [Notifications.pure_iff]
        | some answers =>
          show (if _ then _ else _) = _ ↔ _
          rw [Notifications.passes_iff, Notifications.pure_iff]
          simp [hip, and_comm]
      · rw [if_pos hip, Notifications.pure_iff]
        exact (and_iff_left fun h => absurd h hip).symm
    rw [assertSafeRpcUrl, hparse]
    show (if _ then _ else _) = _ ↔ _
    rw [Notifications.passes_iff, Notifications.passes_iff, hschemed]
    refine (and_congr_right' (and_congr_right' hanswers)).trans ?_
    constructor
    · rintro ⟨hurl, hname, rfl, hnone⟩
      exact ⟨rfl, hurl, hname, hnone⟩
    · rintro ⟨heq, hurl, hname, hnone⟩
      obtain rfl := Option.some_inj.mp heq
      exact ⟨hurl, hname, rfl, hnone⟩

/-! ### Other texts -/

/-- An answer that stands for the address of a metadata service and is not in the list. -/
def Uncaught (text : String) : Prop :=
  (∃ groups, parse text = some (.v6 groups) ∧ Blocked (.v6 groups)) ∧
    Text.lower text ≠ "fd00:ec2::254"

/-- **What is not caught** is in IPv6, in another text than that of the list. -/
theorem uncaught_iff : Uncaught text ↔
    (∃ a, parse text = some a ∧ Blocked a) ∧ Text.lower text ∉ metadataHostnames := by
  constructor
  · rintro ⟨⟨groups, hparse, hblocked⟩, hne⟩
    refine ⟨⟨_, hparse, hblocked⟩, fun hmem => ?_⟩
    -- its text has a colon, and the others have none
    have hcolon : ':' ∈ (Text.lower text).toList := by
      rw [Text.lower, String.toList_ofList]
      exact List.mem_map.mpr ⟨':', IpAddress.colon_of_parseZoned (IpAddress.parse_eq_v6.mp hparse),
        by decide⟩
    have hothers : ∀ name ∈ metadataHostnames, ':' ∈ name.toList → name = "fd00:ec2::254" := by
      decide
    exact hne (hothers _ hmem hcolon)
  · rintro ⟨⟨a, hparse, hblocked⟩, hnot⟩
    cases a with
    | v4 octets =>
      have htext : text = "169.254.169.254" := by
        have hlist := IpAddress.eq_dotted (IpAddress.parse_eq_v4.mp hparse)
        rw [show octets = [169, 254, 169, 254] from hblocked] at hlist
        exact String.toList_inj.mp (hlist.trans (by decide))
      rw [htext] at hnot
      exact absurd (by decide) hnot
    | v6 groups => exact ⟨⟨groups, hparse, hblocked⟩, fun heq => hnot (heq ▸ by decide)⟩

/-- The condition: a URL whose host is not in the list has an answer that is, or is no name with a
dot after it, spells out no such address, and has no answer that is not caught. -/
def Covered (p : Platform) (rawUrl : String) : Prop :=
  ∀ url, p.parseUrl rawUrl = some url → Schemed url →
    Text.lower url.hostname ∉ metadataHostnames →
      (p.isIP (Text.lower url.hostname) = 0 ∧
        ∃ answers, p.lookup (Text.lower url.hostname) = some answers ∧
          ∃ text ∈ answers, Text.lower text ∈ metadataHostnames) ∨
      (¬Dotted url.hostname ∧ (∀ a ∈ literal url.hostname, ¬Blocked a) ∧
        (p.isIP (Text.lower url.hostname) = 0 → ∀ answers,
          p.lookup (Text.lower url.hostname) = some answers → ∀ text ∈ answers, ¬Uncaught text))

/-- **The guard of RPC endpoints** is complete for a URL exactly when the URL is covered. -/
theorem complete_iff_covered (p : Platform) (rawUrl : String) :
    Complete p rawUrl ↔ Covered p rawUrl := by
  constructor
  · intro hcomplete url hparse hurl hname
    by_cases hcaught : p.isIP (Text.lower url.hostname) = 0 ∧
        ∃ answers, p.lookup (Text.lower url.hostname) = some answers ∧
          ∃ text ∈ answers, Text.lower text ∈ metadataHostnames
    · exact Or.inl hcaught
    · have hok := assertSafeRpcUrl_eq_ok.mpr ⟨hparse, hurl, hname,
        fun hip answers hanswers text htext hmem =>
          hcaught ⟨hip, answers, hanswers, text, htext, hmem⟩⟩
      obtain ⟨hnamed, hstands⟩ := hcomplete url hok
      refine Or.inr ⟨fun h => hnamed (Or.inr h), fun a ha => hstands a (Or.inl ha),
        fun hip answers hanswers text htext huncaught => ?_⟩
      obtain ⟨⟨a, ha, hblocked⟩, -⟩ := uncaught_iff.mp huncaught
      exact hstands a (Or.inr ⟨hip, answers, hanswers, text, htext, ha⟩) hblocked
  · intro hcovered url hok
    obtain ⟨hparse, hurl, hname, hpass⟩ := assertSafeRpcUrl_eq_ok.mp hok
    rcases hcovered url hparse hurl hname with
      ⟨hip, answers, hanswers, text, htext, hmem⟩ | ⟨hdotted, hliteral, hresolved⟩
    · exact absurd hmem (hpass hip answers hanswers text htext)
    · constructor
      · rintro (hlisted | h)
        · have hsub : metadataNames ⊆ metadataHostnames := by decide
          exact hname (hsub hlisted)
        · exact hdotted h
      · rintro a (ha | ⟨hip, answers, hanswers, text, htext, ha⟩) hblocked
        · exact hliteral a ha hblocked
        · exact hresolved hip answers hanswers text htext
            (uncaught_iff.mpr ⟨⟨a, ha, hblocked⟩, hpass hip answers hanswers text htext⟩)

/-- A platform that resolves nothing, and the URL of a metadata service in IPv6. -/
def unresolving : Platform :=
  Notifications.platform (fun rawUrl => if rawUrl = "http://[fd00:ec2::254]/" then
    some ⟨"http:", "", "", "[fd00:ec2::254]"⟩ else none) fun _ => none

/-- Brackets hide the literal, and a host that does not resolve is returned. -/
theorem bracketed_metadata : ¬Complete unresolving "http://[fd00:ec2::254]/" := by
  intro hcomplete
  have hok : assertSafeRpcUrl unresolving "http://[fd00:ec2::254]/" =
      .ok ⟨"http:", "", "", "[fd00:ec2::254]"⟩ :=
    assertSafeRpcUrl_eq_ok.mpr ⟨rfl, List.mem_cons_self, by decide, fun _ _ h => nomatch h⟩
  have hliteral : literal "[fd00:ec2::254]" =
      some (.v6 [0xfd00, 0x0ec2, 0, 0, 0, 0, 0, 0x254]) := by decide
  exact (hcomplete _ hok).2 _ (Or.inl hliteral) (Or.inl rfl)

end RpcUrl
