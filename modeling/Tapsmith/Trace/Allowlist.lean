import Tapsmith.Trace.FilterHosts
import Tapsmith.Trace.Pac

namespace Tapsmith.Trace

open Lib.Glob Lib.Regex

/-!
# The allowlist of the proxy and the one of the capture

The PAC script and the capture filter read the same `trace.networkHosts`.

* `covers_iff`, `shExpMatch_iff` — what either side makes of one pattern: they share the reading of
  a pattern in lower case without `?`;
* `pac_agrees_iff` — they agree on a host if a pattern covers it as it is written, or if what only
  one of them takes is made up for by what only the other one takes.
-/

/-! ### Lower case -/

/-- Visible ASCII, as every ASCII hostname is. -/
def IsHostname (host : List Char) : Prop :=
  ∀ c ∈ host, 0x21 ≤ c.toNat ∧ c.toNat ≤ 0x7e

/-- What `String.prototype.toLowerCase` does to ASCII. -/
def LowersAscii (toLowerCase : List Char → List Char) : Prop :=
  ∀ s : List Char, (∀ c ∈ s, c.toNat < 128) → toLowerCase s = s.map Char.toLower

/-- A character that lower case leaves alone. -/
def Lower (c : Char) : Prop :=
  c.toNat < 128 ∧ c.toLower = c

theorem lower_toLower {c : Char} (hc : 0x21 ≤ c.toNat ∧ c.toNat ≤ 0x7e) :
    Lower c.toLower ∧ dot c.toLower = true := by
  have hall : ∀ n < 0x7f, 0x21 ≤ n → ((Char.ofNat n).toLower.toNat < 128 ∧
      (Char.ofNat n).toLower.toLower = (Char.ofNat n).toLower) ∧
      dot (Char.ofNat n).toLower = true := by
    decide +kernel
  have := hall c.toNat (by omega) hc.1
  rwa [Char.ofNat_toNat] at this

section Lowered

variable {toLowerCase : List Char → List Char} {host pattern : List Char}

theorem lowered_host (hlower : LowersAscii toLowerCase) (hhost : IsHostname host) :
    ∀ c ∈ toLowerCase host, Lower c ∧ dot c = true := by
  intro c hc
  have hascii : ∀ d ∈ host, d.toNat < 128 := fun d hd => by
    have := hhost d hd
    omega
  rw [hlower host hascii] at hc
  obtain ⟨d, hd, rfl⟩ := List.mem_map.mp hc
  exact lower_toLower (hhost d hd)

/-- A pattern that is not in lower case has a character that no host in lower case has. -/
theorem exists_not_lower (hlower : LowersAscii toLowerCase) (hne : toLowerCase pattern ≠ pattern) :
    ∃ c ∈ pattern, ¬ Lower c := by
  by_contra hnone
  have hall : ∀ c ∈ pattern, Lower c := by
    intro c hc
    by_contra hnot
    exact hnone ⟨c, hc, hnot⟩
  apply hne
  rw [hlower pattern fun c hc => (hall c hc).1]
  exact (List.map_congr_left fun c hc => (hall c hc).2).trans (List.map_id pattern)

end Lowered

/-! ### One pattern -/

section Pattern

variable (toLowerCase : List Char → List Char) (pattern host : List Char)

/-- The pattern is in lower case and stands for the host, question marks taken literally. -/
def MatchesAsWritten : Prop :=
  toLowerCase pattern = pattern ∧ fits (literalAtoms pattern) host = true

/-- The pattern stands for the host once it is in lower case, or the host is the bare domain behind
    its leading `*.` or `**.`. -/
def MatchesByCaseOrDomain : Prop :=
  (toLowerCase pattern ≠ pattern ∧ fits (literalAtoms (toLowerCase pattern)) host = true) ∨
    ∃ domain, bareDomain (toLowerCase pattern) = some domain ∧
      fits (literalAtoms domain) host = true

/-- The pattern is in lower case and stands for the host only with a question mark for some other
    character. -/
def MatchesByQuestionMark : Prop :=
  toLowerCase pattern = pattern ∧ fits (wildcardAtoms pattern) host = true ∧
    ¬ fits (literalAtoms pattern) host = true

end Pattern

section Reading

variable {toLowerCase : List Char → List Char} {pattern host : List Char}

/-- What the filter makes of a pattern. -/
theorem covers_iff : covers (toLowerCase pattern) host = true ↔
    MatchesAsWritten toLowerCase pattern host ∨ MatchesByCaseOrDomain toLowerCase pattern host := by
  rw [covers, Bool.or_eq_true, Option.any_eq_true]
  constructor
  · rintro (hfits | hdomain)
    · by_cases hwritten : toLowerCase pattern = pattern
      · rw [hwritten] at hfits
        exact .inl ⟨hwritten, hfits⟩
      · exact .inr (.inl ⟨hwritten, hfits⟩)
    · exact .inr (.inr hdomain)
  · rintro (⟨hwritten, hfits⟩ | ⟨-, hfits⟩ | hdomain)
    · rw [hwritten]
      exact .inl hfits
    · exact .inl hfits
    · exact .inr hdomain

theorem wildcardAtoms_covers (s : List Char) :
    List.Forall₂ Atom.Covers (wildcardAtoms s) (literalAtoms s) := by
  induction s with
  | nil => exact .nil
  | cons c s ih =>
    refine .cons ?_ ih
    dsimp only
    split
    case isTrue => exact .inl rfl
    case isFalse =>
      split
      case isTrue => exact .inr ⟨rfl, nofun⟩
      case isFalse => exact .inl rfl

/-- What the proxy makes of it. -/
theorem shExpMatch_iff (hlower : LowersAscii toLowerCase) (hhost : ∀ c ∈ host, Lower c) :
    shExpMatch host pattern = true ↔ MatchesAsWritten toLowerCase pattern host ∨
      MatchesByQuestionMark toLowerCase pattern host := by
  constructor
  · intro hmatch
    have hwritten : toLowerCase pattern = pattern := by
      by_contra hne
      obtain ⟨c, hc, hnot⟩ := exists_not_lower hlower hne
      have hliteral : .lit c ∈ wildcardAtoms pattern := by
        refine List.mem_map.mpr ⟨c, hc, ?_⟩
        rw [if_neg, if_neg]
        · rintro rfl
          exact hnot (by unfold Lower; decide)
        · rintro rfl
          exact hnot (by unfold Lower; decide)
      exact hnot (hhost c (mem_of_fits hliteral hmatch))
    by_cases hfits : fits (literalAtoms pattern) host = true
    · exact .inl ⟨hwritten, hfits⟩
    · exact .inr ⟨hwritten, hmatch, hfits⟩
  · rintro (⟨-, hfits⟩ | ⟨-, hmatch, -⟩)
    · exact fits_mono (wildcardAtoms_covers pattern) hfits
    · exact hmatch

end Reading

/-! ### The two sides -/

section Agreement

variable {toLowerCase : List Char → List Char} {proxy_host : List Char} {proxy_port : ℕ}
  {networkHosts : List (List Char)} {host : List Char}

theorem or_iff_or_iff {p q r : Prop} : (p ∨ q ↔ p ∨ r) ↔ p ∨ (r ↔ q) := by
  by_cases hp : p
  · simp [hp]
  · simp [hp, Iff.comm]

theorem proxyDirective_ne : proxyDirective proxy_host proxy_port ≠ "DIRECT".toList := by
  have hproxy : "PROXY ".toList.head? = some 'P' := by decide +kernel
  have hdirect : "DIRECT".toList.head? = some 'D' := by decide +kernel
  unfold proxyDirective
  generalize "DIRECT".toList = direct at hdirect ⊢
  generalize "PROXY ".toList = proxy at hproxy ⊢
  rintro rfl
  rw [List.append_assoc, List.append_assoc, List.head?_append, hproxy] at hdirect
  exact absurd (Option.some.inj hdirect) (by decide)

/-- Where the script sends a host. -/
theorem findProxyForURL_generate (hne : networkHosts ≠ []) :
    findProxyForURL toLowerCase host (generate_pac_script proxy_host proxy_port networkHosts) =
      some (if networkHosts.any (shExpMatch (toLowerCase host))
        then proxyDirective proxy_host proxy_port else "DIRECT".toList) := by
  cases networkHosts with
  | nil => exact absurd rfl hne
  | cons pattern patterns =>
    rw [findProxyForURL, parseScript_generate]
    generalize "DIRECT".toList = direct
    rw [Option.bind_some, runStatements, runStatements, Option.bind_some, runStatements]
    split <;> rfl

/-- **The PAC allowlist and the capture filter.**  For every list and every host, the script sends
    the host through the proxy exactly when the filter keeps it, which it does as documented, if
    and only if some pattern covers the host as it is written, or a pattern covers it only by its
    case or its bare domain just when one does so only by a question mark. -/
theorem pac_agrees_iff (hlower : LowersAscii toLowerCase) (hne : networkHosts ≠ [])
    (hhost : IsHostname host) :
    ((findProxyForURL toLowerCase host
          (generate_pac_script proxy_host proxy_port networkHosts) =
        some (proxyDirective proxy_host proxy_port) ↔
      hostMatchesAny toLowerCase host (some networkHosts) = some true) ∧
    (hostMatchesAny toLowerCase host (some networkHosts) = some true ↔
      ∃ pattern ∈ networkHosts, covers (toLowerCase pattern) (toLowerCase host) = true)) ↔
    ((∃ pattern ∈ networkHosts, MatchesAsWritten toLowerCase pattern (toLowerCase host)) ∨
      ((∃ pattern ∈ networkHosts, MatchesByCaseOrDomain toLowerCase pattern (toLowerCase host)) ↔
        ∃ pattern ∈ networkHosts, MatchesByQuestionMark toLowerCase pattern (toLowerCase host))) := by
  have hlowered := lowered_host hlower hhost
  have hfilter : hostMatchesAny toLowerCase host (some networkHosts) = some true ↔
      ∃ pattern ∈ networkHosts, covers (toLowerCase pattern) (toLowerCase host) = true := by
    rw [hostMatchesAny_eq (fun c hc => (hlowered c hc).2) hne, Option.some_inj, List.any_eq_true]
  have hproxy : findProxyForURL toLowerCase host
      (generate_pac_script proxy_host proxy_port networkHosts) =
        some (proxyDirective proxy_host proxy_port) ↔
      ∃ pattern ∈ networkHosts, shExpMatch (toLowerCase host) pattern = true := by
    rw [findProxyForURL_generate hne, Option.some_inj, ← List.any_eq_true]
    constructor
    · intro heq
      by_contra hnot
      rw [if_neg hnot] at heq
      exact proxyDirective_ne heq.symm
    · exact fun hany => if_pos hany
  rw [and_iff_left hfilter, hproxy, hfilter]
  simp only [covers_iff, shExpMatch_iff hlower fun c hc => (hlowered c hc).1, and_or_left,
    exists_or]
  exact or_iff_or_iff

/-- A host that the proxy and the filter both take. -/
theorem pac_agrees_iff_api :
    let lower : List Char → List Char := List.map Char.toLower
    let networkHosts := ["*.example.com".toList, "localhost".toList]
    findProxyForURL lower "API.example.com".toList
        (generate_pac_script "10.0.0.2".toList 9000 networkHosts) =
      some (proxyDirective "10.0.0.2".toList 9000) ∧
    hostMatchesAny lower "API.example.com".toList (some networkHosts) = some true := by
  intro lower networkHosts
  have hwritten : ∃ pattern ∈ networkHosts,
      MatchesAsWritten lower pattern (lower "API.example.com".toList) := by
    refine ⟨"*.example.com".toList, List.mem_cons_self, ?_⟩
    unfold MatchesAsWritten
    decide +kernel
  obtain ⟨hagree, hkeeps⟩ := (pac_agrees_iff (fun _ _ => rfl) (by decide +kernel)
    (by unfold IsHostname; decide +kernel)).mpr (.inl hwritten)
  have hkept := hkeeps.mpr ⟨"*.example.com".toList, List.mem_cons_self, by decide +kernel⟩
  exact ⟨hagree.mpr hkept, hkept⟩

/-- The bare domain of a leading `*.`, a pattern with upper-case letters, and a question mark. -/
theorem pac_disagrees :
    let lower : List Char → List Char := List.map Char.toLower
    let proxied := fun (pattern host : String) =>
      findProxyForURL lower host.toList
        (generate_pac_script "10.0.0.2".toList 9000 [pattern.toList]) =
          some (proxyDirective "10.0.0.2".toList 9000)
    let kept := fun (pattern host : String) =>
      hostMatchesAny lower host.toList (some [pattern.toList]) = some true
    (¬ proxied "*.example.com" "example.com" ∧ kept "*.example.com" "example.com") ∧
      (¬ proxied "API.example.com" "api.example.com" ∧ kept "API.example.com" "api.example.com") ∧
      (proxied "api?.example.com" "api1.example.com" ∧
        ¬ kept "api?.example.com" "api1.example.com") := by
  decide +kernel

end Agreement

end Tapsmith.Trace
