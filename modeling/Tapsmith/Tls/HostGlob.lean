import Tapsmith.Lib.Regex.Flagged
import Tapsmith.Route.Glob
import Tapsmith.Trace.Allowlist

namespace Tapsmith.Tls

open Lib.Glob Lib.Regex Tapsmith.Route Tapsmith.Trace

/-!
# Host globs of the daemon

`compile_host_glob` of `network_proxy.rs` decides which hosts are tunnelled; the SDK's
`trace/filter-hosts.ts` (`Trace.FilterHosts`) decides with the same patterns which requests are
kept.

* `compile_host_glob` — from a pattern to what the `regex` crate makes of its source;
* `HostCovers` — what the documentation says a pattern covers;
* `host_globs_agree` — both sides decide that.
-/

/-! ### The compiler -/

/-- `pattern.strip_prefix("**.").or_else(|| pattern.strip_prefix("*."))`. -/
def stripSubdomain : List Char → Option (List Char)
  | '*' :: '*' :: '.' :: tail => some tail
  | '*' :: '.' :: tail => some tail
  | _ => none

/-- The source that `compile_host_glob` writes. -/
def hostGlobSource (crate : RegexCrate) (pattern : List Char) : List Char :=
  let pattern := pattern.map Char.toLower
  let optional_subdomain := (stripSubdomain pattern).isSome
  let body := (stripSubdomain pattern).getD pattern
  "(?i)^".toList ++ (if optional_subdomain then "(?:.*\\.)?".toList else []) ++
    body.flatMap (fun ch => if ch = '*' then ".*".toList else crate.escape [ch]) ++ ['$']

def compile_host_glob (crate : RegexCrate) (pattern : List Char) : Option (List Char → Bool) :=
  crate.new (hostGlobSource crate pattern)

/-! ### The crate -/

/-- The syntax behind the flag `i`, where `fold` is simple case folding. -/
def insensitive (fold : Char → Char) : Flagged.Syntax where
  escapable c := c ∈ metaCharacters
  dot c := c ≠ '\n'
  same c a := fold c = fold a

/-- What the crate documents of sources with the flag `i`. -/
structure IgnoresCase (crate : RegexCrate) (fold : Char → Char) : Prop where
  escape : ∀ s, crate.escape s = s.flatMap fun c => if c ∈ metaCharacters then ['\\', c] else [c]
  /-- folding is that of ASCII there -/
  ascii : ∀ c a : Char, c.toNat < 128 → a.toNat < 128 →
    (fold c = fold a ↔ c.toLower = a.toLower)
  accepts : ∀ source r, Flagged.parse (insensitive fold) source = some r →
    crate.tooLarge source = false → (crate.new source).isSome
  decides : ∀ source r m, Flagged.parse (insensitive fold) source = some r →
    crate.new source = some m → ∀ host, m host = true ↔ r.Matches host

/-! ### What a pattern covers -/

/-- A star is any run, every other character is one that is the same. -/
inductive Spells (same : Char → Char → Prop) : List Char → List Char → Prop
  | nil : Spells same [] []
  | star (u : List Char) {p t : List Char} : Spells same p t → Spells same ('*' :: p) (u ++ t)
  | literal {c a : Char} {p t : List Char} : c ≠ '*' → same c a → Spells same p t →
      Spells same (c :: p) (a :: t)

/-- The characters are the same up to their case. -/
def SameLetter (c a : Char) : Prop := c.toLower = a.toLower

/-- A leading `*.` or `**.` may be left out. -/
def HostCovers (pattern host : List Char) : Prop :=
  Spells SameLetter pattern host ∨
    ∃ domain, (pattern = "*.".toList ++ domain ∨ pattern = "**.".toList ++ domain) ∧
      Spells SameLetter domain host

section Spells

variable {same : Char → Char → Prop} {p t : List Char}

theorem spells_nil : Spells same [] t ↔ t = [] := by
  constructor
  · intro h
    cases h
    rfl
  · rintro rfl
    exact .nil

theorem spells_star : Spells same ('*' :: p) t ↔ ∃ u v, t = u ++ v ∧ Spells same p v := by
  constructor
  · intro h
    cases h with
    | star u h => exact ⟨u, _, rfl, h⟩
    | literal hne => exact absurd rfl hne
  · rintro ⟨u, v, rfl, h⟩
    exact .star u h

theorem spells_literal {c : Char} (hc : c ≠ '*') :
    Spells same (c :: p) t ↔ ∃ a v, t = a :: v ∧ same c a ∧ Spells same p v := by
  constructor
  · intro h
    cases h with
    | star u h => exact absurd rfl hc
    | literal _ hsame h => exact ⟨_, _, rfl, hsame, h⟩
  · rintro ⟨a, v, rfl, hsame, h⟩
    exact .literal hc hsame h

/-- A pattern whose characters are replaced, stars by stars, spells what it did. -/
theorem spells_map {same' : Char → Char → Prop} {f : Char → Char} (hstar : ∀ c ∈ p, f c = '*' ↔ c = '*')
    (hsame : ∀ c ∈ p, ∀ a ∈ t, same' (f c) a ↔ same c a) :
    Spells same' (p.map f) t ↔ Spells same p t := by
  induction p generalizing t with
  | nil => simp [spells_nil]
  | cons c p ih =>
    have hrest : ∀ d ∈ p, f d = '*' ↔ d = '*' := fun d hd => hstar d (List.mem_cons_of_mem _ hd)
    by_cases hc : c = '*'
    · rw [List.map_cons, (hstar c List.mem_cons_self).mpr hc, hc, spells_star, spells_star]
      refine exists_congr fun u => exists_congr fun v => and_congr_right fun htv => ?_
      subst htv
      exact ih hrest fun d hd a ha =>
        hsame d (List.mem_cons_of_mem _ hd) a (List.mem_append_right u ha)
    · rw [List.map_cons, spells_literal (mt (hstar c List.mem_cons_self).mp hc), spells_literal hc]
      refine exists_congr fun a => exists_congr fun v => and_congr_right fun htv => ?_
      subst htv
      refine and_congr (hsame c List.mem_cons_self a List.mem_cons_self) ?_
      exact ih hrest fun d hd a ha =>
        hsame d (List.mem_cons_of_mem _ hd) a (List.mem_cons_of_mem _ ha)

end Spells

/-- Lower case makes no star, and leaves it alone. -/
theorem toLower_eq_star {c : Char} (hc : c.toNat < 128) : c.toLower = '*' ↔ c = '*' := by
  have hall : ∀ n < 128, (Char.ofNat n).toLower = '*' ↔ Char.ofNat n = '*' := by decide +kernel
  have hchar := hall c.toNat hc
  rwa [Char.ofNat_toNat] at hchar

theorem toLower_toLower {c : Char} (hc : c.toNat < 128) :
    c.toLower.toNat < 128 ∧ c.toLower.toLower = c.toLower := by
  have hall : ∀ n < 128, (Char.ofNat n).toLower.toNat < 128 ∧
      (Char.ofNat n).toLower.toLower = (Char.ofNat n).toLower := by decide +kernel
  have hchar := hall c.toNat hc
  rwa [Char.ofNat_toNat] at hchar

/-- In lower case, a pattern spells what its glob fits. -/
theorem spells_iff_fits {p t : List Char} (hp : ∀ c ∈ p, c.toNat < 128) :
    Spells SameLetter p t ↔ fits (literalAtoms (p.map Char.toLower)) (t.map Char.toLower) = true := by
  induction p generalizing t with
  | nil => simp [spells_nil, literalAtoms, fits_nil]
  | cons c p ih =>
    have hrest : ∀ d ∈ p, d.toNat < 128 := fun d hd => hp d (List.mem_cons_of_mem _ hd)
    have hlower := toLower_eq_star (hp c List.mem_cons_self)
    by_cases hstar : c = '*'
    · have hatoms : literalAtoms ((c :: p).map Char.toLower) =
          .run :: literalAtoms (p.map Char.toLower) := by
        simp [literalAtoms, hlower.mpr hstar]
      rw [hatoms, fits_run, hstar, spells_star]
      constructor
      · rintro ⟨u, v, rfl, hv⟩
        exact ⟨u.map Char.toLower, v.map Char.toLower, List.map_append, (ih hrest).mp hv⟩
      · rintro ⟨u, v, huv, hv⟩
        obtain ⟨u', v', rfl, rfl, rfl⟩ := List.map_eq_append_iff.mp huv
        exact ⟨u', v', rfl, (ih hrest).mpr hv⟩
    · have hatoms : literalAtoms ((c :: p).map Char.toLower) =
          .lit c.toLower :: literalAtoms (p.map Char.toLower) := by
        simp [literalAtoms, mt hlower.mp hstar]
      rw [hatoms, fits_lit, spells_literal hstar]
      constructor
      · rintro ⟨a, v, rfl, hsame, hv⟩
        refine ⟨v.map Char.toLower, ?_, (ih hrest).mp hv⟩
        rw [List.map_cons, show a.toLower = c.toLower from hsame.symm]
      · rintro ⟨v, htv, hv⟩
        obtain ⟨a, v', rfl, hsame, rfl⟩ := List.map_eq_cons_iff.mp htv
        exact ⟨a, v', rfl, hsame.symm, (ih hrest).mpr hv⟩

theorem stripSubdomain_eq_some {p domain : List Char} :
    stripSubdomain p = some domain ↔ p = "*.".toList ++ domain ∨ p = "**.".toList ++ domain := by
  constructor
  · intro h
    unfold stripSubdomain at h
    split at h
    · exact .inr (by rw [← Option.some.inj h]; rfl)
    · exact .inl (by rw [← Option.some.inj h]; rfl)
    · cases h
  · rintro (rfl | rfl)
    · rfl
    · rfl

theorem bareDomain_eq_some {p domain : List Char} :
    bareDomain p = some domain ↔ p = "*.".toList ++ domain ∨ p = "**.".toList ++ domain := by
  constructor
  · intro h
    unfold bareDomain at h
    split at h
    · exact .inl (by rw [← Option.some.inj h]; rfl)
    · exact .inr (by rw [← Option.some.inj h]; rfl)
    · cases h
  · rintro (rfl | rfl)
    · rfl
    · rfl

theorem toLower_eq_dot {c : Char} (hc : c.toNat < 128) : c.toLower = '.' ↔ c = '.' := by
  have hall : ∀ n < 128, (Char.ofNat n).toLower = '.' ↔ Char.ofNat n = '.' := by decide +kernel
  have hchar := hall c.toNat hc
  rwa [Char.ofNat_toNat] at hchar

/-- Lower case leaves the prefix alone. -/
theorem map_toLower_eq {p domain : List Char} (front : List Char) (hp : ∀ c ∈ p, c.toNat < 128)
    (hfront : ∀ f ∈ front, f = '*' ∨ f = '.') :
    p.map Char.toLower = front ++ domain ↔
      ∃ tail, p = front ++ tail ∧ tail.map Char.toLower = domain := by
  constructor
  · intro h
    obtain ⟨u, tail, rfl, hu, htail⟩ := List.map_eq_append_iff.mp h
    refine ⟨tail, ?_, htail⟩
    have hsame : u.map Char.toLower = u := by
      refine (List.map_congr_left fun c hc => ?_).trans (List.map_id u)
      have hascii := hp c (List.mem_append_left _ hc)
      have hmem : c.toLower ∈ front := hu ▸ List.mem_map_of_mem hc
      rcases hfront _ hmem with hstar | hdot
      · rw [hstar, (toLower_eq_star hascii).mp hstar]
        rfl
      · rw [hdot, (toLower_eq_dot hascii).mp hdot]
        rfl
    rw [← hu, hsame]
  · rintro ⟨tail, rfl, rfl⟩
    rw [List.map_append]
    congr 1
    refine (List.map_congr_left fun c hc => ?_).trans (List.map_id front)
    rcases hfront c hc with rfl | rfl
    · rfl
    · rfl

theorem stripSubdomain_map {p : List Char} (hp : ∀ c ∈ p, c.toNat < 128) :
    stripSubdomain (p.map Char.toLower) = (stripSubdomain p).map (List.map Char.toLower) := by
  ext domain
  rw [stripSubdomain_eq_some, map_toLower_eq "*.".toList hp (by decide),
    map_toLower_eq "**.".toList hp (by decide), Option.map_eq_some_iff, ← exists_or]
  refine exists_congr fun tail => ?_
  rw [stripSubdomain_eq_some, or_and_right]

theorem ascii_tail {p tail : List Char} (hp : ∀ c ∈ p, c.toNat < 128)
    (hstrip : stripSubdomain p = some tail) : ∀ c ∈ tail, c.toNat < 128 := by
  intro c hc
  rcases stripSubdomain_eq_some.mp hstrip with rfl | rfl
  · exact hp c (List.mem_append_right _ hc)
  · exact hp c (List.mem_append_right _ hc)

/-- What a pattern covers does not depend on its case, and its bare domain is what it says. -/
theorem hostCovers_iff {pattern host : List Char} (hpattern : ∀ c ∈ pattern, c.toNat < 128) :
    HostCovers pattern host ↔
      fits (literalAtoms (pattern.map Char.toLower)) (host.map Char.toLower) = true ∨
        ∃ domain, stripSubdomain (pattern.map Char.toLower) = some domain ∧
          fits (literalAtoms domain) (host.map Char.toLower) = true := by
  refine or_congr (spells_iff_fits hpattern) ?_
  rw [stripSubdomain_map hpattern]
  constructor
  · rintro ⟨tail, hshape, hspells⟩
    have hstrip := stripSubdomain_eq_some.mpr hshape
    exact ⟨tail.map Char.toLower, by rw [hstrip, Option.map_some],
      (spells_iff_fits (ascii_tail hpattern hstrip)).mp hspells⟩
  · rintro ⟨domain, hdomain, hfits⟩
    obtain ⟨tail, hstrip, rfl⟩ := Option.map_eq_some_iff.mp hdomain
    exact ⟨tail, stripSubdomain_eq_some.mp hstrip,
      (spells_iff_fits (ascii_tail hpattern hstrip)).mpr hfits⟩

/-- The filter decides what the documentation says. -/
theorem hostMatchesAny_iff {pattern host : List Char} (hpattern : ∀ c ∈ pattern, c.toNat < 128)
    (hhost : IsHostname host) :
    ∃ matched, hostMatchesAny (List.map Char.toLower) host (some [pattern]) = some matched ∧
      (matched = true ↔ HostCovers pattern host) := by
  have hdot : ∀ c ∈ host.map Char.toLower, Lib.Regex.dot c = true := by
    intro c hc
    obtain ⟨d, hd, rfl⟩ := List.mem_map.mp hc
    exact (lower_toLower (hhost d hd)).2
  refine ⟨_, hostMatchesAny_eq hdot (List.cons_ne_nil _ _), ?_⟩
  rw [hostCovers_iff hpattern, List.any_cons, List.any_nil, Bool.or_false, covers, Bool.or_eq_true,
    Option.any_eq_true]
  refine or_congr_right (exists_congr fun domain => and_congr_left fun _ => ?_)
  rw [bareDomain_eq_some, stripSubdomain_eq_some]

/-! ### What the daemon's source stands for -/

section Source

variable {crate : RegexCrate} {fold : Char → Char}

/-- One character of a pattern. -/
theorem reads_escape (hcrate : IgnoresCase crate fold) (c : Char) :
    Flagged.Reads (insensitive fold) (crate.escape [c]) fun t => ∃ a, t = [a] ∧ fold c = fold a := by
  have hchar := Flagged.Reads.char (S := insensitive fold) (c := c)
    (decide (c ∈ metaCharacters)) id fun hno hmem =>
      of_decide_eq_false hno (List.mem_append_left _ hmem)
  rw [hcrate.escape, List.flatMap_singleton]
  simp only [decide_eq_true_eq] at hchar
  exact hchar.congr fun t => exists_congr fun a => and_congr_right fun _ => decide_eq_true_iff

/-- The body of a pattern. -/
theorem reads_body (hcrate : IgnoresCase crate fold) (body : List Char) :
    Flagged.Reads (insensitive fold)
      (body.flatMap fun ch => if ch = '*' then ".*".toList else crate.escape [ch])
      (Spells (fun c a => fold c = fold a) body) := by
  induction body with
  | nil => exact Flagged.Reads.nil.congr fun t => spells_nil.symm
  | cons c body ih =>
    rw [List.flatMap_cons]
    by_cases hc : c = '*'
    · rw [if_pos hc, hc]
      refine (Flagged.Reads.dots.append ih).congr fun t => ?_
      rw [spells_star]
      simp only [true_and]
    · rw [if_neg hc]
      refine ((reads_escape hcrate c).append ih).congr fun t => ?_
      rw [spells_literal hc]
      constructor
      · rintro ⟨_, v, rfl, ⟨a, rfl, ha⟩, hv⟩
        exact ⟨a, v, rfl, ha, hv⟩
      · rintro ⟨a, v, rfl, ha, hv⟩
        exact ⟨[a], v, rfl, ⟨a, rfl, ha⟩, hv⟩

/-- The group of an optional subdomain. -/
theorem reads_subdomain (hcrate : IgnoresCase crate fold) :
    Flagged.Reads (insensitive fold) "(?:.*\\.)?".toList fun t =>
      t = [] ∨ ∃ u a, t = u ++ [a] ∧ fold '.' = fold a := by
  have hdot := reads_escape hcrate '.'
  rw [hcrate.escape, List.flatMap_singleton, if_pos (by decide)] at hdot
  refine (Flagged.Reads.dots.append hdot).optional.congr fun t => or_congr_right ?_
  constructor
  · rintro ⟨u, _, rfl, -, a, rfl, ha⟩
    exact ⟨u, a, rfl, ha⟩
  · rintro ⟨u, a, rfl, ha⟩
    exact ⟨u, [a], rfl, trivial, a, rfl, ha⟩

/-- On hostnames, folding the pattern in lower case compares letters. -/
theorem spells_fold (hcrate : IgnoresCase crate fold) {p t : List Char}
    (hp : ∀ c ∈ p, c.toNat < 128) (ht : ∀ c ∈ t, c.toNat < 128) :
    Spells (fun c a => fold c = fold a) (p.map Char.toLower) t ↔ Spells SameLetter p t := by
  refine spells_map (fun c hc => toLower_eq_star (hp c hc)) fun c hc a ha => ?_
  obtain ⟨hlower, htwice⟩ := toLower_toLower (hp c hc)
  rw [hcrate.ascii _ _ hlower (ht a ha), htwice]
  rfl

/-- What the documentation says, by the prefix of the pattern. -/
theorem hostCovers_of_strip {pattern tail host : List Char}
    (hstrip : stripSubdomain pattern = some tail) :
    HostCovers pattern host ↔ ∃ u v, host = u ++ v ∧
      (u = [] ∨ ∃ w a, u = w ++ [a] ∧ SameLetter '.' a) ∧ Spells SameLetter tail v := by
  have hdomain : (∃ domain, (pattern = "*.".toList ++ domain ∨ pattern = "**.".toList ++ domain) ∧
      Spells SameLetter domain host) ↔ Spells SameLetter tail host := by
    constructor
    · rintro ⟨domain, hshape, hspells⟩
      rw [← stripSubdomain_eq_some, hstrip] at hshape
      rwa [← Option.some.inj hshape] at hspells
    · exact fun hspells => ⟨tail, stripSubdomain_eq_some.mp hstrip, hspells⟩
  have hstar : Spells SameLetter ('*' :: '.' :: tail) host ↔
      ∃ w a v, host = w ++ a :: v ∧ SameLetter '.' a ∧ Spells SameLetter tail v := by
    rw [spells_star]
    constructor
    · rintro ⟨w, v, rfl, hv⟩
      obtain ⟨a, v, rfl, ha, hv⟩ := (spells_literal (by decide)).mp hv
      exact ⟨w, a, v, rfl, ha, hv⟩
    · rintro ⟨w, a, v, rfl, ha, hv⟩
      exact ⟨w, a :: v, rfl, (spells_literal (by decide)).mpr ⟨a, v, rfl, ha, hv⟩⟩
  have hpattern : Spells SameLetter pattern host ↔ Spells SameLetter ('*' :: '.' :: tail) host := by
    rcases stripSubdomain_eq_some.mp hstrip with rfl | rfl
    · rfl
    · show Spells SameLetter ('*' :: '*' :: '.' :: tail) host ↔ _
      constructor
      · intro h
        obtain ⟨u, w, rfl, hw⟩ := spells_star.mp h
        obtain ⟨u', v, rfl, hv⟩ := spells_star.mp hw
        exact spells_star.mpr ⟨u ++ u', v, (List.append_assoc u u' v).symm, hv⟩
      · exact fun h => .star [] h
  rw [HostCovers, hdomain, hpattern, hstar]
  constructor
  · rintro (⟨w, a, v, rfl, ha, hv⟩ | hspells)
    · exact ⟨w ++ [a], v, (List.append_assoc w [a] v).symm, .inr ⟨w, a, rfl, ha⟩, hv⟩
    · exact ⟨[], host, rfl, .inl rfl, hspells⟩
  · rintro ⟨u, v, rfl, rfl | ⟨w, a, rfl, ha⟩, hv⟩
    · exact .inr hv
    · exact .inl ⟨w, a, v, List.append_assoc w [a] v, ha, hv⟩

theorem hostCovers_of_none {pattern host : List Char} (hstrip : stripSubdomain pattern = none) :
    HostCovers pattern host ↔ Spells SameLetter pattern host := by
  refine or_iff_left ?_
  rintro ⟨domain, hshape, -⟩
  rw [← stripSubdomain_eq_some, hstrip] at hshape
  cases hshape

/-- The source of a pattern stands for the hosts that the pattern covers. -/
theorem parse_hostGlobSource (hcrate : IgnoresCase crate fold) {pattern : List Char}
    (hpattern : ∀ c ∈ pattern, c.toNat < 128) :
    ∃ r, Flagged.parse (insensitive fold) (hostGlobSource crate pattern) = some r ∧
      ∀ host, IsHostname host → (r.Matches host ↔ HostCovers pattern host) := by
  have hdots : ∀ host, IsHostname host → ∀ c ∈ host, (insensitive fold).dot c = true := by
    intro host hhost c hc
    refine decide_eq_true ?_
    rintro rfl
    have hvisible := hhost _ hc
    exact absurd hvisible.1 (by decide)
  have hascii : ∀ host, IsHostname host → ∀ c ∈ host, c.toNat < 128 := by
    intro host hhost c hc
    have hvisible := hhost c hc
    omega
  have hstripped := stripSubdomain_map hpattern
  cases hstrip : stripSubdomain pattern with
  | none =>
    rw [hstrip, Option.map_none] at hstripped
    obtain ⟨r, hparse, hall⟩ := (reads_body hcrate (pattern.map Char.toLower)).parse
    refine ⟨r, ?_, fun host hhost => ?_⟩
    · rw [← hparse, hostGlobSource, hstripped, Option.isSome_none, Option.getD_none,
        if_neg Bool.false_ne_true, List.append_nil]
    · rw [hall host (hdots host hhost), spells_fold hcrate hpattern (hascii host hhost),
        hostCovers_of_none hstrip]
  | some tail =>
    rw [hstrip, Option.map_some] at hstripped
    obtain ⟨r, hparse, hall⟩ :=
      ((reads_subdomain hcrate).append (reads_body hcrate (tail.map Char.toLower))).parse
    refine ⟨r, ?_, fun host hhost => ?_⟩
    · rw [← hparse, hostGlobSource, hstripped, Option.isSome_some, Option.getD_some, if_pos rfl,
        List.append_assoc "(?i)^".toList]
    · rw [hall host (hdots host hhost), hostCovers_of_strip hstrip]
      refine exists_congr fun u => exists_congr fun v => and_congr_right fun hhostEq => ?_
      subst hhostEq
      have hfold := spells_fold hcrate (ascii_tail hpattern hstrip)
        fun c hc => hascii _ hhost c (List.mem_append_right u hc)
      refine and_congr (or_congr_right (exists_congr fun w => exists_congr fun a =>
        and_congr_right fun hu => ?_)) hfold
      subst hu
      have ha : a.toNat < 128 := hascii _ hhost a (by simp)
      rw [hcrate.ascii '.' a (by decide) ha]
      rfl

end Source

/-! ### The two sides -/

/-- **Host globs mean the same on both sides.**  For every ASCII pattern and every hostname, the
    SDK's filter and, unless the source is over the crate's limit, the daemon's expression match the
    host exactly when the pattern covers it as documented. -/
theorem host_globs_agree (crate : RegexCrate) (fold : Char → Char)
    (hcrate : IgnoresCase crate fold) {pattern host : List Char}
    (hpattern : ∀ c ∈ pattern, c.toNat < 128) (hhost : IsHostname host) :
    (∃ matched, hostMatchesAny (List.map Char.toLower) host (some [pattern]) = some matched ∧
      (matched = true ↔ HostCovers pattern host)) ∧
    (crate.tooLarge (hostGlobSource crate pattern) = false →
      ∃ is_match, compile_host_glob crate pattern = some is_match ∧
        (is_match host = true ↔ HostCovers pattern host)) := by
  refine ⟨hostMatchesAny_iff hpattern hhost, fun hsize => ?_⟩
  obtain ⟨r, hparse, hall⟩ := parse_hostGlobSource hcrate hpattern
  obtain ⟨is_match, hnew⟩ := Option.isSome_iff_exists.mp (hcrate.accepts _ r hparse hsize)
  exact ⟨is_match, hnew, (hcrate.decides _ r is_match hparse hnew host).trans (hall host hhost)⟩

/-- A crate that ignores the case of ASCII and decides by derivatives, whatever the size. -/
def byDerivatives : RegexCrate where
  escape s := s.flatMap fun c => if c ∈ metaCharacters then ['\\', c] else [c]
  new source := (Flagged.parse (insensitive Char.toLower) source).map fun r => r.test
  tooLarge _ := false

theorem byDerivatives_new (source : List Char) : byDerivatives.new source =
    (Flagged.parse (insensitive Char.toLower) source).map fun r => r.test := rfl

theorem byDerivatives_ignoresCase : IgnoresCase byDerivatives Char.toLower where
  escape _ := rfl
  ascii _ _ _ _ := Iff.rfl
  accepts source r hparse _ := by
    rw [byDerivatives_new, hparse]
    rfl
  decides source r m hparse hnew host := by
    rw [byDerivatives_new, hparse] at hnew
    obtain rfl := Option.some.inj hnew
    exact RegExp.test_iff

theorem host_globs_agree_byDerivatives :
    (∃ matched, hostMatchesAny (List.map Char.toLower) "API.v1.example.com".toList
        (some ["*.Example.com".toList]) = some matched ∧
      (matched = true ↔ HostCovers "*.Example.com".toList "API.v1.example.com".toList)) ∧
    ∃ is_match, compile_host_glob byDerivatives "*.Example.com".toList = some is_match ∧
      (is_match "API.v1.example.com".toList = true ↔
        HostCovers "*.Example.com".toList "API.v1.example.com".toList) := by
  have hboth := host_globs_agree byDerivatives Char.toLower byDerivatives_ignoresCase
    (by decide : ∀ c ∈ "*.Example.com".toList, c.toNat < 128)
    (by unfold IsHostname; decide : IsHostname "API.v1.example.com".toList)
  exact ⟨hboth.1, hboth.2 rfl⟩

end Tapsmith.Tls
