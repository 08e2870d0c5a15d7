import Tapsmith.Lib.Glob
import Tapsmith.Lib.Regex

namespace Tapsmith.Trace

open Lib.Glob Lib.Regex

/-!
# Host patterns of the capture filter

`filter-hosts.ts` turns each pattern of `trace.networkHosts` into the source of a regular expression
and tests hosts with it.  A text is a list of characters; `toLowerCase` is the one of the
language.

* `compilePattern` — the source and the expression the engine reads from it;
* `compilePattern_test` — it tests what the documentation of the patterns says;
* `hostMatchesAny_eq` — so `hostMatchesAny` never throws and looks for a covering pattern.
-/

/-! ### The filter -/

def escapeForRegex (s : List Char) : List Char :=
  (s.flatMap fun c =>
    if c ∈ ['.', '+', '?', '^', '$', '{', '}', '(', ')', '|', '[', ']', '\\'] then ['\\', c]
    else [c]).flatMap fun c => if c = '*' then ['\\', '*'] else [c]

/-- `.replace(/\\\*/g, '.*')`. -/
def expandStars : List Char → List Char
  | [] => []
  | '\\' :: '*' :: rest => '.' :: '*' :: expandStars rest
  | c :: rest => c :: expandStars rest

section Filter

variable (toLowerCase : List Char → List Char)

/-- The expression, unless the engine does not take its source. -/
def compilePattern (pattern : List Char) : Option (RegExp Char) :=
  let lowered := toLowerCase pattern
  if "*.".toList.isPrefixOf lowered || "**.".toList.isPrefixOf lowered then
    -- `lowered.replace(/^\*+\./, '')`
    let tail := (lowered.dropWhile (· = '*')).drop 1
    parse ("^(?:.*\\.)?".toList ++ expandStars (escapeForRegex tail) ++ ['$'])
  else parse ('^' :: expandStars (escapeForRegex lowered) ++ ['$'])

/-- The loop over the patterns. -/
def testPatterns (normalized : List Char) : List (List Char) → Option Bool
  | [] => some false
  | pattern :: patterns =>
    (compilePattern toLowerCase pattern).bind fun r =>
      if r.test normalized then some true else testPatterns normalized patterns

def hostMatchesAny (host : List Char) (patterns : Option (List (List Char))) : Option Bool :=
  let patterns := patterns.getD []
  if patterns = [] then some true else testPatterns toLowerCase (toLowerCase host) patterns

end Filter

/-! ### What the patterns mean -/

/-- A star is any run of characters, everything else is itself. -/
def literalAtoms (s : List Char) : List (Atom Char) :=
  s.map fun c => if c = '*' then .run else .lit c

/-- What a pattern with an optional subdomain says of the domain itself. -/
def bareDomain : List Char → Option (List Char)
  | '*' :: '.' :: domain => some domain
  | '*' :: '*' :: '.' :: domain => some domain
  | _ => none

/-- Whether a pattern covers a host, both in lower case. -/
def covers (pattern host : List Char) : Bool :=
  fits (literalAtoms pattern) host ||
    (bareDomain pattern).any fun domain => fits (literalAtoms domain) host

/-! ### The source of the expression -/

/-- The source that stands for a text literally, stars aside. -/
def literalSource (s : List Char) : List Char :=
  s.flatMap fun c =>
    if c = '*' then ['.', '*'] else if c ∈ syntaxCharacters then ['\\', c] else [c]

theorem expandStars_cons {c : Char} (hc : c ≠ '\\') (rest : List Char) :
    expandStars (c :: rest) = c :: expandStars rest := by
  rw [expandStars]
  rintro rest' rfl
  exact absurd rfl hc

theorem expandStars_backslash {rest : List Char} (h : rest.head? ≠ some '*') :
    expandStars ('\\' :: rest) = '\\' :: expandStars rest := by
  rw [expandStars]
  rintro rest' - rfl
  exact h rfl

theorem escapeForRegex_cons (c : Char) (s : List Char) :
    escapeForRegex (c :: s) = escapeForRegex [c] ++ escapeForRegex s := by
  simp [escapeForRegex]

/-- Stars aside, what is escaped is what has a meaning of its own. -/
theorem escapeForRegex_singleton {c : Char} (hc : c ≠ '*') :
    escapeForRegex [c] = if c ∈ syntaxCharacters then ['\\', c] else [c] := by
  have hmem : c ∈ ['.', '+', '?', '^', '$', '{', '}', '(', ')', '|', '[', ']', '\\'] ↔
      c ∈ syntaxCharacters := by
    simp only [syntaxCharacters, List.mem_cons, List.not_mem_nil, hc, false_or]
    tauto
  rw [escapeForRegex, List.flatMap_singleton, if_congr hmem rfl rfl]
  split <;> simp [hc]

/-- An escaped text does not begin with a star, so that a backslash in front of it stays. -/
theorem head_escapeForRegex (s : List Char) : (escapeForRegex s).head? ≠ some '*' := by
  cases s with
  | nil => exact nofun
  | cons c s =>
    rw [escapeForRegex_cons]
    by_cases hstar : c = '*'
    · subst hstar
      exact (by decide : some '\\' ≠ some '*')
    · rw [escapeForRegex_singleton hstar]
      split
      · exact (by decide : some '\\' ≠ some '*')
      · exact fun h => hstar (Option.some.inj h)

theorem expandStars_escapeForRegex (s : List Char) :
    expandStars (escapeForRegex s) = literalSource s := by
  induction s with
  | nil => rfl
  | cons c s ih =>
    rw [escapeForRegex_cons, literalSource, List.flatMap_cons]
    change _ = _ ++ literalSource s
    rw [← ih]
    by_cases hstar : c = '*'
    · subst hstar
      rfl
    rw [escapeForRegex_singleton hstar, if_neg hstar]
    split
    case isTrue hsyntax =>
      have hhead : (c :: escapeForRegex s).head? ≠ some '*' := fun h => hstar (Option.some.inj h)
      refine (expandStars_backslash hhead).trans (congrArg ('\\' :: ·) ?_)
      by_cases hback : c = '\\'
      · subst hback
        exact expandStars_backslash (head_escapeForRegex s)
      · exact expandStars_cons hback _
    case isFalse hsyntax =>
      refine expandStars_cons ?_ _
      rintro rfl
      exact hsyntax (by decide)

/-! ### The expression -/

theorem lex_literalSource (s rest : List Char) :
    lex (literalSource s ++ rest) = (lex rest).map (literalTokens s ++ ·) := by
  induction s with
  | nil => exact Option.map_id.symm ▸ rfl
  | cons c s ih =>
    rw [literalSource, List.flatMap_cons, literalTokens, List.flatMap_cons]
    change lex ((_ ++ literalSource s) ++ rest) = (lex rest).map ((_ ++ literalTokens s) ++ ·)
    rw [List.append_assoc]
    by_cases hstar : c = '*'
    · subst hstar
      refine (lex_dots (literalSource s ++ rest)).trans ?_
      rw [ih, Option.map_map]
      rfl
    · rw [if_neg hstar, if_neg hstar]
      have hchr : lex ((if c ∈ syntaxCharacters then ['\\', c] else [c]) ++
          (literalSource s ++ rest)) = (lex (literalSource s ++ rest)).map (.chr c :: ·) := by
        split
        case isTrue hsyntax => exact lex_escaped hsyntax _
        case isFalse hsyntax => exact lex_plain hsyntax _
      rw [hchr, ih, Option.map_map]
      rfl

/-- Reading the terms of a text adds its glob to the group. -/
theorem parseTerms_literalTokens (s : List Char) (rest : List Token) (around : List Group)
    (g : Group) : ∃ g' : Group,
      parseTerms (literalTokens s ++ rest) around g = parseTerms rest around g' ∧
      ∀ t : List Char, (∀ c ∈ t, dot c = true) → (g'.all.Matches t ↔
        ∃ u v, t = u ++ v ∧ g.all.Matches u ∧ fits (literalAtoms s) v = true) := by
  induction s generalizing g with
  | nil =>
    refine ⟨g, rfl, fun t _ => ?_⟩
    simp [literalAtoms, fits_nil]
  | cons c s ih =>
    by_cases hstar : c = '*'
    · subst hstar
      obtain ⟨g', hparse, hmatches⟩ := ih { done := .cat g.all (.star (.set dot)) }
      refine ⟨g', hparse, fun t ht => (hmatches t ht).trans ?_⟩
      constructor
      · rintro ⟨w, v, rfl, ⟨u, dots, rfl, hu, -⟩, hfits⟩
        exact ⟨u, dots ++ v, List.append_assoc _ _ _, hu, fits_run.mpr ⟨dots, v, rfl, hfits⟩⟩
      · rintro ⟨u, w, rfl, hu, hfits⟩
        obtain ⟨dots, v, rfl, hrest⟩ := fits_run.mp hfits
        refine ⟨u ++ dots, v, (List.append_assoc _ _ _).symm, ⟨u, dots, rfl, hu, ?_⟩, hrest⟩
        exact matches_dots.mpr fun d hd => ht d (by simp [hd])
    · have hcons : literalTokens (c :: s) = .chr c :: literalTokens s := by
        simp [literalTokens, hstar]
      have hatoms : literalAtoms (c :: s) = .lit c :: literalAtoms s := by
        simp [literalAtoms, hstar]
      obtain ⟨g', hparse, hmatches⟩ := ih (g.push (.set (· = c)))
      rw [hcons, hatoms]
      refine ⟨g', hparse, fun t ht => (hmatches t ht).trans ?_⟩
      constructor
      · rintro ⟨w, v, rfl, ⟨u, single, rfl, hu, d, rfl, hd⟩, hfits⟩
        obtain rfl := of_decide_eq_true hd
        exact ⟨u, d :: v, List.append_assoc u [d] v, hu, fits_lit.mpr ⟨v, rfl, hfits⟩⟩
      · rintro ⟨u, w, rfl, hu, hfits⟩
        obtain ⟨v, rfl, hrest⟩ := fits_lit.mp hfits
        exact ⟨u ++ [c], v, (List.append_assoc u [c] v).symm,
          ⟨u, [c], rfl, hu, c, rfl, decide_eq_true rfl⟩, hrest⟩

/-- The source of an optional subdomain. -/
theorem lex_subdomain (rest : List Char) : lex ("^(?:.*\\.)?".toList ++ rest) =
    (lex rest).map ([.start, .openGroup, .dot, .star, .chr '.', .closeGroup, .opt] ++ ·) := by
  have hopt : lex ('?' :: rest) = (lex rest).map (.opt :: ·) := by
    rw [lex]
    · rfl
    · simp
    · simp
  have hclose : lex (')' :: '?' :: rest) = (lex rest).map ([.closeGroup, .opt] ++ ·) := by
    rw [lex, hopt]
    · exact Option.map_map _ _ _
    · simp
    · simp
  have hgroup : lex ('(' :: '?' :: ':' :: '.' :: '*' :: '\\' :: '.' :: ')' :: '?' :: rest) =
      (lex rest).map ([.openGroup, .dot, .star, .chr '.', .closeGroup, .opt] ++ ·) := by
    rw [lex, lex_dots, lex_escaped (by decide), hclose, Option.map_map, Option.map_map,
      Option.map_map]
    rfl
  change lex ('^' :: '(' :: '?' :: ':' :: '.' :: '*' :: '\\' :: '.' :: ')' :: '?' :: rest) = _
  rw [lex, hgroup]
  · exact Option.map_map _ _ _
  · simp
  · simp

theorem lex_finish : lex ['$'] = some [.finish] := by decide

/-- A pattern without an optional subdomain. -/
theorem parse_literalSource (s : List Char) : ∃ r, parse ('^' :: literalSource s ++ ['$']) = some r ∧
    ∀ t : List Char, (∀ c ∈ t, dot c = true) → r.test t = fits (literalAtoms s) t := by
  obtain ⟨g, hparse, hmatches⟩ := parseTerms_literalTokens s [.finish] [] {}
  have hlex : lex ('^' :: (literalSource s ++ ['$'])) =
      some (.start :: (literalTokens s ++ [.finish])) := by
    rw [lex, lex_literalSource, lex_finish]
    · rfl
    · simp
    · simp
  refine ⟨g.all, ?_, ?_⟩
  · rw [List.cons_append, parse, hlex]
    exact hparse
  · intro t ht
    rw [Bool.eq_iff_iff, RegExp.test_iff, hmatches t ht]
    constructor
    · rintro ⟨u, v, rfl, rfl, hfits⟩
      exact hfits
    · exact fun hfits => ⟨[], t, rfl, rfl, hfits⟩

/-- A pattern with one. -/
theorem parse_subdomain (s : List Char) :
    ∃ r, parse ("^(?:.*\\.)?".toList ++ literalSource s ++ ['$']) = some r ∧
      ∀ t : List Char, (∀ c ∈ t, dot c = true) → r.test t =
        (fits (.run :: .lit '.' :: literalAtoms s) t || fits (literalAtoms s) t) := by
  obtain ⟨g, hparse, hmatches⟩ := parseTerms_literalTokens s [.finish] []
    { done := .cat .empty
        (.opt (.cat (.cat .empty (.star (.set dot))) (.set (· = '.')))) }
  have hlex : lex ("^(?:.*\\.)?".toList ++ (literalSource s ++ ['$'])) =
      some ([.start, .openGroup, .dot, .star, .chr '.', .closeGroup, .opt] ++
        (literalTokens s ++ [.finish])) := by
    rw [lex_subdomain, lex_literalSource, lex_finish]
    rfl
  refine ⟨g.all, ?_, ?_⟩
  · rw [List.append_assoc, parse, hlex]
    exact hparse
  · intro t ht
    rw [Bool.eq_iff_iff, RegExp.test_iff, hmatches t ht, Bool.or_eq_true]
    constructor
    · rintro ⟨u, v, rfl, ⟨_, w, rfl, rfl, hw⟩, hfits⟩
      rcases hw with rfl | ⟨_, _, rfl, ⟨_, dots, rfl, rfl, -⟩, ⟨c, rfl, hc⟩⟩
      · exact .inr hfits
      · obtain rfl := of_decide_eq_true hc
        refine .inl (fits_run.mpr ⟨dots, '.' :: v, ?_, fits_lit.mpr ⟨v, rfl, hfits⟩⟩)
        simp
    · rintro (hfits | hfits)
      · obtain ⟨dots, w, rfl, hrest⟩ := fits_run.mp hfits
        obtain ⟨v, rfl, hrest⟩ := fits_lit.mp hrest
        have hdots : ∀ c ∈ dots, dot c = true := fun c hc => ht c (List.mem_append_left _ hc)
        exact ⟨dots ++ ['.'], v, by simp, ⟨[], _, rfl, rfl, .inr ⟨dots, ['.'], rfl,
          ⟨[], dots, rfl, rfl, matches_dots.mpr hdots⟩, ⟨'.', rfl, by decide⟩⟩⟩, hrest⟩
      · exact ⟨[], t, rfl, ⟨[], [], rfl, rfl, .inl rfl⟩, hfits⟩

section Covers

variable {toLowerCase : List Char → List Char}

/-- **The expression of a pattern** tests whether the pattern covers the host. -/
theorem compilePattern_test (pattern : List Char) :
    ∃ r, compilePattern toLowerCase pattern = some r ∧
      ∀ t : List Char, (∀ c ∈ t, dot c = true) → r.test t = covers (toLowerCase pattern) t := by
  unfold compilePattern
  generalize toLowerCase pattern = lowered
  dsimp only
  rw [expandStars_escapeForRegex, expandStars_escapeForRegex]
  split
  case isTrue hbefore =>
    rw [Bool.or_eq_true, List.isPrefixOf_iff_prefix, List.isPrefixOf_iff_prefix] at hbefore
    rcases hbefore with ⟨domain, rfl⟩ | ⟨domain, rfl⟩
    · obtain ⟨r, hparse, htest⟩ := parse_subdomain domain
      refine ⟨r, hparse, fun t ht => ?_⟩
      rw [htest t ht]
      rfl
    · obtain ⟨r, hparse, htest⟩ := parse_subdomain domain
      refine ⟨r, hparse, fun t ht => ?_⟩
      rw [htest t ht, ← fits_run_run]
      rfl
  case isFalse hbefore =>
    obtain ⟨r, hparse, htest⟩ := parse_literalSource lowered
    refine ⟨r, hparse, fun t ht => ?_⟩
    have hnone : bareDomain lowered = none := by
      unfold bareDomain
      split
      · exact absurd rfl hbefore
      · exact absurd rfl hbefore
      · rfl
    rw [htest t ht, covers, hnone]
    exact (Bool.or_false _).symm

/-- **The filter** never throws and keeps the hosts that some pattern covers. -/
theorem hostMatchesAny_eq {host : List Char} (hdot : ∀ c ∈ toLowerCase host, dot c = true)
    {patterns : List (List Char)} (hne : patterns ≠ []) :
    hostMatchesAny toLowerCase host (some patterns) =
      some (patterns.any fun p => covers (toLowerCase p) (toLowerCase host)) := by
  have hloop : ∀ ps : List (List Char), testPatterns toLowerCase (toLowerCase host) ps =
      some (ps.any fun p => covers (toLowerCase p) (toLowerCase host)) := by
    intro ps
    induction ps with
    | nil => rfl
    | cons p ps ih =>
      obtain ⟨r, hcompile, htest⟩ := @compilePattern_test toLowerCase p
      rw [testPatterns, hcompile, Option.bind_some, htest _ hdot, List.any_cons, ih]
      cases covers (toLowerCase p) (toLowerCase host) <;> rfl
  exact (if_neg hne).trans (hloop patterns)

end Covers

end Tapsmith.Trace
