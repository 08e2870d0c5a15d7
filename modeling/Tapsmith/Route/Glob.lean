import Mathlib.Data.List.Forall2
import Tapsmith.Lib.Regex.Alternation
import Tapsmith.Lib.Text

namespace Tapsmith.Route

open Lib.Regex Lib.Regex.Alternation Lib.Text

/-!
# URL globs

The pattern of a route is compiled twice: by `glob_to_regex` of the daemon (`route_handler.rs`),
which decides what is intercepted, and by `globToRegex` of the SDK (`network.ts`), which decides
which events a handler sees.

* `translateGlob` — the walk over the pattern that both make, over what they escape with;
* `Covers` — what the documentation says a pattern covers;
* `reads_translateGlob` — a translation stands for what the pattern covers;
* `globs_agree` — both compilers decide what the documentation says.

The `regex` crate is a parameter, with what its documentation says.  A string of JavaScript is the
list of its characters where each of them is one UTF-16 unit.
-/

/-! ### The compilers -/

/-- The loop over the pattern: `escapeChar` for a character, `escapeText` for an alternative. -/
def translateGlob (escapeChar : Char → List Char) (escapeText : List Char → List Char) :
    List Char → List Char
  | [] => []
  -- a `/` behind `**` is required
  | '*' :: '*' :: '/' :: rest =>
    ".*".toList ++ ('/' :: translateGlob escapeChar escapeText rest)
  | '*' :: '*' :: rest => ".*".toList ++ translateGlob escapeChar escapeText rest
  | '*' :: rest => "[^/]*".toList ++ translateGlob escapeChar escapeText rest
  | '?' :: rest => "[^/]".toList ++ translateGlob escapeChar escapeText rest
  | c :: rest =>
    if c = '{' ∧ '}' ∈ rest then
      let close := rest.idxOf '}'
      let group := rest.take close
      '(' :: List.intercalate ['|'] ((group.splitOn ',').map escapeText) ++ [')'] ++
        translateGlob escapeChar escapeText (rest.drop (close + 1))
    else escapeChar c ++ translateGlob escapeChar escapeText rest
termination_by pattern => pattern.length

/-- The `regex` crate: `regex::escape`, `Regex::new` with `is_match` of what it returns, and whether
    a source is over the size limit. -/
structure RegexCrate where
  escape : List Char → List Char
  new : List Char → Option (List Char → Bool)
  tooLarge : List Char → Bool

/-- `regex_escape_char`. -/
def regexEscapeChar (crate : RegexCrate) (c : Char) : List Char := crate.escape [c]

/-- `glob_to_regex`, as far as the source of the expression. -/
def globToRegex (crate : RegexCrate) (pattern : List Char) : List Char :=
  '^' :: translateGlob (regexEscapeChar crate) (fun s => s.flatMap (regexEscapeChar crate)) pattern
    ++ ['$']

namespace Sdk

/-- `s.replace(/[.*+?^${}()|[\]\\]/g, '\\$&')`. -/
def escapeRegex (s : List Char) : List Char :=
  s.flatMap fun c =>
    if c ∈ ['.', '*', '+', '?', '^', '$', '{', '}', '(', ')', '|', '[', ']', '\\'] then ['\\', c]
    else [c]

/-- `globToRegex`, as far as the source of the expression. -/
def globToRegex (pattern : List Char) : List Char :=
  '^' :: translateGlob (fun c => escapeRegex [c]) escapeRegex pattern ++ ['$']

/-- The engine behind `new RegExp`. -/
def ecmaScript : Dialect where
  escapable c := c ∈ syntaxCharacters
  dot := dot

/-- `globMatch`; `none` where the engine refuses the source. -/
def globMatch (pattern url : List Char) : Option Bool :=
  (parse ecmaScript (globToRegex pattern)).map fun r => r.test url

end Sdk

/-! ### What a pattern covers -/

/-- The URLs a pattern covers, as its documentation says. -/
inductive Covers : List Char → List Char → Prop
  | nil : Covers [] []
  /-- `**` is any run. -/
  | anyRun (u : List Char) {p t : List Char} : Covers p t → Covers ('*' :: '*' :: p) (u ++ t)
  /-- `*` is any run without a `/`. -/
  | run {u p t : List Char} : p.head? ≠ some '*' → '/' ∉ u → Covers p t → Covers ('*' :: p) (u ++ t)
  /-- `?` is any character but a `/`. -/
  | one {a : Char} {p t : List Char} : a ≠ '/' → Covers p t → Covers ('?' :: p) (a :: t)
  /-- A group is one of its alternatives, literally. -/
  | group {alternatives alternative p t : List Char} : '}' ∉ alternatives →
      alternative ∈ alternatives.splitOn ',' → Covers p t →
      Covers ('{' :: (alternatives ++ '}' :: p)) (alternative ++ t)
  /-- Everything else, and a `{` that is not closed, is itself. -/
  | literal {c : Char} {p t : List Char} : c ≠ '*' → c ≠ '?' → (c = '{' → '}' ∉ p) → Covers p t →
      Covers (c :: p) (c :: t)

theorem covers_nil {t : List Char} : Covers [] t ↔ t = [] := by
  constructor
  · intro h
    cases h
    rfl
  · rintro rfl
    exact .nil

theorem covers_anyRun {p t : List Char} :
    Covers ('*' :: '*' :: p) t ↔ ∃ u v, t = u ++ v ∧ True ∧ Covers p v := by
  constructor
  · intro h
    cases h with
    | anyRun u h => exact ⟨u, _, rfl, trivial, h⟩
    | run hhead => exact absurd rfl hhead
    | literal hstar => exact absurd rfl hstar
  · rintro ⟨u, v, rfl, -, h⟩
    exact .anyRun u h

theorem covers_run {p t : List Char} (hp : p.head? ≠ some '*') :
    Covers ('*' :: p) t ↔ ∃ u v, t = u ++ v ∧ '/' ∉ u ∧ Covers p v := by
  constructor
  · intro h
    cases h with
    | anyRun u h => exact absurd rfl hp
    | run _ hu h => exact ⟨_, _, rfl, hu, h⟩
    | literal hstar => exact absurd rfl hstar
  · rintro ⟨u, v, rfl, hu, h⟩
    exact .run hp hu h

theorem covers_one {p t : List Char} :
    Covers ('?' :: p) t ↔ ∃ u v, t = u ++ v ∧ (∃ a, u = [a] ∧ a ≠ '/') ∧ Covers p v := by
  constructor
  · intro h
    cases h with
    | one ha h => exact ⟨[_], _, rfl, ⟨_, rfl, ha⟩, h⟩
    | literal _ hone => exact absurd rfl hone
  · rintro ⟨u, v, rfl, ⟨a, rfl, ha⟩, h⟩
    exact .one ha h

theorem covers_group {alternatives p t : List Char} (hclose : '}' ∉ alternatives) :
    Covers ('{' :: (alternatives ++ '}' :: p)) t ↔
      ∃ u v, t = u ++ v ∧ u ∈ alternatives.splitOn ',' ∧ Covers p v := by
  constructor
  · intro h
    generalize hq : '{' :: (alternatives ++ '}' :: p) = q at h
    cases h with
    | nil => cases hq
    | anyRun u h => cases hq
    | run _ _ _ => cases hq
    | one _ _ => cases hq
    | @group others alternative p' t hclose' hmem h =>
      have hsplit := congrArg (splitOnce '}') (List.cons.inj hq).2
      rw [splitOnce_append hclose, splitOnce_append hclose'] at hsplit
      obtain ⟨rfl, rfl⟩ := Prod.mk.inj (Option.some.inj hsplit)
      exact ⟨alternative, t, rfl, hmem, h⟩
    | literal _ _ hopen _ =>
      obtain ⟨rfl, rfl⟩ := List.cons.inj hq
      exact absurd (by simp) (hopen rfl)
  · rintro ⟨u, v, rfl, hu, h⟩
    exact .group hclose hu h

theorem covers_literal {c : Char} {p t : List Char} (hstar : c ≠ '*') (hone : c ≠ '?')
    (hopen : c = '{' → '}' ∉ p) :
    Covers (c :: p) t ↔ ∃ u v, t = u ++ v ∧ u = [c] ∧ Covers p v := by
  constructor
  · intro h
    cases h with
    | anyRun u h => exact absurd rfl hstar
    | run _ _ _ => exact absurd rfl hstar
    | one _ _ => exact absurd rfl hone
    | group _ _ _ => exact absurd (by simp) (hopen rfl)
    | literal _ _ _ h => exact ⟨[c], _, rfl, rfl, h⟩
  · rintro ⟨u, v, rfl, rfl, h⟩
    exact .literal hstar hone hopen h

/-! ### The translation -/

section Translation

variable {d : Dialect} {escapeChar : Char → List Char} {escapeText : List Char → List Char}

/-- Where a group is closed. -/
theorem split_at_close {rest : List Char} (h : '}' ∈ rest) :
    rest = rest.take (rest.idxOf '}') ++ '}' :: rest.drop (rest.idxOf '}' + 1) ∧
      '}' ∉ rest.take (rest.idxOf '}') := by
  have hlt := List.idxOf_lt_length_of_mem h
  constructor
  · have hdrop := List.drop_eq_getElem_cons hlt
    rw [List.getElem_idxOf] at hdrop
    rw [← hdrop, List.take_append_drop]
  · intro hmem
    exact Nat.lt_irrefl _ ((List.mem_take_iff_idxOf_lt h).mp hmem)

/-- **A translation stands for what the pattern covers**, if characters are escaped where they have
    a meaning of their own and only where an engine takes it. -/
theorem reads_translateGlob (escaped : Char → Bool)
    (hescaped : ∀ c, escaped c = true → d.escapable c = true)
    (hplain : ∀ c, escaped c = false → c ∉ syntaxCharacters)
    (hchar : ∀ c, escapeChar c = if escaped c then ['\\', c] else [c])
    (htext : ∀ s, escapeText s = s.flatMap fun c => if escaped c then ['\\', c] else [c])
    (pattern : List Char) :
    Reads d (translateGlob escapeChar escapeText pattern) (Covers pattern) := by
  have hslash : '/' ∉ syntaxCharacters := by decide
  have hone : ∀ c, Reads d (escapeChar c) (· = [c]) := fun c =>
    hchar c ▸ Reads.char (escaped c) (hescaped c) (hplain c)
  fun_induction translateGlob escapeChar escapeText pattern with
  | case1 => exact Reads.nil.congr fun t => covers_nil.symm
  | case2 rest ih =>
    have hread : Reads d ['/'] (· = ['/']) :=
      Reads.char false (fun h => absurd h Bool.false_ne_true) fun _ => hslash
    have hliteral : ∀ t, Covers ('/' :: rest) t ↔ ∃ u v, t = u ++ v ∧ u = ['/'] ∧ Covers rest v :=
      fun t => covers_literal (by decide) (by decide) fun h => absurd h (by decide)
    refine (Reads.dots.append (hread.append ih)).congr fun t => ?_
    simp only [covers_anyRun, hliteral]
  | case3 rest hne ih => exact (Reads.dots.append ih).congr fun t => covers_anyRun.symm
  | case4 rest hne hne' ih =>
    refine ((Reads.exceptStar hslash).append ih).congr fun t => (covers_run ?_).symm
    intro hhead
    obtain ⟨rest', rfl⟩ := List.head?_eq_some_iff.mp hhead
    exact hne' rest' rfl
  | case5 rest ih => exact ((Reads.except hslash).append ih).congr fun t => covers_one.symm
  | case6 c rest hne₁ hne₂ hstar hquery hgroup close group ih =>
    obtain ⟨rfl, hmem⟩ := hgroup
    obtain ⟨hrest, hclose⟩ := split_at_close hmem
    have halts : List.Forall₂ (Reads d) ((group.splitOn ',').map escapeText)
        ((group.splitOn ',').map fun a => (· = a)) := by
      rw [List.forall₂_map_left_iff, List.forall₂_map_right_iff, List.forall₂_same]
      exact fun a _ => htext a ▸ Reads.text escaped hescaped hplain a
    have hne : (group.splitOn ',').map escapeText ≠ [] :=
      mt List.map_eq_nil_iff.mp (List.splitOn_ne_nil _ _)
    refine ((Reads.group halts hne).append ih).congr fun t => ?_
    have hcovers := covers_group (p := rest.drop (close + 1)) (t := t) hclose
    rw [← hrest] at hcovers
    rw [hcovers]
    simp
    rfl
  | case7 c rest hne₁ hne₂ hstar hquery hgroup ih =>
    exact ((hone c).append ih).congr fun t =>
      (covers_literal hstar hquery fun hopen hmem => hgroup ⟨hopen, hmem⟩).symm

end Translation

/-! ### Both compilers -/

/-- The characters that `regex::escape` escapes. -/
def metaCharacters : List Char := syntaxCharacters ++ ['#', '&', '-', '~']

/-- The syntax of the `regex` crate. -/
def regexSyntax : Dialect where
  escapable c := c ∈ metaCharacters
  dot c := c ≠ '\n'

namespace RegexCrate

/-- What the crate documents: meta characters are escaped, and a source within the size limit is
    taken and decided as its syntax says. -/
structure Documented (crate : RegexCrate) : Prop where
  escape : ∀ s, crate.escape s = s.flatMap fun c => if c ∈ metaCharacters then ['\\', c] else [c]
  accepts : ∀ source r, parse regexSyntax source = some r → crate.tooLarge source = false →
    (crate.new source).isSome
  decides : ∀ source r m, parse regexSyntax source = some r → crate.new source = some m →
    ∀ url, m url = true ↔ r.Matches url

/-- A crate that decides by derivatives, whatever the size. -/
def byDerivatives : RegexCrate where
  escape s := s.flatMap fun c => if c ∈ metaCharacters then ['\\', c] else [c]
  new source := (parse regexSyntax source).map fun r => r.test
  tooLarge _ := false

theorem byDerivatives_new (source : List Char) :
    byDerivatives.new source = (parse regexSyntax source).map fun r => r.test := rfl

theorem byDerivatives_documented : byDerivatives.Documented where
  escape _ := rfl
  accepts source r hparse _ := by
    rw [byDerivatives_new, hparse]
    rfl
  decides source r m hparse hnew url := by
    rw [byDerivatives_new, hparse] at hnew
    obtain rfl := Option.some.inj hnew
    exact RegExp.test_iff

end RegexCrate

/-- A text of the Basic Multilingual Plane without line terminators. -/
structure PlainText where
  chars : List Char
  plain : ∀ c ∈ chars, c.toNat < 0x10000 ∧ c ∉ ['\n', '\r', '\u2028', '\u2029']

theorem reads_sdk (pattern : List Char) :
    Reads Sdk.ecmaScript
      (translateGlob (fun c => Sdk.escapeRegex [c]) Sdk.escapeRegex pattern) (Covers pattern) := by
  have hmem : ∀ c, c ∈ ['.', '*', '+', '?', '^', '$', '{', '}', '(', ')', '|', '[', ']', '\\'] ↔
      c ∈ syntaxCharacters := by
    intro c
    simp only [syntaxCharacters, List.mem_cons, List.not_mem_nil, or_false]
    tauto
  have htext : ∀ s, Sdk.escapeRegex s =
      s.flatMap fun c => if decide (c ∈ syntaxCharacters) then ['\\', c] else [c] := by
    intro s
    simp only [Sdk.escapeRegex, hmem, decide_eq_true_eq]
  refine reads_translateGlob (fun c => c ∈ syntaxCharacters) (fun c hc => hc)
    (fun c hc => of_decide_eq_false hc) (fun c => ?_) htext pattern
  rw [htext, List.flatMap_singleton]

theorem reads_daemon {crate : RegexCrate} (hcrate : crate.Documented) (pattern : List Char) :
    Reads regexSyntax
      (translateGlob (regexEscapeChar crate) (fun s => s.flatMap (regexEscapeChar crate)) pattern)
      (Covers pattern) := by
  have hchar : ∀ c, regexEscapeChar crate c =
      if decide (c ∈ metaCharacters) then ['\\', c] else [c] := by
    intro c
    rw [regexEscapeChar, hcrate.escape, List.flatMap_singleton]
    simp only [decide_eq_true_eq]
  refine reads_translateGlob (fun c => c ∈ metaCharacters) (fun c hc => hc) (fun c hc => ?_) hchar
    (fun s => ?_) pattern
  · exact fun hsyntax => of_decide_eq_false hc (List.mem_append_left _ hsyntax)
  · exact congrArg (List.flatMap · s) (funext hchar)

/-- **Both compilers decide what the documentation says**, the daemon's as long as the crate takes a
    source of that size. -/
theorem globs_agree (crate : RegexCrate) (hcrate : crate.Documented) (pattern url : PlainText) :
    (∃ matched, Sdk.globMatch pattern.chars url.chars = some matched ∧
      (matched = true ↔ Covers pattern.chars url.chars)) ∧
    (crate.tooLarge (globToRegex crate pattern.chars) = false →
      ∃ is_match, crate.new (globToRegex crate pattern.chars) = some is_match ∧
        (is_match url.chars = true ↔ Covers pattern.chars url.chars)) := by
  constructor
  · obtain ⟨r, hparse, hmatches⟩ := parse_of_reads (reads_sdk pattern.chars)
    refine ⟨r.test url.chars, ?_, RegExp.test_iff.trans (hmatches url.chars fun c hc => ?_)⟩
    · rw [Sdk.globMatch, Sdk.globToRegex, hparse, Option.map_some]
    · exact decide_eq_true (url.plain c hc).2
  · intro hsize
    obtain ⟨r, hparse, hmatches⟩ := parse_of_reads (reads_daemon hcrate pattern.chars)
    obtain ⟨m, hnew⟩ := Option.isSome_iff_exists.mp (hcrate.accepts _ r hparse hsize)
    refine ⟨m, hnew, (hcrate.decides _ r m hparse hnew _).trans (hmatches url.chars fun c hc => ?_)⟩
    refine decide_eq_true fun hline => (url.plain c hc).2 ?_
    rw [hline]
    exact List.mem_cons_self

theorem globs_agree_byDerivatives :
    ∃ is_match, RegexCrate.byDerivatives.new
        (globToRegex RegexCrate.byDerivatives "**/\x7bv1,v2\x7d/*".toList) = some is_match ∧
      (is_match "http://h/v2/a".toList = true ↔
        Covers "**/\x7bv1,v2\x7d/*".toList "http://h/v2/a".toList) :=
  (globs_agree _ RegexCrate.byDerivatives_documented
    ⟨"**/\x7bv1,v2\x7d/*".toList, by decide⟩ ⟨"http://h/v2/a".toList, by decide⟩).2 rfl

end Tapsmith.Route
