import Mathlib.Tactic.IntervalCases
import Tapsmith.Lib.Regex.Quoted
import Tapsmith.Lib.Words

namespace Tapsmith.Agent.TextMatch

open Lib Lib.Regex Lib.Regex.Quoted

/-!
# Matching text

`TextMatch.kt`: whether the text of an element is that of a query, with white space normalised. It
is decided in two ways: on the texts, and by patterns that UIAutomator matches with the raw text.

* `equalsNormalized`, `nameMatches` — the comparison of texts;
* `exactPattern`, `containsPattern` — the patterns;
* `exactPattern_iff`, `containsPattern_iff` — where the two agree.
-/

/-! ### White space -/

/-- `\s` of JavaScript -/
def WS_CLASS : List Char :=
  ("[\\t\\n\\u000B\\f\\r \\u00A0\\u1680\\u2000-\\u200A\\u2028\\u2029\\u202F\\u205F\\u3000" ++
    "\\uFEFF]").toList

/-- The characters of `WS_CLASS`. -/
def whitespace : Members :=
  [('\t', '\t'), ('\n', '\n'), ('\u000B', '\u000B'), ('\u000C', '\u000C'), ('\r', '\r'), (' ', ' '),
   ('\u00A0', '\u00A0'), ('\u1680', '\u1680'), ('\u2000', '\u200A'), ('\u2028', '\u2028'),
   ('\u2029', '\u2029'), ('\u202F', '\u202F'), ('\u205F', '\u205F'), ('\u3000', '\u3000'),
   ('\uFEFF', '\uFEFF')]

def isWhitespace (c : Char) : Bool := memberOf whitespace c

theorem scan_WS_CLASS : scan .plain WS_CLASS = some (.plain, [.members whitespace]) := by
  decide +kernel

/-- Every run of `WS_CLASS` becomes a space, and the spaces at the ends go. -/
def normalize (text : List Char) : List Char :=
  Words.trim ' ' (Words.collapse isWhitespace ' ' text)

/-! ### Comparing texts -/

def equalsNormalized (actual : Option (List Char)) (expected : List Char) : Bool :=
  actual.any fun text => normalize text = normalize expected

/-- `lowercase` is that of `String`. -/
def nameMatches (lowercase : List Char → List Char) (actual : Option (List Char))
    (query : List Char) (exact : Bool) : Bool :=
  actual.any fun text =>
    if exact then equalsNormalized actual query
    else decide (lowercase (normalize query) <:+: lowercase (normalize text))

/-! ### Patterns -/

def wordsPattern (query : List Char) : List Char :=
  if normalize query = [] then []
  else (WS_CLASS ++ ['+']).intercalate (((normalize query).splitOn ' ').map quote)

def exactPattern (query : List Char) : List Char :=
  WS_CLASS ++ ['*'] ++ wordsPattern query ++ WS_CLASS ++ ['*']

def containsPattern (query : List Char) : List Char :=
  "(?s).*".toList ++ wordsPattern query ++ ".*".toList

/-- Whether a pattern matches the whole text, with the flags that ignore case if `fold` is what
    they compare. -/
def patternMatches (fold : Option (Char → Char)) (pattern text : List Char) : Bool :=
  (compile fold pattern).any fun r => r.test text

/-! ### What the patterns say -/

variable {dotAll : Bool} {fold : Option (Char → Char)}

def wordItems (words : List (List Char)) : List Item :=
  [.members whitespace, .plus].intercalate (words.map fun w => w.map .char)

theorem scan_words (words : List (List Char)) :
    scan .plain ((WS_CLASS ++ ['+']).intercalate (words.map quote)) =
      some (.plain, wordItems words) := by
  unfold wordItems
  induction words with
  | nil => rfl
  | cons w words ih =>
    cases words with
    | nil =>
      rw [List.map_singleton, List.map_singleton, List.intercalate_singleton,
        List.intercalate_singleton]
      exact scan_quote w
    | cons w₂ words =>
      rw [List.map_cons, List.map_cons, List.map_cons, List.map_cons, List.intercalate_cons_cons,
        List.intercalate_cons_cons]
      have hgap : scan .plain (WS_CLASS ++ ['+']) = some (.plain, [.members whitespace, .plus]) :=
        scan_append_plain scan_WS_CLASS rfl
      exact scan_append_plain (scan_append_plain (scan_quote w) hgap) ih

theorem noQuantifier_words (words : List (List Char)) : NoQuantifier (wordItems words) := by
  unfold wordItems
  cases words with
  | nil => exact fun i hi => (by cases hi)
  | cons w words =>
    cases words with
    | nil =>
      rw [List.map_singleton, List.intercalate_singleton]
      exact noQuantifier_text w
    | cons w₂ words =>
      rw [List.map_cons, List.map_cons, List.intercalate_cons_cons, List.append_assoc]
      exact noQuantifier_append (noQuantifier_text w) (noQuantifier_members _ _)

/-- Words with white space between them. -/
theorem means_words (hclass : ∀ c, inClass fold whitespace c = isWhitespace c)
    (words : List (List Char)) :
    Means dotAll fold (wordItems words) fun s =>
      Words.Run isWhitespace (fun p c => sameChar fold p c = true) words s [] := by
  induction words with
  | nil => exact means_nil
  | cons w words ih =>
    cases words with
    | nil =>
      rw [wordItems, List.map_singleton, List.intercalate_singleton]
      refine (means_text w).congr fun s => ?_
      constructor
      · exact fun h => ⟨s, h, (List.append_nil s).symm⟩
      · rintro ⟨w', h, rfl⟩
        rw [List.append_nil]
        exact h
    | cons w₂ words =>
      have hsplit : wordItems (w :: w₂ :: words) =
          w.map .char ++ ([.members whitespace, .plus] ++ wordItems (w₂ :: words)) := by
        rw [wordItems, List.map_cons, List.map_cons, List.intercalate_cons_cons, List.append_assoc]
        rfl
      rw [hsplit]
      refine ((means_text w).append ((means_members_plus whitespace).append ih
        (noQuantifier_words _)) (noQuantifier_members _ _)).congr fun s => ?_
      constructor
      · rintro ⟨w', -, rfl, hw', between, t', rfl, ⟨hne, hbetween⟩, hrun⟩
        exact ⟨w', between, t', hw', hne, fun c hc => (hclass c).symm.trans (hbetween c hc), rfl,
          hrun⟩
      · rintro ⟨w', between, t', hw', hne, hbetween, rfl, hrun⟩
        exact ⟨w', _, rfl, hw', between, t', rfl,
          ⟨hne, fun c hc => (hclass c).trans (hbetween c hc)⟩, hrun⟩

/-- The words of a query, whatever it is. -/
def queryWords (query : List Char) : List (List Char) :=
  if normalize query = [] then [] else (normalize query).splitOn ' '

theorem isWhitespace_space : isWhitespace ' ' = true := by decide

theorem queryWords_spec (query : List Char) :
    scan .plain (wordsPattern query) = some (.plain, wordItems (queryWords query)) ∧
      (∀ w ∈ queryWords query, Words.Word isWhitespace w) ∧
      [' '].intercalate (queryWords query) = normalize query ∧
      (queryWords query = [] ↔ normalize query = []) := by
  unfold wordsPattern queryWords
  by_cases hempty : normalize query = []
  · rw [if_pos hempty, if_pos hempty]
    exact ⟨rfl, fun w hw => absurd hw List.not_mem_nil, hempty.symm, iff_of_true rfl hempty⟩
  · obtain ⟨hne, hword, hjoin⟩ := Words.splitOn_normalize isWhitespace_space hempty
    rw [if_neg hempty, if_neg hempty]
    exact ⟨scan_words _, hword, hjoin, iff_of_false hne hempty⟩

theorem patternMatches_iff {pattern text body : List Char} {items : List Item}
    {p : List Char → Prop} (hall : "(?s)".toList.isPrefixOf pattern = dotAll)
    (hbody : (if dotAll then pattern.drop 4 else pattern) = body)
    (hscan : scan .plain body = some (.plain, items)) (hmeans : Means dotAll fold items p) :
    patternMatches fold pattern text = true ↔ p text := by
  obtain ⟨r, hr, hp⟩ := hmeans
  unfold patternMatches compile
  dsimp only
  rw [hall, hbody, hscan, Option.bind_some, if_pos rfl, hr, Option.any_some, RegExp.test_iff]
  exact hp text

/-- **The exact pattern** says what the comparison of normalised texts does. -/
theorem exactPattern_iff (query text : List Char) :
    patternMatches none (exactPattern query) text = true ↔
      equalsNormalized (some text) query = true := by
  obtain ⟨hscan, hword, hjoin, hempty⟩ := queryWords_spec query
  have hclass : ∀ c, inClass none whitespace c = isWhitespace c := fun c => Bool.or_false _
  have hgaps : scan .plain (WS_CLASS ++ ['*']) = some (.plain, [.members whitespace, .star]) :=
    scan_append_plain scan_WS_CLASS rfl
  have hpattern : scan .plain (exactPattern query) = some (.plain,
      [.members whitespace, .star] ++ (wordItems (queryWords query) ++
        [.members whitespace, .star])) := by
    unfold exactPattern
    rw [List.append_assoc (_ ++ _ ++ _), List.append_assoc (_ ++ _)]
    exact scan_append_plain hgaps (scan_append_plain hscan hgaps)
  have hmeans : Means false none _ _ := (means_members_star whitespace).append
    ((means_words hclass (queryWords query)).append (means_members_star whitespace)
      (noQuantifier_members _ _))
    (noQuantifier_append (noQuantifier_words _) (noQuantifier_members _ _))
  have hflag : "(?s)".toList.isPrefixOf (exactPattern query) = false := rfl
  rw [patternMatches_iff hflag (if_neg Bool.false_ne_true) hpattern hmeans]
  unfold equalsNormalized
  rw [Option.any_some, decide_eq_true_iff]
  have hsame : (fun p c => sameChar none p c = true) = Eq := by
    funext p c
    exact propext decide_eq_true_iff
  rw [hsame]
  have hgap : ∀ s : List Char, (∀ c ∈ s, inClass none whitespace c = true) ↔
      ∀ c ∈ s, isWhitespace c = true := by
    intro s
    exact forall_congr' fun c => by rw [hclass]
  by_cases hwords : queryWords query = []
  · rw [hwords, hempty.mp hwords]
    refine Iff.trans ?_ (Words.normalize_eq_nil_iff isWhitespace_space).symm
    constructor
    · rintro ⟨a, -, rfl, ha, -, b, rfl, rfl, hb⟩ c hc
      rcases List.mem_append.mp hc with hc | hc
      · exact (hgap a).mp ha c hc
      · exact (hgap b).mp hb c hc
    · exact fun hall => ⟨text, [], (List.append_nil _).symm, (hgap text).mpr hall, [], [], rfl, rfl,
        fun c hc => absurd hc List.not_mem_nil⟩
  · rw [← hjoin]
    refine Iff.trans ?_ (Words.normalize_eq_iff isWhitespace_space hword hwords).symm
    constructor
    · rintro ⟨a, -, rfl, ha, m, b, rfl, hrun, hb⟩
      exact ⟨a, m ++ b, b, rfl, (hgap a).mp ha, Words.run_iff_append.mpr ⟨m, rfl, hrun⟩,
        (hgap b).mp hb⟩
    · rintro ⟨a, v, b, rfl, ha, hrun, hb⟩
      obtain ⟨m, rfl, hm⟩ := Words.run_iff_append.mp hrun
      exact ⟨a, m ++ b, rfl, (hgap a).mpr ha, m, b, rfl, hm, (hgap b).mpr hb⟩

/-! ### Case -/

/-- White space is what it is without case, and nothing else becomes it. -/
structure Caseless (f : Char → Char) : Prop where
  isWhitespace_iff : ∀ c, isWhitespace (f c) = isWhitespace c
  eq_self : ∀ c, isWhitespace c = true → f c = c

/-- The texts are put in lower case character by character, and the engine takes the same of their
    characters for one. -/
structure FoldsAlike (fold lower : Char → Char) (lowercase : List Char → List Char)
    (text query : List Char) : Prop where
  text_eq : lowercase (normalize text) = (normalize text).map lower
  query_eq : lowercase (normalize query) = (normalize query).map lower
  same : ∀ a ∈ query, ∀ b ∈ text, fold a = fold b ↔ lower a = lower b

variable {f lower : Char → Char} {lowercase : List Char → List Char}

/-- The characters of the words are those of the query. -/
theorem mem_of_mem_queryWords {query w : List Char} {a : Char} (hw : w ∈ queryWords query)
    (ha : a ∈ w) : a ∈ query := by
  obtain ⟨-, hword, hjoin, -⟩ := queryWords_spec query
  have hmem : ∀ words : List (List Char), w ∈ words → a ∈ [' '].intercalate words := by
    intro words hw
    induction words with
    | nil => exact absurd hw List.not_mem_nil
    | cons w₁ words ih =>
      cases words with
      | nil =>
        rw [List.intercalate_singleton, ← List.mem_singleton.mp hw]
        exact ha
      | cons w₂ words =>
        rw [List.intercalate_cons_cons, List.append_assoc]
        rcases List.mem_cons.mp hw with rfl | hw
        · exact List.mem_append_left _ ha
        · exact List.mem_append_right _ (List.mem_append_right _ (ih hw))
  have hnormal := hmem _ hw
  rw [hjoin] at hnormal
  rcases Words.mem_of_mem_normalize hnormal with hquery | rfl
  · exact hquery
  · exact absurd isWhitespace_space (Bool.eq_false_iff.mp ((hword w hw).2 ' ' ha))

theorem infix_map_iff {g : Char → Char} {q s : List Char} :
    q.map g <:+: s.map g ↔ ∃ m, m <:+: s ∧ List.Forall₂ (fun a b => g a = g b) q m := by
  have hiff : ∀ m : List Char, List.Forall₂ (fun a b => g a = g b) q m ↔ q.map g = m.map g := by
    intro m
    rw [← List.forall₂_eq_eq_eq, List.forall₂_map_left_iff, List.forall₂_map_right_iff]
  constructor
  · rintro ⟨l, r, h⟩
    obtain ⟨front, r', rfl, hfront, -⟩ := List.map_eq_append_iff.mp h.symm
    obtain ⟨l', m, rfl, -, hm⟩ := List.map_eq_append_iff.mp hfront
    exact ⟨m, ⟨l', r', rfl⟩, (hiff m).mpr hm.symm⟩
  · rintro ⟨m, ⟨l, r, rfl⟩, hm⟩
    refine ⟨l.map g, r.map g, ?_⟩
    rw [(hiff m).mp hm, List.map_append, List.map_append]

/-- **The substring pattern** says what the comparison of normalised texts in lower case does. -/
theorem containsPattern_iff (hfold : Caseless f) (hlower : Caseless lower) {text query : List Char}
    (h : FoldsAlike f lower lowercase text query) :
    patternMatches (some f) (containsPattern query) text = true ↔
      nameMatches lowercase (some text) query false = true := by
  obtain ⟨hscan, hword, hjoin, hempty⟩ := queryWords_spec query
  have hclass : ∀ c, inClass (some f) whitespace c = isWhitespace c := by
    intro c
    show (isWhitespace c || isWhitespace (f c)) = isWhitespace c
    rw [hfold.isWhitespace_iff, Bool.or_self]
  have hdots : scan .plain ".*".toList = some (.plain, [.dot, .star]) := rfl
  have hpattern : scan .plain (".*".toList ++ (wordsPattern query ++ ".*".toList)) =
      some (.plain, [.dot, .star] ++ (wordItems (queryWords query) ++ [.dot, .star])) :=
    scan_append_plain hdots (scan_append_plain hscan hdots)
  have hdot : NoQuantifier [.dot, .star] := by
    intro i hi
    obtain rfl := Option.some.inj hi
    exact ⟨fun h => (by cases h), fun h => (by cases h)⟩
  have hmeans : Means true (some f) _ _ := means_dots.append
    ((means_words hclass (queryWords query)).append means_dots hdot)
    (noQuantifier_append (noQuantifier_words _) hdot)
  have hflag : "(?s)".toList.isPrefixOf (containsPattern query) = true := rfl
  rw [patternMatches_iff hflag (if_pos rfl) hpattern hmeans]
  unfold nameMatches
  rw [Option.any_some, if_neg Bool.false_ne_true, decide_eq_true_iff, h.text_eq, h.query_eq]
  by_cases hwords : queryWords query = []
  · rw [hwords, hempty.mp hwords]
    exact iff_of_true ⟨[], text, rfl, trivial, [], text, rfl, rfl, trivial⟩ List.nil_infix
  · have hsame : ∀ w ∈ queryWords query, ∀ a ∈ w, ∀ b ∈ text,
        sameChar (some f) a b = true ↔ lower a = lower b := by
      intro w hw a ha b hb
      rw [← h.same a (mem_of_mem_queryWords hw ha) b hb]
      exact decide_eq_true_iff
    rw [infix_map_iff, ← hjoin]
    refine Iff.trans ?_ (Words.infix_normalize_iff (fun a b hab ha => ?_) (fun b => ?_)
      isWhitespace_space hword hwords)
    · constructor
      · rintro ⟨u, -, rfl, -, m, b, rfl, hrun, -⟩
        refine ⟨u, m ++ b, b, rfl, Words.run_iff_append.mpr ⟨m, rfl, hrun.imp ?_⟩⟩
        exact fun w hw a ha c hc => (hsame w hw a ha c (by simp [hc])).mp
      · rintro ⟨u, v, b, rfl, hrun⟩
        obtain ⟨m, rfl, hm⟩ := Words.run_iff_append.mp hrun
        refine ⟨u, m ++ b, rfl, trivial, m, b, rfl, hm.imp ?_, trivial⟩
        exact fun w hw a ha c hc => (hsame w hw a ha c (by simp [hc])).mpr
    · rw [← hlower.isWhitespace_iff b, ← hab, hlower.isWhitespace_iff]
      exact ha
    · rw [hlower.eq_self ' ' isWhitespace_space]
      constructor
      · intro hb
        have hspace : isWhitespace b = true := by
          rw [← hlower.isWhitespace_iff, ← hb]
          exact isWhitespace_space
        rw [← hlower.eq_self b hspace, ← hb]
      · rintro rfl
        exact (hlower.eq_self ' ' isWhitespace_space).symm

/-- **The patterns and the comparisons agree**, the exact ones always, and the others where lower
    case and the engine tell the same characters apart. -/
theorem patterns_agree (text query : List Char) :
    (patternMatches none (exactPattern query) text = true ↔
      equalsNormalized (some text) query = true) ∧
    (Caseless f → Caseless lower → FoldsAlike f lower lowercase text query →
      (patternMatches (some f) (containsPattern query) text = true ↔
        nameMatches lowercase (some text) query false = true)) :=
  ⟨exactPattern_iff query text, fun hfold hlower h => containsPattern_iff hfold hlower h⟩

/-! ### Letters -/

/-- Lower case of the letters of ASCII. -/
def lowerAscii (c : Char) : Char :=
  if 65 ≤ c.toNat ∧ c.toNat ≤ 90 then Char.ofNat (c.toNat + 32) else c

/-- What the engine compares: the long s is an s. -/
def engineFold (c : Char) : Char := if c = 'ſ' then 's' else lowerAscii c

theorem caseless_of_letters {g : Char → Char}
    (h : ∀ c, g c = c ∨ isWhitespace c = false ∧ isWhitespace (g c) = false) : Caseless g := by
  constructor
  · intro c
    rcases h c with heq | ⟨hc, hg⟩
    · rw [heq]
    · rw [hc, hg]
  · intro c hspace
    rcases h c with heq | ⟨hc, -⟩
    · exact heq
    · exact absurd hspace (Bool.eq_false_iff.mp hc)

theorem caseless_lowerAscii : Caseless lowerAscii := by
  refine caseless_of_letters fun c => ?_
  unfold lowerAscii
  split_ifs with hletter
  · right
    have hall : ∀ n : ℕ, 65 ≤ n ∧ n ≤ 90 →
        isWhitespace (Char.ofNat n) = false ∧ isWhitespace (Char.ofNat (n + 32)) = false := by
      rintro n ⟨hlo, hhi⟩
      interval_cases n <;> decide
    have hc := hall c.toNat hletter
    rw [Char.ofNat_toNat] at hc
    exact hc
  · exact .inl rfl

theorem caseless_engineFold : Caseless engineFold := by
  refine caseless_of_letters fun c => ?_
  unfold engineFold
  split_ifs with hlong
  · subst hlong
    exact .inr (by decide)
  · cases hspace : isWhitespace c with
    | true => exact .inl (caseless_lowerAscii.eq_self c hspace)
    | false => exact .inr ⟨rfl, (caseless_lowerAscii.isWhitespace_iff c).trans hspace⟩

theorem patterns_agree_login :
    patternMatches (some engineFold) (containsPattern "LOG in".toList) " log\u00A0 In now".toList =
        true ↔
      nameMatches (List.map lowerAscii) (some " log\u00A0 In now".toList) "LOG in".toList false =
        true :=
  (patterns_agree _ _).2 caseless_engineFold caseless_lowerAscii ⟨rfl, rfl, by decide +kernel⟩

/-- A long s is an s for the engine, but is in lower case already. -/
theorem long_s :
    patternMatches (some engineFold) (containsPattern ['s']) ['ſ'] = true ∧
      nameMatches (List.map lowerAscii) (some ['ſ']) ['s'] false = false := by
  decide +kernel

end Tapsmith.Agent.TextMatch
