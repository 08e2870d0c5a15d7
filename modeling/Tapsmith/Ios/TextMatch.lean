import Tapsmith.Agent.TextMatch
import Tapsmith.Lib.Regex.Icu

namespace Tapsmith.Ios.TextMatch

open Lib Lib.Regex Lib.Regex.Quoted

/-!
# Matching text on iOS

`TextMatch.swift`: the walk over the snapshot compares normalised texts, and the live queries match
patterns of ICU with the raw ones. A text is a list of code points. What `NSPredicate` and
`NSRegularExpression.escapedPattern` do is a parameter, with what they document.

* `normalize`, `equals`, `containsChildText` — the comparisons; `normalize_eq` — the loop collapses
  white space;
* `exactPattern`, `concatenatedLabelPattern` — the patterns; `exactPattern_iff`, `pattern_iff` —
  what they match;
* `liveIndex`, `substringLiveIndex` — the index of a node among those of a live query;
* `agree_iff` — where the walk and the queries match the same texts.
-/

/-! ### Comparing texts -/

/-- `\\s` of JavaScript -/
def isWhitespace (c : Char) : Bool :=
  c ∈ ['\t', '\n', '\u000B', '\u000C', '\r', ' ', '\u00A0', '\u1680', '\u2028', '\u2029', '\u202F',
    '\u205F', '\u3000', '\uFEFF'] || ('\u2000' ≤ c && c ≤ '\u200A')

/-- The loop over the text, with what is out so far and whether a space is pending. -/
def normalizeLoop : List Char → List Char → Bool → List Char
  | [], out, _ => out
  | c :: rest, out, pendingSpace =>
    if isWhitespace c then normalizeLoop rest out true
    else normalizeLoop rest ((if pendingSpace && out ≠ [] then out ++ [' '] else out) ++ [c]) false

def normalize (text : List Char) : List Char := normalizeLoop text [] false

def equals (text query : List Char) : Bool := normalize text = normalize query

/-- Whether the text is one of those that were joined with `, ` to form the label. -/
def containsChildText (label childText : List Char) : Bool :=
  let label := normalize label
  let child := normalize childText
  if label = child then true
  else if child ++ [',', ' '] <+: label then true
  else if [',', ' '] ++ child <:+ label then true
  else decide ([',', ' '] ++ child ++ [',', ' '] <:+: label)

/-! ### Patterns -/

def wsClass : List Char :=
  ("[\\t\\n\\u000B\\f\\r \\u00A0\\u1680\\u2000-\\u200A\\u2028\\u2029\\u202F\\u205F\\u3000" ++
    "\\uFEFF]").toList

section Patterns

variable (escaped : Char → Bool) (query : List Char)

def words : List Char :=
  let normalized := normalize query
  if normalized = [] then []
  else (wsClass ++ ['+']).intercalate
    (((normalized.splitOn ' ').filter (· ≠ [])).map (Icu.escapePattern escaped))

def exactPattern : List Char := wsClass ++ ['*'] ++ words escaped query ++ wsClass ++ ['*']

def containsPattern : List Char := "(?is).*".toList ++ words escaped query ++ ".*".toList

def concatenatedLabelPattern : List Char :=
  "(?s)(?:".toList ++ wsClass ++ "*|.*,".toList ++ wsClass ++ "+)".toList ++ words escaped query ++
    "(?:".toList ++ wsClass ++ "*|,".toList ++ wsClass ++ "+.*)".toList

end Patterns

section Contains

variable (escaped : Char → Bool)
  -- `NSPredicate(format: "SELF MATCHES %@", pattern).evaluate(with: text)`
  (evaluate : List Char → List Char → Bool)

/-- The pattern of the live query decides, but for the empty text. -/
def contains (text query : List Char) : Bool :=
  if text = [] then normalize query = [] else evaluate (containsPattern escaped query) text

end Contains

/-- What is documented of `MATCHES`: a pattern matches a whole text, and the flag with which case is
    ignored says nothing about the empty text. -/
structure MatchesWhole (evaluate : List Char → List Char → Bool) : Prop where
  whole : ∀ pattern r, Icu.compile pattern = some r →
    ∀ text, evaluate pattern text = true ↔ r.Matches text
  empty : ∀ body r, Icu.compile ("(?s)".toList ++ body) = some r →
    (evaluate ("(?is)".toList ++ body) [] = true ↔ r.Matches [])

/-! ### The nodes of a live query -/

/-- A snapshot node as the live query sees it. -/
structure QueryNode where
  typeRaw : ℕ
  label : List Char
  identifier : List Char
  title : List Char
  value : List Char

def inScope (scopeTypeRaw : Option ℕ) (node : QueryNode) : Bool :=
  scopeTypeRaw = none || some node.typeRaw = scopeTypeRaw

/-- `label == %@`, with the identifier if there is one. -/
def byOwnLabel (target : QueryNode) (scopeTypeRaw : Option ℕ) (node : QueryNode) : Bool :=
  node.label = target.label && (target.identifier = [] || node.identifier = target.identifier) &&
    inScope scopeTypeRaw node

/-- The number of the nodes before that the query by the label returns too; `none` traps. -/
def liveIndex (ordinal : ℕ) (nodes : List QueryNode) (scopeTypeRaw : Option ℕ) : Option ℕ :=
  nodes[ordinal]?.map fun target => (nodes.take ordinal).countP (byOwnLabel target scopeTypeRaw)

def substringMatches (escaped : Char → Bool) (evaluate : List Char → List Char → Bool)
    (nodes : List QueryNode) (query : List Char) : List Bool :=
  nodes.map fun node => contains escaped evaluate node.label query ||
    contains escaped evaluate node.title query || contains escaped evaluate node.value query

def exactMatches (nodes : List QueryNode) (query : List Char) : List Bool :=
  nodes.map fun node =>
    equals node.label query || equals node.title query || equals node.value query

def substringLiveIndex (ordinal : ℕ) (nodes : List QueryNode) (scopeTypeRaw : Option ℕ)
    (matched : List Bool) : ℕ :=
  ((nodes.zip matched).take ordinal).countP fun node => node.2 && inScope scopeTypeRaw node.1

/-- The nodes that a live query returns, in pre-order, with their ordinals. -/
def liveQuery (returns : QueryNode → Bool) (nodes : List QueryNode) : List (QueryNode × ℕ) :=
  nodes.zipIdx.filter fun node => returns node.1

/-- `label MATCHES %@ OR title MATCHES %@ OR value MATCHES %@`. -/
def byPattern (evaluate : List Char → List Char → Bool) (pattern : List Char)
    (scopeTypeRaw : Option ℕ) (node : QueryNode) : Bool :=
  (evaluate pattern node.label || evaluate pattern node.title || evaluate pattern node.value) &&
    inScope scopeTypeRaw node

/-! ### White space -/

theorem isWhitespace_eq (c : Char) : isWhitespace c = Agent.TextMatch.isWhitespace c := by
  rw [Bool.eq_iff_iff, isWhitespace, Agent.TextMatch.isWhitespace, memberOf,
    Agent.TextMatch.whitespace]
  simp only [Bool.or_eq_true, decide_eq_true_eq, Bool.and_eq_true, List.mem_cons, List.not_mem_nil,
    or_false, List.any_cons, List.any_nil, Bool.or_false]
  have hone : ∀ d : Char, (d ≤ c ∧ c ≤ d) ↔ c = d := fun d =>
    ⟨fun h => Char.le_antisymm h.2 h.1, fun h => h ▸ ⟨Char.le_refl _, Char.le_refl _⟩⟩
  simp only [hone]
  tauto

theorem isWhitespace_space : isWhitespace ' ' = true := by decide

theorem isWhitespace_comma : isWhitespace ',' = false := by decide

theorem inClass_eq (c : Char) : inClass none Agent.TextMatch.whitespace c = isWhitespace c := by
  rw [isWhitespace_eq]
  exact Bool.or_false _

/-- With something out, the loop adds what is left behind it. -/
theorem normalizeLoop_out {gap : Char} (hgap : isWhitespace gap = true) (s out : List Char)
    (hout : out ≠ []) :
    normalizeLoop s out false = out ++ Words.back isWhitespace ' ' s ∧
      normalizeLoop s out true = out ++ Words.back isWhitespace ' ' (gap :: s) := by
  induction s generalizing out with
  | nil =>
    have hnil : Words.back isWhitespace ' ' [gap] = [] :=
      (Words.back_eq_nil_iff isWhitespace_space).mpr fun c hc => List.mem_singleton.mp hc ▸ hgap
    rw [hnil, List.append_nil]
    exact ⟨(List.append_nil out).symm, rfl⟩
  | cons c s ih =>
    have hconcat : ∀ out' : List Char, out' ++ [c] ≠ [] := by simp
    rw [normalizeLoop, normalizeLoop]
    cases hc : isWhitespace c with
    | true =>
      rw [if_pos rfl, if_pos rfl, (ih out hout).2,
        Words.back_gap (s := c :: s) hgap (show _ = true from hc)]
      have hsame : Words.back isWhitespace ' ' (gap :: s) = Words.back isWhitespace ' ' (c :: s) := by
        rw [Words.back, Words.back, Words.collapse, Words.collapse, if_pos hgap, if_pos hc]
      rw [hsame]
      exact ⟨rfl, rfl⟩
    | false =>
      rw [if_neg Bool.false_ne_true, if_neg Bool.false_ne_true, (ih _ (hconcat _)).1,
        (ih _ (hconcat _)).1, Words.back_cons isWhitespace_space hc,
        Words.back_separator isWhitespace_space hgap hc, Bool.false_and, if_neg Bool.false_ne_true,
        Bool.true_and, if_pos (decide_eq_true hout)]
      simp only [List.append_assoc, List.cons_append, List.nil_append, and_self]

/-- **The loop** collapses white space, and trims it. -/
theorem normalize_eq (text : List Char) : normalize text = Words.normalize isWhitespace ' ' text := by
  have hloop : ∀ (s : List Char) (pending : Bool),
      normalizeLoop s [] pending = Words.normalize isWhitespace ' ' s := by
    intro s
    induction s with
    | nil => exact fun _ => rfl
    | cons c s ih =>
      intro pending
      rw [normalizeLoop]
      cases hc : isWhitespace c with
      | true =>
        rw [if_pos rfl, ih true]
        rw [Words.normalize, Words.normalize, Words.collapse, if_pos hc]
        split_ifs
        · rfl
        · rw [Words.trim, Words.trim, List.dropWhile_cons_of_pos rfl]
      | false =>
        have hne : ¬ decide (c = ' ') = true := by
          intro h
          rw [of_decide_eq_true h, isWhitespace_space] at hc
          cases hc
        have hdrop : (c :: Words.collapse isWhitespace ' ' s).dropWhile (fun d => decide (d = ' ')) =
            c :: Words.collapse isWhitespace ' ' s := List.dropWhile_cons_of_neg hne
        rw [if_neg Bool.false_ne_true, decide_eq_false (not_not_intro rfl), Bool.and_false,
          if_neg Bool.false_ne_true, List.nil_append,
          (normalizeLoop_out isWhitespace_space s [c] (List.cons_ne_nil _ _)).1, Words.normalize,
          Words.collapse_cons_of_not hc, Words.trim, hdrop, ← Words.collapse_cons_of_not hc]
        exact (Words.back_cons isWhitespace_space hc).symm
  exact hloop text false

/-! ### What the patterns match -/

section Meaning

variable {escaped : Char → Bool} (hescape : Icu.Protects escaped)

/-- The words of a query. -/
def queryWords (query : List Char) : List (List Char) :=
  if normalize query = [] then [] else (normalize query).splitOn ' '

theorem queryWords_spec (query : List Char) :
    (∀ w ∈ queryWords query, Words.Word isWhitespace w) ∧
      [' '].intercalate (queryWords query) = normalize query ∧
      (queryWords query = [] ↔ normalize query = []) := by
  unfold queryWords
  by_cases hempty : normalize query = []
  · rw [if_pos hempty]
    exact ⟨fun w hw => absurd hw List.not_mem_nil, hempty.symm, iff_of_true rfl hempty⟩
  · rw [normalize_eq] at hempty ⊢
    obtain ⟨hne, hword, hjoin⟩ := Words.splitOn_normalize isWhitespace_space hempty
    rw [if_neg hempty]
    exact ⟨hword, hjoin, iff_of_false hne hempty⟩

theorem scan_wsClass : Icu.scan (.base .plain) wsClass =
    some (.base .plain, [.item (.members Agent.TextMatch.whitespace)]) :=
  Icu.scan_quoted Agent.TextMatch.scan_WS_CLASS

include hescape in
theorem scan_words (query : List Char) : Icu.scan (.base .plain) (words escaped query) =
    some (.base .plain, (Agent.TextMatch.wordItems (queryWords query)).map .item) := by
  have hjoin : ∀ ws : List (List Char), Icu.scan (.base .plain)
      ((wsClass ++ ['+']).intercalate (ws.map (Icu.escapePattern escaped))) =
        some (.base .plain, (Agent.TextMatch.wordItems ws).map .item) := by
    intro ws
    unfold Agent.TextMatch.wordItems
    induction ws with
    | nil => rfl
    | cons w ws ih =>
      cases ws with
      | nil =>
        rw [List.map_singleton, List.map_singleton, List.intercalate_singleton,
          List.intercalate_singleton]
        exact Icu.scan_escapePattern hescape w
      | cons w₂ ws =>
        rw [List.map_cons, List.map_cons, List.map_cons, List.map_cons, List.intercalate_cons_cons,
          List.intercalate_cons_cons, List.map_append, List.map_append]
        have hgap : Icu.scan (.base .plain) (wsClass ++ ['+']) = some (.base .plain,
            ([.members Agent.TextMatch.whitespace, .plus] : List Item).map .item) :=
          Icu.scan_append scan_wsClass rfl
        exact Icu.scan_append (Icu.scan_append (Icu.scan_escapePattern hescape w) hgap) ih
  have hfilter : (queryWords query).filter (· ≠ []) = queryWords query :=
    List.filter_eq_self.mpr fun w hw => decide_eq_true ((queryWords_spec query).1 w hw).1
  unfold words
  dsimp only
  split_ifs with hempty
  · rw [(queryWords_spec query).2.2.mpr hempty]
    rfl
  · have hwords : queryWords query = (normalize query).splitOn ' ' := if_neg hempty
    rw [← hwords, hfilter]
    exact hjoin _

theorem means_words (dotAll : Bool) (ws : List (List Char)) :
    Means dotAll none (Agent.TextMatch.wordItems ws) fun s => Words.Run isWhitespace Eq ws s [] := by
  have hgap : Agent.TextMatch.isWhitespace = isWhitespace := (funext isWhitespace_eq).symm
  have hsame : (fun p c => sameChar none p c = true) = Eq := by
    funext p c
    exact propext decide_eq_true_iff
  have hmeans := @Agent.TextMatch.means_words dotAll none
    (fun c => Bool.or_false _) ws
  rwa [hgap, hsame] at hmeans

/-- A gap that may be empty, and one that may not. -/
theorem means_gap (dotAll : Bool) :
    Means dotAll none [.members Agent.TextMatch.whitespace, .star]
      (fun s => ∀ c ∈ s, isWhitespace c = true) ∧
    Means dotAll none [.members Agent.TextMatch.whitespace, .plus]
      (fun s => s ≠ [] ∧ ∀ c ∈ s, isWhitespace c = true) := by
  have hclass : inClass none Agent.TextMatch.whitespace = isWhitespace := funext inClass_eq
  have hstar := @means_members_star dotAll none Agent.TextMatch.whitespace
  have hplus := @means_members_plus dotAll none Agent.TextMatch.whitespace
  rw [hclass] at hstar hplus
  exact ⟨hstar, hplus⟩

include hescape in
/-- What the exact pattern is compiled to. -/
theorem compile_exactPattern (query : List Char) :
    ∃ r, Icu.compile (exactPattern escaped query) = some r ∧
      ∀ t, r.Matches t ↔ ∃ a v b, t = a ++ v ∧ (∀ c ∈ a, isWhitespace c = true) ∧
        Words.Run isWhitespace Eq (queryWords query) v b ∧ ∀ c ∈ b, isWhitespace c = true := by
  have hgaps : Icu.scan (.base .plain) (wsClass ++ ['*']) = some (.base .plain,
      ([.members Agent.TextMatch.whitespace, .star] : List Item).map .item) :=
    Icu.scan_append scan_wsClass rfl
  have hpattern : Icu.scan (.base .plain) (exactPattern escaped query) = some (.base .plain,
      ([.members Agent.TextMatch.whitespace, .star] ++ (Agent.TextMatch.wordItems (queryWords query) ++
        [.members Agent.TextMatch.whitespace, .star]) : List Item).map .item) := by
    unfold exactPattern
    rw [List.append_assoc (_ ++ _ ++ _), List.append_assoc (_ ++ _), List.map_append,
      List.map_append]
    exact Icu.scan_append hgaps (Icu.scan_append (scan_words hescape query) hgaps)
  have hmeans := (means_gap false).1.append ((means_words false (queryWords query)).append
    (means_gap false).1 (noQuantifier_members _ _))
    (noQuantifier_append (Agent.TextMatch.noQuantifier_words _) (noQuantifier_members _ _))
  have hflag : "(?s)".toList.isPrefixOf (exactPattern escaped query) = false := rfl
  obtain ⟨r, hr, hall⟩ := Icu.compile_items hflag hpattern hmeans
  refine ⟨r, hr, fun t => (hall t).trans ?_⟩
  constructor
  · rintro ⟨a, -, rfl, ha, m, b, rfl, hrun, hb⟩
    exact ⟨a, m ++ b, b, rfl, ha, Words.run_iff_append.mpr ⟨m, rfl, hrun⟩, hb⟩
  · rintro ⟨a, v, b, rfl, ha, hrun, hb⟩
    obtain ⟨m, rfl, hm⟩ := Words.run_iff_append.mp hrun
    exact ⟨a, m ++ b, rfl, ha, m, b, rfl, hm, hb⟩

include hescape in
/-- What the pattern for joined labels is compiled to. -/
theorem compile_concatenatedLabelPattern (query : List Char) :
    ∃ r, Icu.compile (concatenatedLabelPattern escaped query) = some r ∧
      ∀ t, r.Matches t ↔ ∃ u v b, t = u ++ v ∧
        ((∀ c ∈ u, isWhitespace c = true) ∨
          ∃ x g, u = x ++ ',' :: g ∧ g ≠ [] ∧ ∀ c ∈ g, isWhitespace c = true) ∧
        Words.Run isWhitespace Eq (queryWords query) v b ∧
        ((∀ c ∈ b, isWhitespace c = true) ∨
          ∃ y, b = ',' :: y ∧ y.head?.any isWhitespace = true) := by
  have hopen : Icu.scan (.base .plain) "(?:".toList = some (.base .plain, [.openGroup]) := rfl
  have hfirst : Icu.scan (.base .plain) "*|.*,".toList = some (.base .plain,
      [.item .star, .bar, .item .dot, .item .star, .item (.char ',')]) := rfl
  have hsecond : Icu.scan (.base .plain) "+)".toList = some (.base .plain,
      [.item .plus, .close]) := rfl
  have hthird : Icu.scan (.base .plain) "*|,".toList = some (.base .plain,
      [.item .star, .bar, .item (.char ',')]) := rfl
  have hfourth : Icu.scan (.base .plain) "+.*)".toList = some (.base .plain,
      [.item .plus, .item .dot, .item .star, .close]) := rfl
  have hpattern := Icu.scan_append hopen <| Icu.scan_append scan_wsClass <|
    Icu.scan_append hfirst <| Icu.scan_append scan_wsClass <| Icu.scan_append hsecond <|
    Icu.scan_append (scan_words hescape query) <| Icu.scan_append hopen <|
    Icu.scan_append scan_wsClass <| Icu.scan_append hthird <| Icu.scan_append scan_wsClass hfourth
  have hdots : Means true none [.dot, .star] fun _ => True := means_dots
  have hcomma : Means true none [.char ','] (· = [',']) := by
    refine (means_char ',').congr fun s => ?_
    constructor
    · rintro ⟨c, rfl, hc⟩
      rw [of_decide_eq_true hc]
    · rintro rfl
      exact ⟨',', rfl, rfl⟩
  have hleft := hdots.append (hcomma.append (means_gap true).2 (noQuantifier_members _ _))
    (noQuantifier_text [','])
  have hdot : NoQuantifier [.dot, .star] := by
    intro i hi
    obtain rfl := Option.some.inj hi
    exact ⟨fun h => (by cases h), fun h => (by cases h)⟩
  have hright := hcomma.append ((means_gap true).2.append hdots hdot) (noQuantifier_members _ _)
  obtain ⟨r, hr, hall⟩ := Icu.build_between (means_gap true).1 hleft
    (means_words true (queryWords query)) (means_gap true).1 hright
  refine ⟨r, ?_, fun t => (hall t).trans ?_⟩
  · refine Eq.trans (Icu.compile_tokens rfl ?_) hr
    refine Eq.trans (congrArg (Icu.scan (.base .plain)) ?_) hpattern
    unfold concatenatedLabelPattern
    simp only [List.append_assoc]
    rfl
  · constructor
    · rintro ⟨u, m, v, rfl, hu, hm, hv⟩
      refine ⟨u, m ++ v, v, rfl, hu.imp_right ?_, Words.run_iff_append.mpr ⟨m, rfl, hm⟩,
        hv.imp_right ?_⟩
      · rintro ⟨x, _, rfl, -, _, g, rfl, rfl, hne, hg⟩
        exact ⟨x, g, rfl, hne, hg⟩
      · rintro ⟨_, _, rfl, rfl, g, y, rfl, ⟨hne, hg⟩, -⟩
        obtain ⟨c, g, rfl⟩ := List.exists_cons_of_ne_nil hne
        exact ⟨_, rfl, hg c List.mem_cons_self⟩
    · rintro ⟨u, v, b, rfl, hu, hrun, hb⟩
      obtain ⟨m, rfl, hm⟩ := Words.run_iff_append.mp hrun
      refine ⟨u, m, b, rfl, hu.imp_right ?_, hm, hb.imp_right ?_⟩
      · rintro ⟨x, g, rfl, hne, hg⟩
        exact ⟨x, ',' :: g, rfl, trivial, [','], g, rfl, rfl, hne, hg⟩
      · rintro ⟨y, rfl, hy⟩
        cases y with
        | nil => cases hy
        | cons c y =>
          refine ⟨[','], c :: y, rfl, rfl, [c], y, rfl, ⟨List.cons_ne_nil _ _, fun d hd => ?_⟩, trivial⟩
          rw [List.mem_singleton.mp hd]
          exact hy

end Meaning

/-! ### Children of joined labels -/

section Children

variable {label query : List Char}

/-- The child is first or further in, with something behind it. -/
def Elsewhere (label query : List Char) : Prop :=
  normalize query ++ [',', ' '] <+: normalize label ∨
    [',', ' '] ++ normalize query ++ [',', ' '] <:+: normalize label

/-- The label ends in white space, and with the child and a comma before that. -/
def Dangling (label query : List Char) : Prop :=
  label.getLast?.any isWhitespace = true ∧
    ∃ f, normalize label = f ++ (normalize query ++ [',']) ∧
      (normalize query = [] ∨ f = [] ∨ [',', ' '] <:+ f)

theorem head_normalize (text : List Char) : (normalize text).head? ≠ some ' ' := by
  rw [normalize_eq]
  exact Words.head_trim _

theorem getLast_normalize (text : List Char) : (normalize text).getLast? ≠ some ' ' := by
  rw [normalize_eq]
  exact Words.getLast_trim _

theorem containsChildText_cases : containsChildText label query = true ↔
    normalize label = normalize query ∨ normalize query ++ [',', ' '] <+: normalize label ∨
      [',', ' '] ++ normalize query <:+ normalize label ∨
      [',', ' '] ++ normalize query ++ [',', ' '] <:+: normalize label := by
  unfold containsChildText
  dsimp only
  split_ifs with hwhole hfirst hlast
  · exact iff_of_true rfl (.inl hwhole)
  · exact iff_of_true rfl (.inr (.inl hfirst))
  · exact iff_of_true rfl (.inr (.inr (.inl hlast)))
  · rw [decide_eq_true_iff]
    exact ⟨fun h => .inr (.inr (.inr h)), fun h =>
      ((h.resolve_left hwhole).resolve_left hfirst).resolve_left hlast⟩

/-- The walk looks for the child with nothing or a comma and a space on either side. -/
theorem containsChildText_iff : containsChildText label query = true ↔
    ∃ f r, normalize label = f ++ (normalize query ++ r) ∧ (f = [] ∨ [',', ' '] <:+ f) ∧
      (r = [] ∨ [',', ' '] <+: r) := by
  rw [containsChildText_cases]
  constructor
  · rintro (h | ⟨r, hr⟩ | ⟨f, hf⟩ | ⟨f, r, h⟩)
    · exact ⟨[], [], by rw [h, List.append_nil, List.nil_append], .inl rfl, .inl rfl⟩
    · exact ⟨[], [',', ' '] ++ r, by rw [← hr, List.append_assoc, List.nil_append], .inl rfl,
        .inr (List.prefix_append _ _)⟩
    · exact ⟨f ++ [',', ' '], [], by rw [← hf, List.append_nil, List.append_assoc],
        .inr (List.suffix_append _ _), .inl rfl⟩
    · exact ⟨f ++ [',', ' '], [',', ' '] ++ r, by rw [← h]; simp only [List.append_assoc],
        .inr (List.suffix_append _ _), .inr (List.prefix_append _ _)⟩
  · rintro ⟨f, r, h, hf | ⟨x, rfl⟩, hr | ⟨y, rfl⟩⟩
    · subst hf hr
      exact .inl (by rw [h, List.append_nil, List.nil_append])
    · subst hf
      exact .inr (.inl ⟨y, by rw [h, List.append_assoc, List.nil_append]⟩)
    · subst hr
      exact .inr (.inr (.inl ⟨x, by rw [h, List.append_nil, List.append_assoc]⟩))
    · exact .inr (.inr (.inr ⟨x, y, by rw [h]; simp only [List.append_assoc]⟩))

/-- With the label dangling, the walk finds the child elsewhere only. -/
theorem Dangling.containsChildText_iff (h : Dangling label query) :
    containsChildText label query = true ↔ Elsewhere label query := by
  obtain ⟨-, f, hlabel, -⟩ := h
  rw [containsChildText_cases, Elsewhere]
  constructor
  · rintro (hwhole | hfirst | hlast | hmiddle)
    · have hlength := congrArg List.length (hwhole.symm.trans hlabel)
      simp only [List.length_append, List.length_cons, List.length_nil] at hlength
      omega
    · exact .inl hfirst
    · -- the child would be itself shifted by a comma
      have hsuffix : normalize query ++ [','] <:+ [',', ' '] ++ normalize query := by
        refine List.suffix_of_suffix_length_le ⟨f, hlabel.symm⟩ hlast ?_
        simp only [List.length_append, List.length_cons, List.length_nil]
        omega
      obtain ⟨e, he⟩ := hsuffix
      have hlength := congrArg List.length he
      simp only [List.length_append, List.length_cons, List.length_nil] at hlength
      obtain ⟨c, rfl⟩ := List.length_eq_one_iff.mp (by omega : e.length = 1)
      have hshift : normalize query ++ [','] = ' ' :: normalize query := (List.cons.inj he).2
      have hhead := head_normalize query
      cases hquery : normalize query with
      | nil =>
        rw [hquery] at hshift
        exact absurd (List.cons.inj hshift).1 (by decide)
      | cons d rest =>
        rw [hquery] at hshift hhead
        exact absurd (congrArg some (List.cons.inj hshift).1) hhead
    · exact .inr hmiddle
  · exact fun h => h.elim (fun hfirst => .inr (.inl hfirst)) fun hmiddle =>
      .inr (.inr (.inr hmiddle))

/-- What the pattern has before the child, in the text and as it is normalised. -/
theorem left_iff {u : List Char} : ((∀ c ∈ u, isWhitespace c = true) ∨
      ∃ x g, u = x ++ ',' :: g ∧ g ≠ [] ∧ ∀ c ∈ g, isWhitespace c = true) ↔
    Words.front isWhitespace ' ' u = [] ∨ [',', ' '] <:+ Words.front isWhitespace ' ' u := by
  rw [Words.front_eq_nil_iff isWhitespace_space,
    Words.front_mark_iff isWhitespace_space isWhitespace_comma]

/-- What it has behind the child. -/
theorem right_iff {b : List Char} : ((∀ c ∈ b, isWhitespace c = true) ∨
      ∃ y, b = ',' :: y ∧ y.head?.any isWhitespace = true) ↔
    Words.back isWhitespace ' ' b = [] ∨ [',', ' '] <+: Words.back isWhitespace ' ' b ∨
      (Words.back isWhitespace ' ' b = [','] ∧ b.getLast?.any isWhitespace = true) := by
  rw [Words.back_eq_nil_iff isWhitespace_space,
    Words.back_mark_iff isWhitespace_space isWhitespace_comma]

theorem run_comma {v b : List Char} : Words.Run isWhitespace Eq [[',']] v b ↔ v = ',' :: b := by
  constructor
  · rintro ⟨w, hw, rfl⟩
    obtain rfl := List.forall₂_eq_eq_eq ▸ hw
    rfl
  · rintro rfl
    exact ⟨[','], List.forall₂_refl _, rfl⟩

theorem word_comma : ∀ w ∈ [[',']], Words.Word isWhitespace w := by
  intro w hw
  rw [List.mem_singleton.mp hw]
  exact ⟨List.cons_ne_nil _ _, fun c hc => List.mem_singleton.mp hc ▸ isWhitespace_comma⟩

/-- A comma in a normalised label is in the label. -/
theorem split_comma {f r : List Char} : normalize label = f ++ ',' :: r ↔
    ∃ u b, label = u ++ ',' :: b ∧ Words.front isWhitespace ' ' u = f ∧
      Words.back isWhitespace ' ' b = r := by
  have hsplit := Words.normalize_split_iff (t := label) (f := f) (r := r) isWhitespace_space
    word_comma (List.cons_ne_nil _ _)
  rw [← normalize_eq, List.intercalate_singleton] at hsplit
  refine Iff.trans hsplit ?_
  constructor
  · rintro ⟨u, v, b, hlabel, hrun, hf, hr⟩
    exact ⟨u, b, by rw [hlabel, run_comma.mp hrun], hf, hr⟩
  · rintro ⟨u, b, hlabel, hf, hr⟩
    exact ⟨u, ',' :: b, b, hlabel, run_comma.mpr rfl, hf, hr⟩

theorem getLast_behind {u v b : List Char} {ws : List (List Char)}
    (hrun : Words.Run isWhitespace Eq ws v b) (hb : Words.back isWhitespace ' ' b = [',']) :
    (u ++ v).getLast? = b.getLast? := by
  obtain ⟨m, rfl, -⟩ := Words.run_iff_append.mp hrun
  have hne : b ≠ [] := by
    rintro rfl
    cases hb
  rw [← List.append_assoc, List.getLast?_append_of_ne_nil _ hne]

/-- Without a child, the pattern looks for commas with white space behind them. -/
theorem pattern_iff_of_nil (hquery : normalize query = []) : (∃ u v b, label = u ++ v ∧
      (Words.front isWhitespace ' ' u = [] ∨ [',', ' '] <:+ Words.front isWhitespace ' ' u) ∧
      v = b ∧
      (Words.back isWhitespace ' ' b = [] ∨ [',', ' '] <+: Words.back isWhitespace ' ' b ∨
        (Words.back isWhitespace ' ' b = [','] ∧ b.getLast?.any isWhitespace = true))) ↔
    (∃ f r, normalize label = f ++ r ∧ (f = [] ∨ [',', ' '] <:+ f) ∧
      (r = [] ∨ [',', ' '] <+: r)) ∨ Dangling label query := by
  rw [Dangling, hquery]
  constructor
  · rintro ⟨u, v, _, rfl, hu, rfl, hb | hb⟩
    · rcases left_iff.mpr hu with hgap | ⟨x, g, rfl, hne, hg⟩
      · have hall : ∀ c ∈ u ++ v, isWhitespace c = true := by
          intro c hc
          rcases List.mem_append.mp hc with hc | hc
          · exact hgap c hc
          · exact (Words.back_eq_nil_iff isWhitespace_space).mp hb c hc
        refine .inl ⟨[], [], ?_, .inl rfl, .inl rfl⟩
        rw [normalize_eq, (Words.normalize_eq_nil_iff isWhitespace_space).mpr hall]
        rfl
      · have hall : ∀ c ∈ g ++ v, isWhitespace c = true := by
          intro c hc
          rcases List.mem_append.mp hc with hc | hc
          · exact hg c hc
          · exact (Words.back_eq_nil_iff isWhitespace_space).mp hb c hc
        have hback := (Words.back_eq_nil_iff isWhitespace_space).mpr hall
        have hlabel : normalize (x ++ ',' :: g ++ v) = Words.front isWhitespace ' ' x ++ [','] :=
          split_comma.mpr ⟨x, g ++ v, List.append_assoc _ _ _, rfl, hback⟩
        have hne' : g ++ v ≠ [] := by simp [hne]
        refine .inr ⟨?_, _, hlabel, .inl rfl⟩
        rw [List.append_assoc, List.cons_append, List.getLast?_append_of_ne_nil _ (by simp),
          List.getLast?_cons_of_ne_nil hne', List.getLast?_eq_some_getLast hne', Option.any_some]
        exact hall _ (List.getLast_mem hne')
    · obtain ⟨y, rfl, hy⟩ :=
        (Words.back_mark_iff isWhitespace_space isWhitespace_comma).mpr hb
      have hlabel : normalize (u ++ ',' :: y) =
          Words.front isWhitespace ' ' u ++ Words.back isWhitespace ' ' (',' :: y) := by
        rw [Words.back_cons isWhitespace_space isWhitespace_comma]
        exact split_comma.mpr ⟨u, y, rfl, rfl, rfl⟩
      rcases hb with hb | ⟨hb, hlast⟩
      · exact .inl ⟨_, _, hlabel, hu, .inr hb⟩
      · rw [hb] at hlabel
        refine .inr ⟨?_, _, hlabel, .inl rfl⟩
        rwa [List.getLast?_append_of_ne_nil _ (List.cons_ne_nil _ _)]
  · rintro (⟨f, r, hlabel, hf, hr⟩ | ⟨hlast, f, hlabel, -⟩)
    · rcases hr with rfl | ⟨z, rfl⟩
      · rw [List.append_nil] at hlabel
        rcases hf with rfl | ⟨x, rfl⟩
        · rw [normalize_eq, Words.normalize_eq_nil_iff isWhitespace_space] at hlabel
          exact ⟨label, [], [], (List.append_nil label).symm,
            .inl ((Words.front_eq_nil_iff isWhitespace_space).mpr hlabel), rfl, .inl rfl⟩
        · have hend := getLast_normalize label
          rw [hlabel, List.getLast?_append_of_ne_nil _ (List.cons_ne_nil _ _)] at hend
          exact absurd rfl hend
      · obtain ⟨u, b, rfl, rfl, hb⟩ := split_comma.mp hlabel
        refine ⟨u, ',' :: b, ',' :: b, rfl, hf, rfl, .inr (.inl ⟨z, ?_⟩)⟩
        rw [Words.back_cons isWhitespace_space isWhitespace_comma, hb]
        rfl
    · obtain ⟨u, b, rfl, -, hb⟩ := split_comma.mp hlabel
      have hgap := (Words.back_eq_nil_iff isWhitespace_space).mp hb
      have hne : b ≠ [] := by
        rintro rfl
        rw [List.getLast?_append_of_ne_nil _ (List.cons_ne_nil _ _)] at hlast
        exact absurd hlast (by decide)
      refine ⟨u ++ ',' :: b, [], [], (List.append_nil _).symm, .inr ?_, rfl, .inl rfl⟩
      exact (Words.front_mark_iff isWhitespace_space isWhitespace_comma).mpr ⟨u, b, rfl, hne, hgap⟩

/-- **The pattern** matches the labels in which the walk finds the child, and those that dangle. -/
theorem pattern_iff : (∃ u v b, label = u ++ v ∧
      ((∀ c ∈ u, isWhitespace c = true) ∨
        ∃ x g, u = x ++ ',' :: g ∧ g ≠ [] ∧ ∀ c ∈ g, isWhitespace c = true) ∧
      Words.Run isWhitespace Eq (queryWords query) v b ∧
      ((∀ c ∈ b, isWhitespace c = true) ∨
        ∃ y, b = ',' :: y ∧ y.head?.any isWhitespace = true)) ↔
    containsChildText label query = true ∨ Dangling label query := by
  obtain ⟨hword, hjoin, hempty⟩ := queryWords_spec query
  simp only [left_iff, right_iff]
  rw [containsChildText_iff]
  by_cases hne : queryWords query = []
  · have hquery := hempty.mp hne
    simp only [hne, hquery, List.nil_append]
    exact pattern_iff_of_nil hquery
  · have hsplit := fun f r => Words.normalize_split_iff (t := label) (f := f) (r := r)
      isWhitespace_space hword hne
    rw [hjoin, ← normalize_eq] at hsplit
    constructor
    · rintro ⟨u, v, b, rfl, hu, hrun, hb⟩
      have hlabel := (hsplit _ _).mpr ⟨u, v, b, rfl, hrun, rfl, rfl⟩
      rcases hb with hb | hb | ⟨hb, hlast⟩
      · exact .inl ⟨_, _, hlabel, hu, .inl hb⟩
      · exact .inl ⟨_, _, hlabel, hu, .inr hb⟩
      · rw [hb] at hlabel
        refine .inr ⟨?_, _, hlabel, .inr hu⟩
        rwa [getLast_behind hrun hb]
    · rintro (⟨f, r, hlabel, hf, hr⟩ | ⟨hlast, f, hlabel, hf⟩)
      · obtain ⟨u, v, b, rfl, hrun, rfl, rfl⟩ := (hsplit f r).mp hlabel
        exact ⟨u, v, b, rfl, hf, hrun, hr.imp_right .inl⟩
      · obtain ⟨u, v, b, rfl, hrun, rfl, hb⟩ := (hsplit f [',']).mp hlabel
        refine ⟨u, v, b, rfl, hf.resolve_left (mt hempty.mpr hne), hrun, .inr (.inr ⟨hb, ?_⟩)⟩
        rwa [getLast_behind hrun hb] at hlast

end Children

/-! ### The index of a node -/

section Index

theorem filter_zipIdx_getElem? {α : Type} {p : α → Bool} {xs : List α} {i : ℕ} {x : α}
    (hx : xs[i]? = some x) (hp : p x = true) (n : ℕ) :
    ((xs.zipIdx n).filter fun y => p y.1)[(xs.take i).countP p]? = some (x, n + i) := by
  induction xs generalizing i n with
  | nil => cases hx
  | cons y xs ih =>
    have hfilter : ((y :: xs).zipIdx n).filter (fun y => p y.1) =
        if p y = true then (y, n) :: (xs.zipIdx (n + 1)).filter fun y => p y.1
        else (xs.zipIdx (n + 1)).filter fun y => p y.1 := by
      rw [List.zipIdx_cons, List.filter_cons]
    rw [hfilter]
    cases i with
    | zero =>
      obtain rfl := Option.some.inj hx
      rw [List.take_zero, List.countP_nil, if_pos hp]
      rfl
    | succ i =>
      have hrest := ih hx (n + 1)
      rw [List.take_succ_cons, List.countP_cons]
      by_cases hy : p y = true
      · rw [if_pos hy, if_pos hy, List.getElem?_cons_succ, hrest]
        congr 2
        omega
      · rw [if_neg hy, if_neg hy, Nat.add_zero (List.countP p (xs.take i)), hrest]
        congr 2
        omega

/-- **The query by the label** returns the node at its index. -/
theorem liveIndex_picks {nodes : List QueryNode} {ordinal : ℕ} {target : QueryNode}
    (htarget : nodes[ordinal]? = some target) {scopeTypeRaw : Option ℕ}
    (hscope : inScope scopeTypeRaw target = true) :
    ∃ i, liveIndex ordinal nodes scopeTypeRaw = some i ∧
      (liveQuery (byOwnLabel target scopeTypeRaw) nodes)[i]? = some (target, ordinal) := by
  refine ⟨_, by rw [liveIndex, htarget]; rfl, ?_⟩
  have hself : byOwnLabel target scopeTypeRaw target = true := by
    rw [byOwnLabel, hscope, decide_eq_true rfl, decide_eq_true rfl, Bool.or_true]
    rfl
  have hpicks := filter_zipIdx_getElem? htarget hself 0
  rwa [Nat.zero_add] at hpicks

/-- A query by a pattern that matches what the walk matched returns the node at its index. -/
theorem substringLiveIndex_picks {nodes : List QueryNode} {ordinal : ℕ} {target : QueryNode}
    (htarget : nodes[ordinal]? = some target) {scopeTypeRaw : Option ℕ}
    (hscope : inScope scopeTypeRaw target = true) {found : QueryNode → Bool}
    {returns : QueryNode → Bool}
    (hreturns : ∀ node, returns node = (found node && inScope scopeTypeRaw node))
    (hmatched : (nodes.map found)[ordinal]? = some true) :
    (liveQuery returns nodes)[substringLiveIndex ordinal nodes scopeTypeRaw (nodes.map found)]? =
      some (target, ordinal) := by
  have hfound : found target = true := by
    rw [List.getElem?_map, htarget, Option.map_some] at hmatched
    exact Option.some.inj hmatched
  have hself : returns target = true := by rw [hreturns, hfound, hscope]; rfl
  have hcount : substringLiveIndex ordinal nodes scopeTypeRaw (nodes.map found) =
      (nodes.take ordinal).countP returns := by
    rw [substringLiveIndex, List.zip_map_right, List.zip_eq_zipWith, List.zipWith_self,
      List.map_map, ← List.map_take, List.countP_map]
    exact congrArg (List.countP · _) (funext fun node => (hreturns node).symm)
  have hpicks := filter_zipIdx_getElem? htarget hself 0
  rw [hcount]
  rwa [Nat.zero_add] at hpicks

end Index

/-! ### The walk and the live queries -/

section Agreement

variable {escaped : Char → Bool} {evaluate : List Char → List Char → Bool}

/-- The walk and the live queries match the same texts, and the queries return the node of the walk
    at its index. -/
structure Agree (escaped : Char → Bool) (evaluate : List Char → List Char → Bool)
    (label query : List Char) : Prop where
  equal : equals label query = true ↔ evaluate (exactPattern escaped query) label = true
  child : containsChildText label query = true ↔
    evaluate (concatenatedLabelPattern escaped query) label = true
  /-- the query by the label; its scope is the type of the node, or every type -/
  byLabel : ∀ (nodes : List QueryNode) (ordinal : ℕ) (target : QueryNode) (scopeTypeRaw : Option ℕ),
    nodes[ordinal]? = some target → inScope scopeTypeRaw target = true →
    ∃ i, liveIndex ordinal nodes scopeTypeRaw = some i ∧
      (liveQuery (byOwnLabel target scopeTypeRaw) nodes)[i]? = some (target, ordinal)
  /-- the query by the exact text -/
  byExact : ∀ (nodes : List QueryNode) (ordinal : ℕ) (target : QueryNode) (scopeTypeRaw : Option ℕ),
    nodes[ordinal]? = some target → inScope scopeTypeRaw target = true →
    (exactMatches nodes query)[ordinal]? = some true →
    (liveQuery (byPattern evaluate (exactPattern escaped query) scopeTypeRaw) nodes)[
      substringLiveIndex ordinal nodes scopeTypeRaw (exactMatches nodes query)]? =
        some (target, ordinal)
  /-- the query by a part of the text -/
  bySubstring : ∀ (nodes : List QueryNode) (ordinal : ℕ) (target : QueryNode)
      (scopeTypeRaw : Option ℕ),
    nodes[ordinal]? = some target → inScope scopeTypeRaw target = true →
    (substringMatches escaped evaluate nodes query)[ordinal]? = some true →
    (liveQuery (byPattern evaluate (containsPattern escaped query) scopeTypeRaw) nodes)[
      substringLiveIndex ordinal nodes scopeTypeRaw (substringMatches escaped evaluate nodes query)]? =
        some (target, ordinal)

/-- The exact pattern says what the comparison of normalised texts does. -/
theorem exactPattern_iff (hescape : Icu.Protects escaped) (hengine : MatchesWhole evaluate)
    (label query : List Char) :
    equals label query = true ↔ evaluate (exactPattern escaped query) label = true := by
  obtain ⟨hword, hjoin, hempty⟩ := queryWords_spec query
  obtain ⟨r, hr, hall⟩ := compile_exactPattern hescape query
  rw [hengine.whole _ r hr label, hall, equals, decide_eq_true_iff]
  by_cases hne : queryWords query = []
  · rw [hempty.mp hne, hne, normalize_eq, Words.normalize_eq_nil_iff isWhitespace_space]
    constructor
    · exact fun hgap => ⟨label, [], [], (List.append_nil label).symm, hgap, rfl,
        fun c hc => absurd hc List.not_mem_nil⟩
    · rintro ⟨a, v, b, rfl, ha, rfl, hb⟩ c hc
      rcases List.mem_append.mp hc with hc | hc
      · exact ha c hc
      · exact hb c hc
  · rw [← hjoin, normalize_eq]
    exact Words.normalize_eq_iff isWhitespace_space hword hne

/-- The substring pattern says of the empty text what the walk does. -/
theorem containsPattern_iff (hescape : Icu.Protects escaped) (hengine : MatchesWhole evaluate)
    (text query : List Char) :
    contains escaped evaluate text query = evaluate (containsPattern escaped query) text := by
  rw [contains]
  split_ifs with hnil
  · subst hnil
    obtain ⟨hword, -, hempty⟩ := queryWords_spec query
    have hdots : Means true none [.dot, .star] fun _ => True := means_dots
    have hdot : NoQuantifier [.dot, .star] := by
      intro i hi
      obtain rfl := Option.some.inj hi
      exact ⟨fun h => (by cases h), fun h => (by cases h)⟩
    have hscan : Icu.scan (.base .plain) ".*".toList = some (.base .plain,
        ([.dot, .star] : List Item).map .item) := rfl
    have hpattern := Icu.scan_append hscan (Icu.scan_append (scan_words hescape query) hscan)
    rw [← List.map_append, ← List.map_append] at hpattern
    have hmeans := hdots.append ((means_words true (queryWords query)).append hdots hdot)
      (noQuantifier_append (Agent.TextMatch.noQuantifier_words _) hdot)
    have hflag : "(?s)".toList.isPrefixOf
        ("(?s)".toList ++ (".*".toList ++ (words escaped query ++ ".*".toList))) = true := rfl
    obtain ⟨r, hr, hall⟩ := Icu.compile_items hflag hpattern hmeans
    have hsource : containsPattern escaped query =
        "(?is)".toList ++ (".*".toList ++ (words escaped query ++ ".*".toList)) := by
      unfold containsPattern
      rw [List.append_assoc]
      rfl
    rw [Bool.eq_iff_iff, hsource, hengine.empty _ r hr, hall, decide_eq_true_iff, ← hempty]
    constructor
    · intro hne
      rw [hne]
      exact ⟨[], [], rfl, trivial, [], [], rfl, rfl, trivial⟩
    · rintro ⟨u, v, huv, -, m, w, rfl, hrun, -⟩
      by_contra hne
      have heq : ∀ a b : Char, a = b → isWhitespace a = false → isWhitespace b = false :=
        fun a b h ha => h ▸ ha
      obtain ⟨hm, -⟩ := hrun.head heq hword hne
      have hnil := (List.append_eq_nil_iff.mp huv.symm).2
      exact hm (List.append_eq_nil_iff.mp hnil).1
  · rfl

/-- **The walk and the live queries** agree on a label and a query exactly where the label does not
    end in white space behind the child and a comma, or the child is elsewhere in it. -/
theorem agree_iff (hescape : Icu.Protects escaped) (hengine : MatchesWhole evaluate)
    (label query : List Char) :
    Agree escaped evaluate label query ↔ (Dangling label query → Elsewhere label query) := by
  obtain ⟨r, hr, hall⟩ := compile_concatenatedLabelPattern hescape query
  have hpattern : evaluate (concatenatedLabelPattern escaped query) label = true ↔
      containsChildText label query = true ∨ Dangling label query :=
    (hengine.whole _ r hr label).trans ((hall label).trans pattern_iff)
  constructor
  · intro hagree hdangling
    exact hdangling.containsChildText_iff.mp (hagree.child.mpr (hpattern.mpr (.inr hdangling)))
  · intro helsewhere
    refine ⟨exactPattern_iff hescape hengine label query, ?_, ?_, ?_, ?_⟩
    · rw [hpattern]
      refine ⟨.inl, fun h => h.elim id fun hdangling => ?_⟩
      exact hdangling.containsChildText_iff.mpr (helsewhere hdangling)
    · exact fun nodes ordinal target scopeTypeRaw htarget hscope => liveIndex_picks htarget hscope
    · intro nodes ordinal target scopeTypeRaw htarget hscope hmatched
      refine substringLiveIndex_picks htarget hscope (fun node => ?_) hmatched
      have hsame : ∀ text, evaluate (exactPattern escaped query) text = equals text query :=
        fun text => Bool.eq_iff_iff.mpr (exactPattern_iff hescape hengine text query).symm
      rw [byPattern, hsame, hsame, hsame]
    · intro nodes ordinal target scopeTypeRaw htarget hscope hmatched
      refine substringLiveIndex_picks htarget hscope (fun node => ?_) hmatched
      rw [byPattern, containsPattern_iff hescape hengine, containsPattern_iff hescape hengine,
        containsPattern_iff hescape hengine]

/-- An engine of the fragment that ignores the case of ASCII. -/
def evaluateFragment (pattern text : List Char) : Bool :=
  if "(?is)".toList.isPrefixOf pattern = true then
    if text = [] then (Icu.compile ("(?s)".toList ++ pattern.drop 5)).any (·.test [])
    else (Icu.compile ("(?s)".toList ++ (pattern.drop 5).map Char.toLower)).any
      (·.test (text.map Char.toLower))
  else (Icu.compile pattern).any (·.test text)

def escapeFragment (c : Char) : Bool := c ∈ Icu.metacharacters

theorem escapeFragment_protects : Icu.Protects escapeFragment where
  metacharacter _ hc := decide_eq_true hc
  alphanumeric c halnum := by
    refine decide_eq_false fun hc => ?_
    have hnone : ∀ d ∈ Icu.metacharacters, d.isAlphanum = false := by decide
    rw [hnone c hc] at halnum
    cases halnum

theorem evaluateFragment_matchesWhole : MatchesWhole evaluateFragment where
  whole pattern r hr text := by
    have hflag : ¬ "(?is)".toList.isPrefixOf pattern = true := by
      intro hflag
      obtain ⟨rest, rfl⟩ := List.isPrefixOf_iff_prefix.mp hflag
      have hnone : Icu.compile ("(?is)".toList ++ rest) = none := rfl
      rw [hnone] at hr
      cases hr
    rw [evaluateFragment, if_neg hflag, hr, Option.any_some]
    exact RegExp.test_iff
  empty body r hr := by
    have hflag : "(?is)".toList.isPrefixOf ("(?is)".toList ++ body) = true := rfl
    have hdrop : ("(?is)".toList ++ body).drop 5 = body := rfl
    rw [evaluateFragment, if_pos hflag, if_pos rfl, hdrop, hr, Option.any_some]
    exact RegExp.test_iff

theorem agree_iff_more : Agree escapeFragment evaluateFragment "Save,  More".toList " Save".toList ↔
    (Dangling "Save,  More".toList " Save".toList → Elsewhere "Save,  More".toList " Save".toList) :=
  agree_iff escapeFragment_protects evaluateFragment_matchesWhole _ _

/-- A label of two texts of which the second is a space: the query returns it, the walk does not. -/
theorem not_agree_dangling :
    ¬ Agree escapeFragment evaluateFragment "Save,  ".toList "Save".toList := by
  intro hagree
  have hwalk : containsChildText "Save,  ".toList "Save".toList = false := by decide +kernel
  have hquery : evaluateFragment (concatenatedLabelPattern escapeFragment "Save".toList)
      "Save,  ".toList = true := by decide +kernel
  have hboth := hagree.child.mpr hquery
  rw [hwalk] at hboth
  cases hboth

end Agreement

end Tapsmith.Ios.TextMatch
