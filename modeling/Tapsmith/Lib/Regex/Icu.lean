import Tapsmith.Lib.Regex.Quoted

namespace Lib.Regex.Icu

open Lib.Regex.Quoted

/-!
# Patterns with groups of alternatives

A fragment of the patterns of ICU: those of `Lib.Regex.Quoted`, and groups without capture of
alternatives, which nothing repeats. A `]` outside of a class is itself.

* `step`, `scan` — reading a pattern; `scan_quoted` — as without groups;
* `build`, `compile` — the expression it stands for;
* `escapePattern`, `scan_escapePattern` — a text with its metacharacters escaped is read back;
* `build_between` — two groups with something between them.
-/

/-! ### Reading -/

inductive Token
  | item (i : Item)
  | openGroup
  | bar
  | close
deriving DecidableEq

/-- Where the reader is: as without groups, or at the front of a group. -/
inductive Mode
  | base (m : Quoted.Mode)
  | paren
  | parenMark
deriving DecidableEq

def step : Mode → Char → Option (Mode × List Token)
  | .base m, c =>
    if m = .plain ∧ c = '(' then some (.paren, [])
    else if m = .plain ∧ c = '|' then some (.base .plain, [.bar])
    else if m = .plain ∧ c = ')' then some (.base .plain, [.close])
    else if m = .plain ∧ c = ']' then some (.base .plain, [.item (.char ']')])
    else (Quoted.step m c).map fun read => (.base read.1, read.2.map .item)
  | .paren, c => if c = '?' then some (.parenMark, []) else none
  | .parenMark, c => if c = ':' then some (.base .plain, [.openGroup]) else none

def scan : Mode → List Char → Option (Mode × List Token)
  | mode, [] => some (mode, [])
  | mode, c :: s =>
    (step mode c).bind fun first => (scan first.1 s).map fun rest => (rest.1, first.2 ++ rest.2)

theorem scan_append {mode mode' mode'' : Mode} {s t : List Char} {tokens tokens' : List Token}
    (h : scan mode s = some (mode', tokens)) (h' : scan mode' t = some (mode'', tokens')) :
    scan mode (s ++ t) = some (mode'', tokens ++ tokens') := by
  induction s generalizing mode tokens with
  | nil =>
    obtain ⟨rfl, rfl⟩ := Prod.mk.inj (Option.some.inj h)
    exact h'
  | cons c s ih =>
    obtain ⟨first, hstep, hrest⟩ := Option.bind_eq_some_iff.mp h
    obtain ⟨rest, hscan, hread⟩ := Option.map_eq_some_iff.mp hrest
    obtain ⟨rfl, rfl⟩ := Prod.mk.inj hread
    rw [List.cons_append, scan, hstep, Option.bind_some, ih hscan, Option.map_some,
      List.append_assoc]

/-- What is read without groups is read the same. -/
theorem step_quoted {m m' : Quoted.Mode} {c : Char} {items : List Item}
    (h : Quoted.step m c = some (m', items)) :
    step (.base m) c = some (.base m', items.map .item) := by
  have hplain : ∀ d : Char, Quoted.step .plain d = none → ¬ (m = .plain ∧ c = d) := by
    rintro d hnone ⟨rfl, rfl⟩
    rw [hnone] at h
    cases h
  rw [step, if_neg (hplain '(' (by decide)), if_neg (hplain '|' (by decide)),
    if_neg (hplain ')' (by decide)), if_neg (hplain ']' (by decide)), h, Option.map_some]

theorem scan_quoted {m m' : Quoted.Mode} {s : List Char} {items : List Item}
    (h : Quoted.scan m s = some (m', items)) :
    scan (.base m) s = some (.base m', items.map .item) := by
  induction s generalizing m items with
  | nil =>
    obtain ⟨rfl, rfl⟩ := Prod.mk.inj (Option.some.inj h)
    rfl
  | cons c s ih =>
    obtain ⟨first, hstep, hrest⟩ := Option.bind_eq_some_iff.mp h
    obtain ⟨rest, hscan, hread⟩ := Option.map_eq_some_iff.mp hrest
    obtain ⟨rfl, rfl⟩ := Prod.mk.inj hread
    rw [scan, step_quoted hstep, Option.bind_some, ih hscan, Option.map_some, List.map_append]

/-! ### Expressions -/

/-- What has been read of a group: the alternatives before the last `|`, the front of the current
    one, and the items behind that. -/
structure Level where
  alts : RegExp Char := .fail
  done : RegExp Char := .empty
  pending : List Item := []

variable (dotAll : Bool)

/-- The current alternative. -/
def Level.term (l : Level) : Option (RegExp Char) :=
  (Quoted.build dotAll none l.pending).map fun r => .cat l.done r

def build : List Token → List Level → Level → Option (RegExp Char)
  | [], [], l => (l.term dotAll).map fun r => .alt l.alts r
  | [], _ :: _, _ => none
  | .item i :: rest, around, l => build rest around { l with pending := l.pending ++ [i] }
  | .openGroup :: rest, around, l =>
    (l.term dotAll).bind fun r => build rest ({ l with done := r, pending := [] } :: around) {}
  | .bar :: rest, around, l => (l.term dotAll).bind fun r => build rest around { alts := .alt l.alts r }
  | .close :: rest, outer :: around, l =>
    (l.term dotAll).bind fun r =>
      build rest around { outer with done := .cat outer.done (.alt l.alts r) }
  | .close :: _, [], _ => none

/-- The expression of a pattern that matches a whole text. The pattern may begin with the flag with
    which the dot is any character. -/
def compile (source : List Char) : Option (RegExp Char) :=
  let dotAll := "(?s)".toList.isPrefixOf source
  (scan (.base .plain) (if dotAll then source.drop 4 else source)).bind fun read =>
    if read.1 = .base .plain then build dotAll read.2 [] {} else none

variable {dotAll}

theorem compile_tokens {source : List Char} {tokens : List Token}
    (hflag : "(?s)".toList.isPrefixOf source = dotAll)
    (hscan : scan (.base .plain) (if dotAll then source.drop 4 else source) =
      some (.base .plain, tokens)) : compile source = build dotAll tokens [] {} := by
  unfold compile
  dsimp only
  rw [hflag, hscan, Option.bind_some, if_pos rfl]

theorem build_items (items : List Item) (rest : List Token) (around : List Level) (l : Level) :
    build dotAll (items.map .item ++ rest) around l =
      build dotAll rest around { l with pending := l.pending ++ items } := by
  induction items generalizing l with
  | nil => rw [List.map_nil, List.nil_append, List.append_nil]
  | cons i items ih =>
    rw [List.map_cons, List.cons_append, build, ih, List.append_assoc]
    rfl

/-- A group of two alternatives. -/
theorem build_group {first second : List Item} {p q : List Char → Prop}
    (hfirst : Means dotAll none first p) (hsecond : Means dotAll none second q)
    (rest : List Token) (around : List Level) (l : Level) {front : RegExp Char}
    (hfront : l.term dotAll = some front) :
    ∃ r : RegExp Char, build dotAll (.openGroup :: (first.map .item ++
        (.bar :: (second.map .item ++ (.close :: rest))))) around l =
      build dotAll rest around { alts := l.alts, done := .cat front r, pending := [] } ∧
      ∀ t, r.Matches t ↔ p t ∨ q t := by
  obtain ⟨a, ha, hp⟩ := hfirst
  obtain ⟨b, hb, hq⟩ := hsecond
  refine ⟨.alt (.alt .fail (.cat .empty a)) (.cat .empty b), ?_, fun t => ?_⟩
  · rw [build, hfront, Option.bind_some, build_items, build, Level.term]
    show ((Quoted.build dotAll none first).map fun r => RegExp.cat .empty r).bind _ = _
    rw [ha, Option.map_some, Option.bind_some, build_items, build, Level.term]
    show ((Quoted.build dotAll none second).map fun r => RegExp.cat .empty r).bind _ = _
    rw [hb, Option.map_some, Option.bind_some]
  · have hempty : ∀ (r : RegExp Char) t, (RegExp.cat .empty r).Matches t ↔ r.Matches t := by
      intro r t
      constructor
      · rintro ⟨u, v, rfl, rfl, hv⟩
        exact hv
      · exact fun h => ⟨[], t, rfl, rfl, h⟩
    show (False ∨ (RegExp.cat .empty a).Matches t) ∨ (RegExp.cat .empty b).Matches t ↔ _
    rw [false_or, hempty, hempty, hp, hq]

/-- **Two groups** with items between them. -/
theorem build_between {first second third fourth between : List Item}
    {p₁ p₂ p₃ p₄ q : List Char → Prop} (h₁ : Means dotAll none first p₁)
    (h₂ : Means dotAll none second p₂) (hq : Means dotAll none between q)
    (h₃ : Means dotAll none third p₃) (h₄ : Means dotAll none fourth p₄) :
    ∃ r : RegExp Char, build dotAll (.openGroup :: (first.map .item ++ (.bar :: (second.map .item ++
        (.close :: (between.map .item ++ (.openGroup :: (third.map .item ++
          (.bar :: (fourth.map .item ++ [.close])))))))))) [] {} = some r ∧
      ∀ t, r.Matches t ↔ ∃ u m v, t = u ++ (m ++ v) ∧ (p₁ u ∨ p₂ u) ∧ q m ∧ (p₃ v ∨ p₄ v) := by
  obtain ⟨x, hx, hq⟩ := hq
  obtain ⟨a, ha, hpa⟩ := build_group h₁ h₂ (between.map .item ++ (.openGroup :: (third.map .item ++
    (.bar :: (fourth.map .item ++ [.close]))))) [] {} rfl
  obtain ⟨b, hb, hpb⟩ := build_group h₃ h₄ [] []
    { alts := .fail, done := .cat (.cat .empty .empty) a, pending := between }
    (by rw [Level.term, hx, Option.map_some])
  refine ⟨.alt .fail (.cat (.cat (.cat (.cat (.cat .empty .empty) a) x) b) .empty), ?_, fun t => ?_⟩
  · rw [ha, build_items]
    exact hb
  · show (False ∨ ∃ w e, t = w ++ e ∧ (∃ w' v, w = w' ++ v ∧ (∃ u' m, w' = u' ++ m ∧
      (∃ e' u, u' = e' ++ u ∧ (∃ e₁ e₂, e' = e₁ ++ e₂ ∧ e₁ = [] ∧ e₂ = []) ∧ a.Matches u) ∧
        x.Matches m) ∧ b.Matches v) ∧ e = []) ↔ _
    rw [false_or]
    constructor
    · rintro ⟨_, _, rfl, ⟨_, v, rfl, ⟨_, m, rfl, ⟨_, u, rfl, ⟨_, _, rfl, rfl, rfl⟩, hu⟩, hm⟩, hv⟩,
        rfl⟩
      exact ⟨u, m, v, by simp, (hpa u).mp hu, (hq m).mp hm, (hpb v).mp hv⟩
    · rintro ⟨u, m, v, rfl, hu, hm, hv⟩
      exact ⟨u ++ (m ++ v), [], (List.append_nil _).symm, ⟨u ++ m, v, by simp, ⟨u, m, rfl,
        ⟨[], u, rfl, ⟨[], [], rfl, rfl, rfl⟩, (hpa u).mpr hu⟩, (hq m).mpr hm⟩, (hpb v).mpr hv⟩, rfl⟩

/-- Items alone. -/
theorem compile_items {source : List Char} {items : List Item} {p : List Char → Prop}
    (hflag : "(?s)".toList.isPrefixOf source = dotAll)
    (hscan : scan (.base .plain) (if dotAll then source.drop 4 else source) =
      some (.base .plain, items.map .item))
    (hmeans : Means dotAll none items p) :
    ∃ r, compile source = some r ∧ ∀ t, r.Matches t ↔ p t := by
  obtain ⟨x, hx, hp⟩ := hmeans
  refine ⟨.alt .fail (.cat .empty x), ?_, fun t => ?_⟩
  · rw [compile_tokens hflag hscan]
    have hall := @build_items dotAll items [] [] {}
    rw [List.append_nil] at hall
    rw [hall, build, Level.term]
    show ((Quoted.build dotAll none items).map _).map _ = _
    rw [hx]
    rfl
  · show (False ∨ ∃ u v, t = u ++ v ∧ u = [] ∧ x.Matches v) ↔ _
    rw [false_or, ← hp]
    constructor
    · rintro ⟨_, v, rfl, rfl, hv⟩
      exact hv
    · exact fun h => ⟨[], t, rfl, rfl, h⟩

/-! ### Escaped text -/

/-- The characters that have a meaning outside of a class. -/
def metacharacters : List Char := ['*', '?', '+', '[', '(', ')', '{', '}', '^', '$', '|', '\\', '.']

/-- A text with some of its characters escaped. -/
def escapePattern (escaped : Char → Bool) (s : List Char) : List Char :=
  s.flatMap fun c => if escaped c then ['\\', c] else [c]

/-- The metacharacters are escaped, and neither letters nor digits are. -/
structure Protects (escaped : Char → Bool) : Prop where
  metacharacter : ∀ c ∈ metacharacters, escaped c = true
  alphanumeric : ∀ c, c.isAlphanum = true → escaped c = false

/-- **An escaped text** is read back. -/
theorem scan_escapePattern {escaped : Char → Bool} (h : Protects escaped) (s : List Char) :
    scan (.base .plain) (escapePattern escaped s) =
      some (.base .plain, (s.map Item.char).map .item) := by
  induction s with
  | nil => rfl
  | cons c s ih =>
    rw [escapePattern, List.flatMap_cons, List.map_cons, List.map_cons]
    have hone : scan (.base .plain) (if escaped c then ['\\', c] else [c]) =
        some (.base .plain, ([.char c] : List Item).map .item) → _ := fun h => scan_append h ih
    refine hone ?_
    split_ifs with hescaped
    · have halnum : ¬ c.isAlphanum = true := by
        intro halnum
        rw [h.alphanumeric c halnum] at hescaped
        cases hescaped
      have hne : c ≠ 'Q' := by
        rintro rfl
        exact halnum rfl
      refine scan_quoted ?_
      have hlast : Quoted.step .escape c = some (.plain, [.char c]) := by
        rw [Quoted.step, if_neg hne, if_neg halnum]
      show ((Quoted.step .escape c).bind fun first => _).map _ = _
      rw [hlast]
      rfl
    · have hne : ∀ d ∈ metacharacters, c ≠ d := by
        rintro d hd rfl
        exact hescaped (h.metacharacter c hd)
      by_cases hclose : c = ']'
      · rw [hclose]
        rfl
      · have hplain : c ∉ syntaxCharacters := by
          intro hmem
          simp only [syntaxCharacters, List.mem_cons, List.not_mem_nil, or_false] at hmem
          simp only [metacharacters, List.mem_cons, List.not_mem_nil, or_false, forall_eq_or_imp,
            forall_eq] at hne
          tauto
        refine scan_quoted ?_
        have hstep : Quoted.step .plain c = some (.plain, [.char c]) := by
          rw [Quoted.step, if_neg (hne _ (by decide)), if_neg (hne _ (by decide)),
            if_neg (hne _ (by decide)), if_neg (hne _ (by decide)), if_neg (hne _ (by decide)),
            if_neg hplain]
        show (Quoted.step .plain c).bind _ = _
        rw [hstep]
        rfl

end Lib.Regex.Icu
