import Mathlib.Data.List.Basic

namespace Lib.Regex

/-!
# Regular expressions

A fragment of the regular expressions of ECMAScript: characters, identity escapes, the dot, `*`,
`?`, groups without capture and the two anchors.

* `RegExp.Matches` — the texts of an expression;
* `RegExp.test` — the test by derivatives, and `RegExp.test_iff` that it is right;
* `parse` — from the source of an anchored expression to the expression.
-/

/-! ### Expressions and their texts -/

inductive RegExp (α : Type)
  | fail
  | empty
  | set (p : α → Bool)
  | cat (r r' : RegExp α)
  | alt (r r' : RegExp α)
  | opt (r : RegExp α)
  | star (r : RegExp α)

namespace RegExp

variable {α : Type} {r r' : RegExp α} {s : List α} {a : α}

def Matches : RegExp α → List α → Prop
  | .fail, _ => False
  | .empty, s => s = []
  | .set p, s => ∃ a, s = [a] ∧ p a = true
  | .cat r r', s => ∃ u v, s = u ++ v ∧ r.Matches u ∧ r'.Matches v
  | .alt r r', s => r.Matches s ∨ r'.Matches s
  | .opt r, s => s = [] ∨ r.Matches s
  | .star r, s => ∃ pieces : List (List α), s = pieces.flatten ∧ ∀ t ∈ pieces, r.Matches t

/-! ### The test -/

def nullable : RegExp α → Bool
  | .fail => false
  | .empty => true
  | .set _ => false
  | .cat r r' => r.nullable && r'.nullable
  | .alt r r' => r.nullable || r'.nullable
  | .opt _ => true
  | .star _ => true

/-- What is left to match behind a unit. -/
def deriv (a : α) : RegExp α → RegExp α
  | .fail => .fail
  | .empty => .fail
  | .set p => if p a then .empty else .fail
  | .cat r r' =>
    if r.nullable then .alt (.cat (r.deriv a) r') (r'.deriv a) else .cat (r.deriv a) r'
  | .alt r r' => .alt (r.deriv a) (r'.deriv a)
  | .opt r => r.deriv a
  | .star r => .cat (r.deriv a) (.star r)

def test (r : RegExp α) (s : List α) : Bool :=
  (s.foldl (fun r a => r.deriv a) r).nullable

theorem nullable_iff : r.nullable = true ↔ r.Matches [] := by
  induction r with
  | fail => simp [nullable, Matches]
  | empty => simp [nullable, Matches]
  | set p => simp [nullable, Matches]
  | cat r r' ih ih' => simp [nullable, Matches, ih, ih', and_assoc]
  | alt r r' ih ih' => simp [nullable, Matches, ih, ih']
  | opt r _ => simp [nullable, Matches]
  | star r _ =>
    refine ⟨fun _ => ⟨[], rfl, nofun⟩, fun _ => rfl⟩

/-- A repetition of something begins with a piece that is not empty. -/
theorem matches_star_cons : (star r).Matches (a :: s) ↔
    ∃ u v, s = u ++ v ∧ r.Matches (a :: u) ∧ (star r).Matches v := by
  constructor
  · rintro ⟨pieces, hpieces, hall⟩
    induction pieces with
    | nil => cases hpieces
    | cons t pieces ih =>
      have hrest : ∀ t ∈ pieces, r.Matches t := fun t ht => hall t (List.mem_cons_of_mem _ ht)
      cases t with
      | nil => exact ih hpieces hrest
      | cons b t =>
        obtain ⟨rfl, rfl⟩ := List.cons.inj hpieces
        exact ⟨t, pieces.flatten, rfl, hall _ List.mem_cons_self, pieces, rfl, hrest⟩
  · rintro ⟨u, v, rfl, hu, pieces, rfl, hall⟩
    refine ⟨(a :: u) :: pieces, rfl, ?_⟩
    intro t ht
    rcases List.mem_cons.mp ht with rfl | ht
    · exact hu
    · exact hall t ht

theorem matches_cat_cons : (cat r r').Matches (a :: s) ↔
    (∃ u v, s = u ++ v ∧ r.Matches (a :: u) ∧ r'.Matches v) ∨
      r.Matches [] ∧ r'.Matches (a :: s) := by
  constructor
  · rintro ⟨u, v, huv, hu, hv⟩
    cases u with
    | nil => exact .inr ⟨hu, huv ▸ hv⟩
    | cons b u =>
      obtain ⟨rfl, rfl⟩ := List.cons.inj huv
      exact .inl ⟨u, v, rfl, hu, hv⟩
  · rintro (⟨u, v, rfl, hu, hv⟩ | ⟨hnil, hs⟩)
    · exact ⟨a :: u, v, rfl, hu, hv⟩
    · exact ⟨[], a :: s, rfl, hnil, hs⟩

/-- A repetition of a set of units. -/
theorem matches_star_set {p : α → Bool} : (star (set p)).Matches s ↔ ∀ a ∈ s, p a = true := by
  induction s with
  | nil => exact ⟨nofun, fun _ => ⟨[], rfl, nofun⟩⟩
  | cons a s ih =>
    rw [matches_star_cons, List.forall_mem_cons]
    constructor
    · rintro ⟨u, v, rfl, ⟨b, hb, hp⟩, hv⟩
      obtain ⟨rfl, rfl⟩ := List.cons.inj hb
      exact ⟨hp, ih.mp hv⟩
    · rintro ⟨hp, hs⟩
      exact ⟨[], s, rfl, ⟨a, rfl, hp⟩, ih.mpr hs⟩

/-- A derivative stands for what is left of the texts that begin with the unit. -/
theorem deriv_iff : (r.deriv a).Matches s ↔ r.Matches (a :: s) := by
  induction r generalizing s with
  | fail => rfl
  | empty => simp [deriv, Matches]
  | set p =>
    rw [deriv]
    split
    case isTrue hp => simp [Matches, hp]
    case isFalse hp => simp [Matches, hp]
  | cat r r' ih ih' =>
    rw [matches_cat_cons, ← nullable_iff, deriv]
    split
    case isTrue hnull => simp [Matches, ih, ih', hnull]
    case isFalse hnull => simp [Matches, ih, hnull]
  | alt r r' ih ih' => simp [deriv, Matches, ih, ih']
  | opt r ih => simp [deriv, Matches, ih]
  | star r ih =>
    rw [matches_star_cons, deriv]
    simp [Matches, ih]

/-- **The test is right.** -/
theorem test_iff : r.test s = true ↔ r.Matches s := by
  induction s generalizing r with
  | nil => exact nullable_iff
  | cons a s ih => exact ih.trans deriv_iff

end RegExp

/-! ### The source of an expression -/

/-- The characters with a meaning of their own. -/
def syntaxCharacters : List Char :=
  ['^', '$', '\\', '.', '*', '+', '?', '(', ')', '[', ']', '{', '}', '|']

/-- What the dot stands for: everything but a line terminator. -/
def dot (c : Char) : Bool :=
  c ∉ ['\n', '\r', '\u2028', '\u2029']

inductive Token
  | chr (c : Char)
  | dot
  | star
  | opt
  | openGroup
  | closeGroup
  | start
  | finish
deriving DecidableEq

/-- The tokens of a source, where it keeps to the fragment. -/
def lex : List Char → Option (List Token)
  | [] => some []
  | '\\' :: c :: rest => if c ∈ syntaxCharacters then (lex rest).map (.chr c :: ·) else none
  | '(' :: '?' :: ':' :: rest => (lex rest).map (.openGroup :: ·)
  | c :: rest =>
    if c = ')' then (lex rest).map (.closeGroup :: ·)
    else if c = '.' then (lex rest).map (.dot :: ·)
    else if c = '*' then (lex rest).map (.star :: ·)
    else if c = '?' then (lex rest).map (.opt :: ·)
    else if c = '^' then (lex rest).map (.start :: ·)
    else if c = '$' then (lex rest).map (.finish :: ·)
    else if c ∈ syntaxCharacters then none
    else (lex rest).map (.chr c :: ·)

theorem lex_escaped {c : Char} (hc : c ∈ syntaxCharacters) (rest : List Char) :
    lex ('\\' :: c :: rest) = (lex rest).map (.chr c :: ·) := by
  rw [lex, if_pos hc]

theorem lex_plain {c : Char} (hc : c ∉ syntaxCharacters) (rest : List Char) :
    lex (c :: rest) = (lex rest).map (.chr c :: ·) := by
  have hne : ∀ d ∈ syntaxCharacters, c ≠ d := fun d hd heq => hc (heq ▸ hd)
  rw [lex, if_neg (hne _ (by decide)), if_neg (hne _ (by decide)), if_neg (hne _ (by decide)),
    if_neg (hne _ (by decide)), if_neg (hne _ (by decide)), if_neg (hne _ (by decide)), if_neg hc]
  · rintro d rest' rfl
    exact absurd rfl (hne _ (by decide))
  · rintro rest' rfl
    exact absurd rfl (hne _ (by decide))

theorem lex_dots (rest : List Char) :
    lex ('.' :: '*' :: rest) = (lex rest).map ([.dot, .star] ++ ·) := by
  have hstar : lex ('*' :: rest) = (lex rest).map (.star :: ·) := by
    rw [lex]
    · rfl
    · exact nofun
    · exact nofun
  rw [lex, hstar]
  · exact Option.map_map _ _ _
  · exact nofun
  · exact nofun

/-- What has been read of a group: all but the last term, and the last term while a quantifier
    may follow it. -/
structure Group where
  done : RegExp Char := .empty
  last : Option (RegExp Char) := none

def Group.all (g : Group) : RegExp Char :=
  match g.last with
  | none => g.done
  | some r => .cat g.done r

def Group.push (g : Group) (r : RegExp Char) : Group :=
  { done := g.all, last := some r }

/-- Read the terms up to the `$`, inside the groups around. -/
def parseTerms : List Token → List Group → Group → Option (RegExp Char)
  | [], _, _ => none
  | .finish :: rest, around, g => if rest = [] ∧ around = [] then some g.all else none
  | .chr c :: rest, around, g => parseTerms rest around (g.push (.set (· = c)))
  | .dot :: rest, around, g => parseTerms rest around (g.push (.set dot))
  | .star :: rest, around, g =>
    g.last.bind fun r => parseTerms rest around { done := .cat g.done (.star r) }
  | .opt :: rest, around, g =>
    g.last.bind fun r => parseTerms rest around { done := .cat g.done (.opt r) }
  | .openGroup :: rest, around, g => parseTerms rest (g :: around) {}
  | .closeGroup :: rest, around, g =>
    match around with
    | outer :: around => parseTerms rest around (outer.push g.all)
    | [] => none
  | .start :: _, _, _ => none

/-- `new RegExp(source)` for a source of the form `^…$`. -/
def parse (source : List Char) : Option (RegExp Char) :=
  (lex source).bind fun tokens =>
    match tokens with
    | .start :: rest => parseTerms rest [] {}
    | _ => none

theorem Group.all_push {g : Group} {r : RegExp Char} {s : List Char} :
    (g.push r).all.Matches s ↔ ∃ u v, s = u ++ v ∧ g.all.Matches u ∧ r.Matches v := Iff.rfl

/-! ### Characters, and runs of dots -/

/-- The tokens that stand for a text literally, stars aside: a star is a run of dots. -/
def literalTokens (s : List Char) : List Token :=
  s.flatMap fun c => if c = '*' then [.dot, .star] else [.chr c]

theorem matches_dots {s : List Char} :
    (RegExp.star (.set dot)).Matches s ↔ ∀ c ∈ s, dot c = true := RegExp.matches_star_set

end Lib.Regex
