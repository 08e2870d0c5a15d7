import Tapsmith.Lib.Regex

namespace Lib.Regex.Flagged

/-!
# Expressions that ignore case

A fragment of the syntax of the `regex` crate: sources of the form `(?i)^…$` of characters, escapes,
the dot, `*`, `?` and groups without capture.

* `Syntax` — what may be escaped, what the dot leaves out, and which characters are the same but
  for their case;
* `read`, `parse` — from the source to the expression;
* `Reads` — a piece of a source stands for some texts, wherever it is read; `Reads.append`,
  `Reads.char`, `Reads.dots`, `Reads.optional` — the pieces.
-/

structure Syntax where
  escapable : Char → Bool
  dot : Char → Bool
  same : Char → Char → Bool

variable (S : Syntax)

/-- Read the terms of a group, inside the groups around, up to the `$`. -/
def read : List Char → List Group → Group → Option (RegExp Char)
  | [], _, _ => none
  | '\\' :: c :: rest, around, g =>
    if S.escapable c then read rest around (g.push (.set (S.same c))) else none
  | '(' :: '?' :: ':' :: rest, around, g => read rest (g :: around) {}
  | c :: rest, around, g =>
    if c = '.' then read rest around (g.push (.set S.dot))
    else if c = '*' then g.last.bind fun r => read rest around { done := .cat g.done (.star r) }
    else if c = '?' then g.last.bind fun r => read rest around { done := .cat g.done (.opt r) }
    else if c = ')' then around.head?.bind fun outer => read rest around.tail (outer.push g.all)
    else if c = '$' then if rest.isEmpty && around.isEmpty then some g.all else none
    else if c ∈ syntaxCharacters then none
    else read rest around (g.push (.set (S.same c)))

/-- The expression of a source of the form `(?i)^…$`. -/
def parse : List Char → Option (RegExp Char)
  | '(' :: '?' :: 'i' :: ')' :: '^' :: rest => read S rest [] {}
  | _ => none

/-! ### One construct -/

section Construct

variable {S} {c : Char} (rest : List Char) (around : List Group) (g : Group)

theorem read_escaped (hc : S.escapable c = true) :
    read S ('\\' :: c :: rest) around g = read S rest around (g.push (.set (S.same c))) := by
  rw [read, if_pos hc]

theorem read_open : read S ('(' :: '?' :: ':' :: rest) around g = read S rest (g :: around) {} := by
  rw [read]

/-- A character that begins no longer construct. -/
theorem read_cons (hescape : c ≠ '\\') (hopen : c ≠ '(') :
    read S (c :: rest) around g =
      if c = '.' then read S rest around (g.push (.set S.dot))
      else if c = '*' then g.last.bind fun r => read S rest around { done := .cat g.done (.star r) }
      else if c = '?' then g.last.bind fun r => read S rest around { done := .cat g.done (.opt r) }
      else if c = ')' then around.head?.bind fun outer => read S rest around.tail (outer.push g.all)
      else if c = '$' then if rest.isEmpty && around.isEmpty then some g.all else none
      else if c ∈ syntaxCharacters then none
      else read S rest around (g.push (.set (S.same c))) := by
  rw [read]
  · exact fun _ _ heq => absurd heq hescape
  · exact fun _ heq => absurd heq hopen

theorem read_plain (hc : c ∉ syntaxCharacters) :
    read S (c :: rest) around g = read S rest around (g.push (.set (S.same c))) := by
  have hne : ∀ e ∈ syntaxCharacters, c ≠ e := fun e he heq => hc (heq ▸ he)
  rw [read_cons rest around g (hne _ (by decide)) (hne _ (by decide)), if_neg (hne _ (by decide)),
    if_neg (hne _ (by decide)), if_neg (hne _ (by decide)), if_neg (hne _ (by decide)),
    if_neg (hne _ (by decide)), if_neg hc]

theorem read_dot : read S ('.' :: rest) around g = read S rest around (g.push (.set S.dot)) := by
  rw [read_cons rest around g (by decide) (by decide), if_pos rfl]

theorem read_star {r : RegExp Char} (hlast : g.last = some r) :
    read S ('*' :: rest) around g = read S rest around { done := .cat g.done (.star r) } := by
  rw [read_cons rest around g (by decide) (by decide), if_neg (by decide), if_pos rfl, hlast,
    Option.bind_some]

theorem read_optional {r : RegExp Char} (hlast : g.last = some r) :
    read S ('?' :: rest) around g = read S rest around { done := .cat g.done (.opt r) } := by
  rw [read_cons rest around g (by decide) (by decide), if_neg (by decide), if_neg (by decide),
    if_pos rfl, hlast, Option.bind_some]

theorem read_close (outer : Group) :
    read S (')' :: rest) (outer :: around) g = read S rest around (outer.push g.all) := by
  rw [read_cons rest _ g (by decide) (by decide), if_neg (by decide), if_neg (by decide),
    if_neg (by decide), if_pos rfl, List.head?_cons, Option.bind_some, List.tail_cons]

theorem read_finish : read S ['$'] [] g = some g.all := by
  rw [read_cons [] [] g (by decide) (by decide), if_neg (by decide), if_neg (by decide),
    if_neg (by decide), if_neg (by decide), if_pos rfl]
  rfl

end Construct

/-! ### Pieces of a source -/

/-- A piece of a source stands for the texts of `p`: wherever it is read, it adds them to the group.
    Texts without the characters that the dot leaves out are spoken of. -/
def Reads (source : List Char) (p : List Char → Prop) : Prop :=
  ∀ rest around g, ∃ g' : Group, read S (source ++ rest) around g = read S rest around g' ∧
    ∀ t : List Char, (∀ c ∈ t, S.dot c = true) →
      (g'.all.Matches t ↔ ∃ u v, t = u ++ v ∧ g.all.Matches u ∧ p v)

namespace Reads

variable {S} {source source' : List Char} {p p' : List Char → Prop} {c : Char}

theorem congr (h : Reads S source p) (hp : ∀ t, p t ↔ p' t) : Reads S source p' := by
  obtain rfl : p = p' := funext fun t => propext (hp t)
  exact h

/-- Nothing stands for the empty text. -/
theorem nil : Reads S [] (· = []) := by
  intro rest around g
  refine ⟨g, rfl, fun t _ => ?_⟩
  constructor
  · intro h
    exact ⟨t, [], (List.append_nil t).symm, h, rfl⟩
  · rintro ⟨u, v, rfl, hu, rfl⟩
    rwa [List.append_nil]

/-- Two pieces, one behind the other. -/
theorem append (h : Reads S source p) (h' : Reads S source' p') :
    Reads S (source ++ source') fun t => ∃ u v, t = u ++ v ∧ p u ∧ p' v := by
  intro rest around g
  obtain ⟨g₁, hread₁, hall₁⟩ := h (source' ++ rest) around g
  obtain ⟨g₂, hread₂, hall₂⟩ := h' rest around g₁
  refine ⟨g₂, ?_, fun t ht => (hall₂ t ht).trans ?_⟩
  · rw [List.append_assoc, hread₁, hread₂]
  constructor
  · rintro ⟨w, v, rfl, hw, hv⟩
    obtain ⟨u, w', rfl, hu, hw'⟩ :=
      (hall₁ w fun c hc => ht c (List.mem_append_left _ hc)).mp hw
    exact ⟨u, w' ++ v, List.append_assoc _ _ _, hu, w', v, rfl, hw', hv⟩
  · rintro ⟨u, w, rfl, hu, w', v, rfl, hw', hv⟩
    refine ⟨u ++ w', v, (List.append_assoc _ _ _).symm, ?_, hv⟩
    refine (hall₁ _ fun c hc => ht c ?_).mpr ⟨u, w', rfl, hu, hw'⟩
    rw [← List.append_assoc]
    exact List.mem_append_left _ hc

/-- A character, escaped or not, stands for the characters that are the same. -/
theorem char (escaped : Bool) (hescaped : escaped = true → S.escapable c = true)
    (hplain : escaped = false → c ∉ syntaxCharacters) :
    Reads S (if escaped then ['\\', c] else [c]) fun t => ∃ a, t = [a] ∧ S.same c a = true := by
  intro rest around g
  refine ⟨g.push (.set (S.same c)), ?_, fun t _ => Iff.rfl⟩
  cases escaped with
  | true => exact read_escaped rest around g (hescaped rfl)
  | false => exact read_plain rest around g (hplain rfl)

/-- `.*` stands for every text. -/
theorem dots : Reads S ".*".toList fun _ => True := by
  intro rest around g
  refine ⟨{ done := .cat g.all (.star (.set S.dot)) }, ?_, fun t ht => ?_⟩
  · exact (read_dot _ around g).trans (read_star rest around _ rfl)
  constructor
  · rintro ⟨u, v, rfl, hu, -⟩
    exact ⟨u, v, rfl, hu, trivial⟩
  · rintro ⟨u, v, rfl, hu, -⟩
    exact ⟨u, v, rfl, hu, RegExp.matches_star_set.mpr fun c hc => ht c (List.mem_append_right u hc)⟩

/-- A group with a question mark stands for what it holds, and for nothing. -/
theorem optional (h : Reads S source p) :
    Reads S ("(?:".toList ++ source ++ ")?".toList) fun t => t = [] ∨ p t := by
  intro rest around g
  obtain ⟨g', hread, hall⟩ := h (')' :: '?' :: rest) (g :: around) {}
  refine ⟨{ done := .cat g.all (.opt g'.all) }, ?_, fun t ht => ?_⟩
  · rw [List.append_assoc, List.append_assoc]
    refine (read_open _ around g).trans ?_
    exact hread.trans ((read_close _ around g' g).trans (read_optional rest around _ rfl))
  · have hheld : ∀ v : List Char, (∀ c ∈ v, S.dot c = true) → (g'.all.Matches v ↔ p v) := by
      intro v hv
      rw [hall v hv]
      constructor
      · rintro ⟨u, w, rfl, rfl, hw⟩
        exact hw
      · intro hw
        exact ⟨[], v, rfl, rfl, hw⟩
    constructor
    · rintro ⟨u, v, rfl, hu, hv⟩
      exact ⟨u, v, rfl, hu, hv.imp_right (hheld v fun c hc => ht c (List.mem_append_right u hc)).mp⟩
    · rintro ⟨u, v, rfl, hu, hv⟩
      exact ⟨u, v, rfl, hu, hv.imp_right (hheld v fun c hc => ht c (List.mem_append_right u hc)).mpr⟩

/-- A source whose pieces stand for some texts has an expression, and matches them. -/
theorem parse (h : Reads S source p) :
    ∃ r, Flagged.parse S ("(?i)^".toList ++ source ++ ['$']) = some r ∧
      ∀ t : List Char, (∀ c ∈ t, S.dot c = true) → (r.Matches t ↔ p t) := by
  obtain ⟨g, hread, hall⟩ := h ['$'] [] {}
  refine ⟨g.all, ?_, fun t ht => (hall t ht).trans ?_⟩
  · rw [List.append_assoc]
    exact hread.trans (read_finish g)
  · constructor
    · rintro ⟨u, v, rfl, rfl, hv⟩
      exact hv
    · intro hv
      exact ⟨[], t, rfl, rfl, hv⟩

end Reads

end Lib.Regex.Flagged
