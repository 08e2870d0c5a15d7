import Mathlib.Data.List.Basic
import Tapsmith.Lib.Regex

namespace Lib.Regex.Alternation

/-!
# Regular expressions with alternatives

A second fragment of regular expression sources, which two engines share: characters, escapes, the
dot, `[^c]`, `*`, and groups of alternatives, between the two anchors.

* `Dialect` — what the engines differ in;
* `read`, `parse` — from the source to the expression;
* `Reads` — a piece of a source stands for a set of texts, wherever it is read;
* `Reads.append`, `Reads.text`, `Reads.dots`, `Reads.except`, `Reads.group` — the pieces.
-/

/-- What may stand behind a backslash for itself, and what the dot stands for. -/
structure Dialect where
  escapable : Char → Bool
  dot : Char → Bool

/-- What has been read of a group: the alternatives before the last `|`, the terms of the current
    one, and its last term while a star may follow it. -/
structure Level where
  alts : RegExp Char := .fail
  done : RegExp Char := .empty
  last : Option (RegExp Char) := none

namespace Level

/-- The current alternative. -/
def term (l : Level) : RegExp Char :=
  match l.last with
  | none => l.done
  | some r => .cat l.done r

def all (l : Level) : RegExp Char := .alt l.alts l.term

def push (l : Level) (r : RegExp Char) : Level := { l with done := l.term, last := some r }

@[simp] theorem alts_push (l : Level) (r : RegExp Char) : (l.push r).alts = l.alts := rfl

theorem term_push (l : Level) (r : RegExp Char) {t : List Char} :
    (l.push r).term.Matches t ↔ ∃ u v, t = u ++ v ∧ l.term.Matches u ∧ r.Matches v := Iff.rfl

theorem all_matches (l : Level) {t : List Char} :
    l.all.Matches t ↔ l.alts.Matches t ∨ l.term.Matches t := Iff.rfl

end Level

variable (d : Dialect)

/-- Read a source up to its `$`, inside the groups around. -/
def read : List Char → List Level → Level → Option (RegExp Char)
  | [], _, _ => none
  | '\\' :: c :: rest, around, l =>
    if d.escapable c then read rest around (l.push (.set (· = c))) else none
  | '[' :: '^' :: c :: ']' :: rest, around, l =>
    if c ∈ syntaxCharacters then none else read rest around (l.push (.set (· ≠ c)))
  | c :: rest, around, l =>
    if c = '.' then read rest around (l.push (.set d.dot))
    else if c = '*' then
      l.last.bind fun r => read rest around { l with done := .cat l.done (.star r), last := none }
    else if c = '(' then read rest (l :: around) {}
    else if c = '|' then
      -- an alternative outside of a group would not be held by the anchors
      if around.isEmpty then none else read rest around { alts := l.all }
    else if c = ')' then
      around.head?.bind fun outer => read rest around.tail (outer.push l.all)
    else if c = '$' then if rest.isEmpty && around.isEmpty then some l.term else none
    else if c ∈ syntaxCharacters then none
    else read rest around (l.push (.set (· = c)))

/-- The expression of a source of the form `^…$`. -/
def parse : List Char → Option (RegExp Char)
  | '^' :: rest => read d rest [] {}
  | _ => none

/-! ### One construct -/

section Construct

variable {d} {c : Char} (rest : List Char) (around : List Level) (l : Level)

theorem read_escaped (hc : d.escapable c = true) :
    read d ('\\' :: c :: rest) around l = read d rest around (l.push (.set (· = c))) := by
  rw [read, if_pos hc]

theorem read_except (hc : c ∉ syntaxCharacters) :
    read d ('[' :: '^' :: c :: ']' :: rest) around l =
      read d rest around (l.push (.set (· ≠ c))) := by
  rw [read, if_neg hc]

/-- A character that begins no longer construct. -/
theorem read_cons (hescape : c ≠ '\\') (hbracket : c ≠ '[') :
    read d (c :: rest) around l =
      if c = '.' then read d rest around (l.push (.set d.dot))
      else if c = '*' then
        l.last.bind fun r =>
          read d rest around { l with done := .cat l.done (.star r), last := none }
      else if c = '(' then read d rest (l :: around) {}
      else if c = '|' then
        if around.isEmpty then none else read d rest around { alts := l.all }
      else if c = ')' then
        around.head?.bind fun outer => read d rest around.tail (outer.push l.all)
      else if c = '$' then if rest.isEmpty && around.isEmpty then some l.term else none
      else if c ∈ syntaxCharacters then none
      else read d rest around (l.push (.set (· = c))) := by
  rw [read]
  · exact fun _ _ heq => absurd heq hescape
  · exact fun _ _ heq => absurd heq hbracket

theorem read_plain (hc : c ∉ syntaxCharacters) :
    read d (c :: rest) around l = read d rest around (l.push (.set (· = c))) := by
  have hne : ∀ e ∈ syntaxCharacters, c ≠ e := fun e he heq => hc (heq ▸ he)
  rw [read_cons rest around l (hne _ (by decide)) (hne _ (by decide)), if_neg (hne _ (by decide)),
    if_neg (hne _ (by decide)), if_neg (hne _ (by decide)), if_neg (hne _ (by decide)),
    if_neg (hne _ (by decide)), if_neg (hne _ (by decide)), if_neg hc]

theorem read_dot : read d ('.' :: rest) around l = read d rest around (l.push (.set d.dot)) := by
  rw [read_cons rest around l (by decide) (by decide), if_pos rfl]

theorem read_star {r : RegExp Char} (hlast : l.last = some r) :
    read d ('*' :: rest) around l =
      read d rest around { l with done := .cat l.done (.star r), last := none } := by
  rw [read_cons rest around l (by decide) (by decide), if_neg (by decide), if_pos rfl, hlast,
    Option.bind_some]

theorem read_open : read d ('(' :: rest) around l = read d rest (l :: around) {} := by
  rw [read_cons rest around l (by decide) (by decide), if_neg (by decide), if_neg (by decide),
    if_pos rfl]

theorem read_bar (outer : Level) :
    read d ('|' :: rest) (outer :: around) l = read d rest (outer :: around) { alts := l.all } := by
  rw [read_cons rest _ l (by decide) (by decide), if_neg (by decide), if_neg (by decide),
    if_neg (by decide), if_pos rfl, List.isEmpty_cons, if_neg Bool.false_ne_true]

theorem read_close (outer : Level) :
    read d (')' :: rest) (outer :: around) l = read d rest around (outer.push l.all) := by
  rw [read_cons rest _ l (by decide) (by decide), if_neg (by decide), if_neg (by decide),
    if_neg (by decide), if_neg (by decide), if_pos rfl, List.head?_cons, Option.bind_some,
    List.tail_cons]

theorem read_finish : read d ['$'] [] l = some l.term := by
  rw [read_cons [] [] l (by decide) (by decide), if_neg (by decide), if_neg (by decide),
    if_neg (by decide), if_neg (by decide), if_neg (by decide), if_pos rfl]
  rfl

end Construct

/-! ### Pieces of a source -/

/-- A piece of a source stands for the texts of `p`: wherever it is read, it adds them to the
    current alternative.  Texts without the characters that the dot leaves out are spoken of. -/
def Reads (source : List Char) (p : List Char → Prop) : Prop :=
  ∀ rest around l, ∃ l' : Level, read d (source ++ rest) around l = read d rest around l' ∧
    l'.alts = l.alts ∧
    ∀ t : List Char, (∀ c ∈ t, d.dot c = true) →
      (l'.term.Matches t ↔ ∃ u v, t = u ++ v ∧ l.term.Matches u ∧ p v)

namespace Reads

variable {d} {source source' : List Char} {p p' : List Char → Prop} {c : Char}

theorem congr (h : Reads d source p) (hp : ∀ t, p t ↔ p' t) : Reads d source p' := by
  obtain rfl : p = p' := funext fun t => propext (hp t)
  exact h

/-- A construct that pushes a term. -/
theorem of_push {r : RegExp Char}
    (h : ∀ rest around l, read d (source ++ rest) around l = read d rest around (l.push r)) :
    Reads d source r.Matches := fun rest around l =>
  ⟨l.push r, h rest around l, rfl, fun _ _ => l.term_push r⟩

/-- Nothing stands for the empty text. -/
theorem nil : Reads d [] (· = []) := by
  intro rest around l
  refine ⟨l, rfl, rfl, fun t _ => ?_⟩
  constructor
  · intro h
    exact ⟨t, [], (List.append_nil t).symm, h, rfl⟩
  · rintro ⟨u, v, rfl, hu, rfl⟩
    rwa [List.append_nil]

/-- Two pieces, one behind the other. -/
theorem append (h : Reads d source p) (h' : Reads d source' p') :
    Reads d (source ++ source') fun t => ∃ u v, t = u ++ v ∧ p u ∧ p' v := by
  intro rest around l
  obtain ⟨l₁, hread₁, halts₁, hterm₁⟩ := h (source' ++ rest) around l
  obtain ⟨l₂, hread₂, halts₂, hterm₂⟩ := h' rest around l₁
  refine ⟨l₂, ?_, halts₂.trans halts₁, fun t ht => (hterm₂ t ht).trans ?_⟩
  · rw [List.append_assoc, hread₁, hread₂]
  constructor
  · rintro ⟨w, v, rfl, hw, hv⟩
    obtain ⟨u, w', rfl, hu, hw'⟩ := (hterm₁ w fun c hc => ht c (by simp [hc])).mp hw
    exact ⟨u, w' ++ v, List.append_assoc _ _ _, hu, w', v, rfl, hw', hv⟩
  · rintro ⟨u, w, rfl, hu, w', v, rfl, hw', hv⟩
    refine ⟨u ++ w', v, (List.append_assoc _ _ _).symm, ?_, hv⟩
    refine (hterm₁ _ fun c hc => ht c ?_).mpr ⟨u, w', rfl, hu, hw'⟩
    rcases List.mem_append.mp hc with hc | hc <;> simp [hc]

/-- A character that stands for itself, or is escaped. -/
theorem char (escaped : Bool) (hescaped : escaped = true → d.escapable c = true)
    (hplain : escaped = false → c ∉ syntaxCharacters) :
    Reads d (if escaped then ['\\', c] else [c]) (· = [c]) := by
  have hset : ∀ t, (RegExp.set (fun b => decide (b = c))).Matches t ↔ t = [c] := by
    intro t
    constructor
    · rintro ⟨a, rfl, ha⟩
      rw [of_decide_eq_true ha]
    · rintro rfl
      exact ⟨c, rfl, decide_eq_true rfl⟩
  refine congr (of_push fun rest around l => ?_) hset
  cases escaped with
  | true => exact read_escaped rest around l (hescaped rfl)
  | false => exact read_plain rest around l (hplain rfl)

/-- `.*` stands for every text. -/
theorem dots : Reads d ".*".toList fun _ => True := by
  intro rest around l
  refine ⟨{ l with done := .cat l.term (.star (.set d.dot)), last := none }, ?_, rfl,
    fun t ht => ?_⟩
  · exact (read_dot _ around l).trans (read_star rest around _ rfl)
  · constructor
    · rintro ⟨u, v, rfl, hu, -⟩
      exact ⟨u, v, rfl, hu, trivial⟩
    · rintro ⟨u, v, rfl, hu, -⟩
      exact ⟨u, v, rfl, hu, RegExp.matches_star_set.mpr fun c hc => ht c (List.mem_append_right u hc)⟩

/-- `[^c]` stands for one other character. -/
theorem except (hc : c ∉ syntaxCharacters) :
    Reads d ['[', '^', c, ']'] fun t => ∃ a, t = [a] ∧ a ≠ c := by
  refine congr (of_push fun rest around l => read_except rest around l hc) fun t => ?_
  simp [RegExp.Matches]

/-- `[^c]*` stands for the texts without the character. -/
theorem exceptStar (hc : c ∉ syntaxCharacters) :
    Reads d ['[', '^', c, ']', '*'] fun t => c ∉ t := by
  intro rest around l
  refine ⟨{ l with done := .cat l.term (.star (.set (· ≠ c))), last := none }, ?_, rfl,
    fun t _ => ?_⟩
  · exact (read_except _ around l hc).trans (read_star rest around _ rfl)
  · have hstar : ∀ v : List Char,
        (RegExp.star (.set fun a => decide (a ≠ c))).Matches v ↔ c ∉ v := by
      intro v
      rw [RegExp.matches_star_set]
      constructor
      · intro h hmem
        exact of_decide_eq_true (h c hmem) rfl
      · rintro h a ha
        exact decide_eq_true fun heq => h (heq ▸ ha)
    constructor
    · rintro ⟨u, v, rfl, hu, hv⟩
      exact ⟨u, v, rfl, hu, (hstar v).mp hv⟩
    · rintro ⟨u, v, rfl, hu, hv⟩
      exact ⟨u, v, rfl, hu, (hstar v).mpr hv⟩

/-- A text whose characters are escaped, or stand for themselves, stands for itself. -/
theorem text (escaped : Char → Bool) (hescaped : ∀ c, escaped c = true → d.escapable c = true)
    (hplain : ∀ c, escaped c = false → c ∉ syntaxCharacters) (s : List Char) :
    Reads d (s.flatMap fun c => if escaped c then ['\\', c] else [c]) (· = s) := by
  induction s with
  | nil => exact nil
  | cons c s ih =>
    refine congr ((char (escaped c) (hescaped c) (hplain c)).append ih) fun t => ?_
    constructor
    · rintro ⟨u, v, rfl, rfl, rfl⟩
      rfl
    · rintro rfl
      exact ⟨[c], s, rfl, rfl, rfl⟩

end Reads

/-! ### Groups -/

variable {d}

/-- What a fresh level has read once a piece is added to it. -/
theorem matches_fresh {p : List Char → Prop} {t : List Char} :
    (∃ u v, t = u ++ v ∧ RegExp.empty.Matches u ∧ p v) ↔ p t := by
  constructor
  · rintro ⟨u, v, rfl, rfl, hp⟩
    exact hp
  · intro hp
    exact ⟨[], t, rfl, rfl, hp⟩

/-- Reading the alternatives of a group up to its bracket. -/
theorem read_alternatives {sources : List (List Char)} {ps : List (List Char → Prop)}
    (h : List.Forall₂ (Reads d) sources ps) (hne : sources ≠ []) (rest : List Char)
    (around : List Level) (outer : Level) (alts : RegExp Char) :
    ∃ r : RegExp Char, read d (List.intercalate ['|'] sources ++ ')' :: rest) (outer :: around)
        { alts := alts } = read d rest around (outer.push r) ∧
      ∀ t : List Char, (∀ c ∈ t, d.dot c = true) →
        (r.Matches t ↔ alts.Matches t ∨ ∃ p ∈ ps, p t) := by
  induction h generalizing alts with
  | nil => exact absurd rfl hne
  | @cons source p sources ps hreads hrest ih =>
    cases hrest with
    | nil =>
      obtain ⟨l, hread, halts, hterm⟩ := hreads (')' :: rest) (outer :: around) { alts := alts }
      refine ⟨l.all, ?_, fun t ht => ?_⟩
      · rw [List.intercalate_singleton, hread, read_close]
      · rw [l.all_matches, halts, hterm t ht]
        exact (or_congr_right matches_fresh).trans (by simp)
    | @cons source' p' sources ps hreads' hrest =>
      obtain ⟨l, hread, halts, hterm⟩ := hreads
        ('|' :: (List.intercalate ['|'] (source' :: sources) ++ ')' :: rest)) (outer :: around)
        { alts := alts }
      obtain ⟨r, hrest, hmatches⟩ := ih (List.cons_ne_nil _ _) l.all
      refine ⟨r, ?_, fun t ht => (hmatches t ht).trans ?_⟩
      · have hsource : List.intercalate ['|'] (source :: source' :: sources) ++ ')' :: rest =
            source ++ '|' :: (List.intercalate ['|'] (source' :: sources) ++ ')' :: rest) := by
          simp [List.intercalate_cons_cons]
        rw [hsource, hread, read_bar, hrest]
      · rw [l.all_matches, halts, hterm t ht]
        refine (or_congr_left (or_congr_right matches_fresh)).trans ?_
        rw [or_assoc]
        simp

/-- A group stands for what its alternatives stand for. -/
theorem Reads.group {sources : List (List Char)} {ps : List (List Char → Prop)}
    (h : List.Forall₂ (Reads d) sources ps) (hne : sources ≠ []) :
    Reads d ('(' :: List.intercalate ['|'] sources ++ [')']) fun t => ∃ p ∈ ps, p t := by
  intro rest around l
  obtain ⟨r, hread, hmatches⟩ := read_alternatives h hne rest around l .fail
  refine ⟨l.push r, ?_, rfl, fun t ht => ?_⟩
  · rw [List.cons_append, List.cons_append, List.append_assoc, read_open]
    exact hread
  · rw [l.term_push]
    constructor
    · rintro ⟨u, v, rfl, hu, hr⟩
      have hv : ∀ c ∈ v, d.dot c = true := fun c hc => ht c (List.mem_append_right u hc)
      rcases (hmatches v hv).mp hr with hfail | hp
      · exact hfail.elim
      · exact ⟨u, v, rfl, hu, hp⟩
    · rintro ⟨u, v, rfl, hu, hp⟩
      have hv : ∀ c ∈ v, d.dot c = true := fun c hc => ht c (List.mem_append_right u hc)
      exact ⟨u, v, rfl, hu, (hmatches v hv).mpr (.inr hp)⟩

/-- **An anchored source.**  It is taken, and its expression matches what its body stands for. -/
theorem parse_of_reads {source : List Char} {p : List Char → Prop} (h : Reads d source p) :
    ∃ r, parse d ('^' :: source ++ ['$']) = some r ∧
      ∀ t : List Char, (∀ c ∈ t, d.dot c = true) → (r.Matches t ↔ p t) := by
  obtain ⟨l, hread, -, hterm⟩ := h ['$'] [] {}
  refine ⟨l.term, ?_, fun t ht => (hterm t ht).trans matches_fresh⟩
  rw [List.cons_append, parse, hread, read_finish]

end Lib.Regex.Alternation
