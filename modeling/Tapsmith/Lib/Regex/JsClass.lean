import Tapsmith.Lib.Utf16

namespace Lib.Regex.JsClass

open Lib.Utf16

/-!
# Character classes of JavaScript

The grammar of ECMAScript, with its Annex B where there is no `u` flag, over UTF-16 units. A surrogate
pair is one character with `u`, and its two halves are characters without.

* `atom` — one member at the front of a text; where several alternatives begin alike, the first that
  matches counts;
* `Contents`, `ClassAt` — a class and what it holds;
* `atom_joined`, `Contents.joined` — what becomes of a member, and of a class, when the pairs in it are
  read as one character each;
* `contents_joined` — that is the same class up to U+FFFF, as long as no hyphen takes a pair.
-/

def unit (c : Char) : UInt16 := UInt16.ofNat c.toNat

/-! ### Members -/

inductive Kind
  | digit
  | word
  | space
deriving DecidableEq

def isDigit (c : ℕ) : Bool := 0x30 ≤ c && c ≤ 0x39

def isLetter (c : ℕ) : Bool := (0x41 ≤ c && c ≤ 0x5A) || (0x61 ≤ c && c ≤ 0x7A)

/-- WhiteSpace and LineTerminator -/
def isSpace (c : ℕ) : Bool :=
  (0x09 ≤ c && c ≤ 0x0D) || c = 0x20 || c = 0xA0 || c = 0x1680 || (0x2000 ≤ c && c ≤ 0x200A) ||
    c = 0x2028 || c = 0x2029 || c = 0x202F || c = 0x205F || c = 0x3000 || c = 0xFEFF

def Kind.has : Kind → ℕ → Bool
  | .digit, c => isDigit c
  | .word, c => isLetter c || isDigit c || c = 0x5F
  | .space, c => isSpace c

/-- A member of a class: a character, or a class escape. -/
inductive Member
  | char (n : ℕ)
  | escape (kind : Kind) (negated : Bool)
deriving DecidableEq

def Member.has : Member → ℕ → Bool
  | .char n, c => c = n
  | .escape kind negated, c => xor negated (kind.has c)

/-! ### One member -/

/-- The flag, whether the pattern has named groups, and whether a pair is read as one character. -/
structure Reading where
  unicode : Bool
  named : Bool
  joined : Bool

def sourceCharacter (r : Reading) : List UInt16 → Option (ℕ × List UInt16)
  | [] => none
  | [c] => some (c.toNat, [])
  | c :: d :: s =>
    if r.joined = true ∧ isHigh c = true ∧ isLow d = true then some (pairValue c d, s)
    else some (c.toNat, d :: s)

def hexValue (c : UInt16) : Option ℕ :=
  if unit '0' ≤ c ∧ c ≤ unit '9' then some (c.toNat - 0x30)
  else if unit 'A' ≤ c ∧ c ≤ unit 'F' then some (c.toNat - 0x37)
  else if unit 'a' ≤ c ∧ c ≤ unit 'f' then some (c.toNat - 0x57)
  else none

/-- The value of hexadecimal digits, if all are. -/
def hexNumber (digits : List UInt16) : Option ℕ :=
  digits.foldl (fun value c => value.bind fun n => (hexValue c).map fun d => n * 16 + d) (some 0)

/-- So many hexadecimal digits. -/
def readHex (count : ℕ) (s : List UInt16) : Option (ℕ × List UInt16) :=
  if (s.take count).length = count then (hexNumber (s.take count)).map fun n => (n, s.drop count)
  else none

/-- The second half of a pair that is escaped like the first. -/
def readTrail (s : List UInt16) : Option (ℕ × List UInt16) :=
  if s.take 2 = [unit '\\', unit 'u'] then
    (readHex 4 (s.drop 2)).filter fun trail => 0xDC00 ≤ trail.1 && trail.1 ≤ 0xDFFF
  else none

/-- What is behind `\u`. -/
def unicodeEscape (r : Reading) (s : List UInt16) : Option (ℕ × List UInt16) :=
  if r.unicode = true ∧ s.head? = some (unit '{') then
    let digits := s.tail.takeWhile fun c => (hexValue c).isSome
    if digits ≠ [] ∧ (s.tail.drop digits.length).head? = some (unit '}') then
      ((hexNumber digits).filter (· ≤ 0x10FFFF)).map fun n => (n, s.tail.drop (digits.length + 1))
    else none
  else (readHex 4 s).map fun lead =>
    if r.joined = true ∧ 0xD800 ≤ lead.1 ∧ lead.1 ≤ 0xDBFF then
      (readTrail lead.2).elim lead fun trail =>
        (0x10000 + (lead.1 - 0xD800) * 0x400 + (trail.1 - 0xDC00), trail.2)
    else lead

def isOctal (c : UInt16) : Bool := unit '0' ≤ c && c ≤ unit '7'

/-- A legacy octal escape that begins with the digit. -/
def octalEscape (c : UInt16) (s : List UInt16) : ℕ × List UInt16 :=
  let value (c : UInt16) : ℕ := c.toNat - 0x30
  match s with
  | [] => (value c, [])
  | d :: s =>
    if isOctal d = false then (value c, d :: s)
    else if c ≤ unit '3' ∧ s.head?.any isOctal = true then
      (value c * 64 + value d * 8 + value (s.headD 0), s.tail)
    else (value c * 8 + value d, s)

def kindOf (c : UInt16) : Option (Kind × Bool) :=
  if c = unit 'd' then some (.digit, false)
  else if c = unit 'D' then some (.digit, true)
  else if c = unit 'w' then some (.word, false)
  else if c = unit 'W' then some (.word, true)
  else if c = unit 's' then some (.space, false)
  else if c = unit 'S' then some (.space, true)
  else none

def controlEscape (c : UInt16) : Option ℕ :=
  if c = unit 't' then some 0x09
  else if c = unit 'n' then some 0x0A
  else if c = unit 'v' then some 0x0B
  else if c = unit 'f' then some 0x0C
  else if c = unit 'r' then some 0x0D
  else none

def syntaxCharacters : List UInt16 :=
  ['^', '$', '\\', '.', '*', '+', '?', '(', ')', '[', ']', '{', '}', '|', '/'].map unit

/-- The character that `\c` and this stand for; without `u`, also with a digit or a low line. -/
def controlLetter (r : Reading) (s : List UInt16) : Option (ℕ × List UInt16) :=
  if s.head?.any (fun c => isLetter c.toNat ||
      !r.unicode && (isDigit c.toNat || c = unit '_')) = true then
    some ((s.headD 0).toNat % 32, s.tail)
  else none

/-- What is behind the backslash. -/
def classEscape (r : Reading) (s : List UInt16) : Option (Member × List UInt16) :=
  match s with
  | [] => none
  | c :: s =>
    if c = unit 'b' then some (.char 0x08, s)
    else if c = unit '-' then some (.char 0x2D, s)
    else if (kindOf c).isSome = true then
      (kindOf c).map fun kind => (.escape kind.1 kind.2, s)
    else if (controlEscape c).isSome = true then (controlEscape c).map fun n => (.char n, s)
    else if c = unit 'c' then
      (controlLetter r s).elim (if r.unicode then none else some (.char 0x5C, c :: s)) fun read =>
        some (.char read.1, read.2)
    else if c = unit 'x' then
      (readHex 2 s).elim (if r.unicode then none else some (.char c.toNat, s)) fun read =>
        some (.char read.1, read.2)
    else if c = unit 'u' then
      (unicodeEscape r s).elim (if r.unicode then none else some (.char c.toNat, s)) fun read =>
        some (.char read.1, read.2)
    else if isDigit c.toNat = true then
      if r.unicode then
        if c = unit '0' ∧ s.head?.any (fun d => isDigit d.toNat) = false then some (.char 0, s)
        else none
      else if isOctal c = true then some (.char (octalEscape c s).1, (octalEscape c s).2)
      else some (.char c.toNat, s)
    else if r.unicode then if c ∈ syntaxCharacters then some (.char c.toNat, s) else none
    else if r.named = true ∧ c = unit 'k' then none
    else (sourceCharacter r (c :: s)).map fun read => (.char read.1, read.2)

/-- A member at the front of a text. -/
def atom (r : Reading) (s : List UInt16) : Option (Member × List UInt16) :=
  if s.head? = some (unit '\\') then classEscape r s.tail
  else (sourceCharacter r s).map fun read => (.char read.1, read.2)

/-! ### What a member leaves -/

/-- A member alone, or two with a hyphen between them. -/
inductive Item
  | one (m : Member)
  | hyphen (a b : Member)
deriving DecidableEq

/-- Two characters are a range; beside a class escape, the hyphen is a member. -/
def Item.has : Item → ℕ → Bool
  | .one m, c => m.has c
  | .hyphen (.char a) (.char b), c => a ≤ c && c ≤ b
  | .hyphen a b, c => a.has c || c = 0x2D || b.has c

def Item.Valid (r : Reading) : Item → Prop
  | .one _ => True
  | .hyphen (.char a) (.char b) => a ≤ b
  | .hyphen _ _ => r.unicode = false

/-- A hyphen that is not the last character of the class. -/
def Hyphen (s : List UInt16) : Prop :=
  ∃ c t, s = unit '-' :: c :: t ∧ c ≠ unit ']'

inductive Contents (r : Reading) : List UInt16 → List Item → List UInt16 → Prop
  | close (rest : List UInt16) : Contents r (unit ']' :: rest) [] rest
  | one {s s' rest : List UInt16} {m : Member} {items : List Item} :
    s.head? ≠ some (unit ']') → atom r s = some (m, s') → ¬ Hyphen s' →
    Contents r s' items rest → Contents r s (.one m :: items) rest
  | hyphen {s s' s'' rest : List UInt16} {a b : Member} {items : List Item} :
    s.head? ≠ some (unit ']') → atom r s = some (a, unit '-' :: s') → Hyphen (unit '-' :: s') →
    atom r s' = some (b, s'') → Contents r s'' items rest →
    Contents r s (.hyphen a b :: items) rest

/-- A valid class at the front of a text. -/
structure ClassAt (r : Reading) (s : List UInt16) (negated : Bool) (items : List Item)
    (rest : List UInt16) : Prop where
  front : ∃ body, s = unit '[' :: (if negated then unit '^' :: body else body) ∧
    (negated = false → body.head? ≠ some (unit '^')) ∧ Contents r body items rest
  valid : ∀ item ∈ items, item.Valid r

/-- Whether a class matches a character. -/
def classHas (negated : Bool) (items : List Item) (c : ℕ) : Bool :=
  xor negated (items.any fun item => item.has c)

/-! ### Pairs -/

/-- Without `u`, the halves of a pair apart. -/
abbrev halves (named : Bool) : Reading := ⟨false, named, false⟩

/-- Without `u`, but a pair as one character. -/
abbrev pairs (named : Bool) : Reading := ⟨false, named, true⟩

def Surrogate (n : ℕ) : Prop := 0xD800 ≤ n ∧ n ≤ 0xDFFF

/-- A pair, in front of a text: behind its first half is the second, and behind that the rest. -/
structure PairAt (named : Bool) (s second rest : List UInt16) (high low n : ℕ) : Prop where
  both : atom (pairs named) s = some (.char n, rest)
  first : atom (halves named) s = some (.char high, second)
  other : ∀ joined, atom ⟨false, named, joined⟩ second = some (.char low, rest)
  beyond : 0xFFFF < n
  high_half : Surrogate high
  low_half : Surrogate low
  head : second.head? ≠ some (unit ']') ∧ second.head? ≠ some (unit '-')

theorem surrogate_of_isHigh {c : UInt16} (h : isHigh c = true) : Surrogate c.toNat := by
  rw [isHigh, Bool.and_eq_true, decide_eq_true_eq, decide_eq_true_eq] at h
  exact ⟨h.1, h.2.trans (by decide)⟩

theorem surrogate_of_isLow {c : UInt16} (h : isLow c = true) : Surrogate c.toNat := by
  rw [isLow, Bool.and_eq_true, decide_eq_true_eq, decide_eq_true_eq] at h
  exact ⟨le_trans (by decide) h.1, h.2⟩

theorem ne_of_surrogate {c d : UInt16} (h : Surrogate c.toNat) (hd : d.toNat < 0xD800) : c ≠ d := by
  rintro rfl
  exact absurd h.1 (Nat.not_le.mpr hd)

/-- Nothing but an identity escape begins with a surrogate. -/
theorem classEscape_surrogate {named joined : Bool} {c : UInt16} (h : Surrogate c.toNat)
    (s : List UInt16) : classEscape ⟨false, named, joined⟩ (c :: s) =
      (sourceCharacter ⟨false, named, joined⟩ (c :: s)).map fun read => (.char read.1, read.2) := by
  have hne {d : UInt16} (hd : d.toNat < 0xD800) : c ≠ d := ne_of_surrogate h hd
  have hkind : kindOf c = none := by
    rw [kindOf, if_neg (hne (by decide)), if_neg (hne (by decide)), if_neg (hne (by decide)),
      if_neg (hne (by decide)), if_neg (hne (by decide)), if_neg (hne (by decide))]
  have hcontrol : controlEscape c = none := by
    rw [controlEscape, if_neg (hne (by decide)), if_neg (hne (by decide)),
      if_neg (hne (by decide)), if_neg (hne (by decide)), if_neg (hne (by decide))]
  have hdigit : isDigit c.toNat = false := by
    have hbig : ¬ c.toNat ≤ 0x39 := Nat.not_le.mpr (lt_of_lt_of_le (by decide) h.1)
    rw [isDigit, decide_eq_false hbig, Bool.and_false]
  rw [classEscape, if_neg (hne (by decide)), if_neg (hne (by decide)), hkind, hcontrol,
    if_neg (by exact Bool.false_ne_true), if_neg (by exact Bool.false_ne_true),
    if_neg (hne (by decide)), if_neg (hne (by decide)), if_neg (hne (by decide)), hdigit,
    if_neg Bool.false_ne_true, if_neg Bool.false_ne_true,
    if_neg fun hk => hne (by decide) hk.2]

theorem sourceCharacter_of_not_high (r : Reading) {c : UInt16} (h : isHigh c = false)
    (s : List UInt16) : sourceCharacter r (c :: s) = some (c.toNat, s) := by
  cases s with
  | nil => rfl
  | cons d s =>
    rw [sourceCharacter, if_neg]
    rintro ⟨-, hhigh, -⟩
    rw [h] at hhigh
    cases hhigh

theorem atom_of_surrogate (r : Reading) {c : UInt16} (h : Surrogate c.toNat) (s : List UInt16) :
    atom r (c :: s) = (sourceCharacter r (c :: s)).map fun read => (.char read.1, read.2) := by
  rw [atom, if_neg]
  intro hslash
  exact ne_of_surrogate h (by decide) (Option.some.inj hslash)

/-- **A pair** behind what reads it, whether it is escaped or not. -/
theorem pairAt_of_units {named : Bool} {s t : List UInt16} {c d : UInt16} (hc : isHigh c = true)
    (hd : isLow d = true)
    (hatom : ∀ joined, atom ⟨false, named, joined⟩ s =
      (sourceCharacter ⟨false, named, joined⟩ (c :: d :: t)).map fun read =>
        (.char read.1, read.2)) :
    PairAt named s (d :: t) t c.toNat d.toNat (pairValue c d) where
  both := by
    have hpair : sourceCharacter (pairs named) (c :: d :: t) = some (pairValue c d, t) :=
      if_pos ⟨rfl, hc, hd⟩
    rw [hatom, hpair, Option.map_some]
  first := by
    have hhalf : sourceCharacter (halves named) (c :: d :: t) = some (c.toNat, d :: t) := by
      rw [sourceCharacter, if_neg fun h => Bool.false_ne_true h.1]
    rw [hatom, hhalf, Option.map_some]
  other joined := by
    have hlow : isHigh d = false := by
      by_contra hhigh
      rw [isLow_of_isHigh (Bool.not_eq_false _ ▸ hhigh)] at hd
      cases hd
    rw [atom_of_surrogate _ (surrogate_of_isLow hd), sourceCharacter_of_not_high _ hlow]
    rfl
  beyond := pairValue_gt c d
  high_half := surrogate_of_isHigh hc
  low_half := surrogate_of_isLow hd
  head := by
    have hlow := surrogate_of_isLow hd
    exact ⟨fun h => ne_of_surrogate hlow (by decide) (Option.some.inj h),
      fun h => ne_of_surrogate hlow (by decide) (Option.some.inj h)⟩

theorem atom_escape (r : Reading) (s : List UInt16) : atom r (unit '\\' :: s) = classEscape r s :=
  if_pos rfl

theorem classEscape_u (named joined : Bool) (s : List UInt16) :
    classEscape ⟨false, named, joined⟩ (unit 'u' :: s) =
      (unicodeEscape ⟨false, named, joined⟩ s).elim (some (.char (unit 'u').toNat, s)) fun read =>
        some (.char read.1, read.2) := by
  rw [classEscape, if_neg (by decide), if_neg (by decide), if_neg (by decide), if_neg (by decide),
    if_neg (by decide), if_neg (by decide), if_pos rfl]
  rfl

/-- Without `u` there are no braces, and only a leading half looks at what is behind it. -/
theorem unicodeEscape_of_hex {named joined : Bool} {s : List UInt16} {lead : ℕ × List UInt16}
    (h : readHex 4 s = some lead) (hlead : ¬ (joined = true ∧ 0xD800 ≤ lead.1 ∧ lead.1 ≤ 0xDBFF)) :
    unicodeEscape ⟨false, named, joined⟩ s = some lead := by
  rw [unicodeEscape, if_neg fun h => Bool.false_ne_true h.1, h, Option.map_some, if_neg hlead]

theorem readTrail_inv {s : List UInt16} {trail : ℕ × List UInt16} (h : readTrail s = some trail) :
    ∃ t, s = unit '\\' :: unit 'u' :: t ∧ readHex 4 t = some trail ∧ 0xDC00 ≤ trail.1 ∧
      trail.1 ≤ 0xDFFF := by
  rw [readTrail] at h
  by_cases hfront : s.take 2 = [unit '\\', unit 'u']
  · rw [if_pos hfront, Option.filter_eq_some_iff, Bool.and_eq_true, decide_eq_true_eq,
      decide_eq_true_eq] at h
    obtain ⟨hhex, hrange⟩ := h
    refine ⟨s.drop 2, ?_, hhex, hrange⟩
    conv_lhs => rw [← List.take_append_drop 2 s, hfront]
    rfl
  · rw [if_neg hfront] at h
    cases h

theorem pairAt_of_escapes {named : Bool} {s : List UInt16} {lead trail : ℕ × List UInt16}
    (hhex : readHex 4 s = some lead) (hlead : 0xD800 ≤ lead.1 ∧ lead.1 ≤ 0xDBFF)
    (htrail : readTrail lead.2 = some trail) :
    PairAt named (unit '\\' :: unit 'u' :: s) lead.2 trail.2 lead.1 trail.1
      (0x10000 + (lead.1 - 0xD800) * 0x400 + (trail.1 - 0xDC00)) := by
  obtain ⟨t, hsecond, hhex', htrail'⟩ := readTrail_inv htrail
  refine ⟨?_, ?_, fun joined => ?_, by omega, ⟨hlead.1, hlead.2.trans (by decide)⟩,
    ⟨le_trans (by decide) htrail'.1, htrail'.2⟩, ?_⟩
  · have hboth : unicodeEscape (pairs named) s =
        some (0x10000 + (lead.1 - 0xD800) * 0x400 + (trail.1 - 0xDC00), trail.2) := by
      rw [unicodeEscape, if_neg fun h => Bool.false_ne_true h.1, hhex, Option.map_some,
        if_pos ⟨rfl, hlead⟩, htrail, Option.elim_some]
    rw [atom_escape, classEscape_u, hboth, Option.elim_some]
  · rw [atom_escape, classEscape_u, unicodeEscape_of_hex hhex fun h => Bool.false_ne_true h.1,
      Option.elim_some]
  · rw [hsecond, atom_escape, classEscape_u, unicodeEscape_of_hex hhex' fun h => by omega,
      Option.elim_some]
  · rw [hsecond]
    exact ⟨fun h => absurd (Option.some.inj h) (by decide),
      fun h => absurd (Option.some.inj h) (by decide)⟩

theorem sourceCharacter_joined (named : Bool) (s : List UInt16) :
    sourceCharacter (pairs named) s = sourceCharacter (halves named) s ∨
      ∃ c d t, s = c :: d :: t ∧ isHigh c = true ∧ isLow d = true := by
  rcases s with _ | ⟨c, _ | ⟨d, t⟩⟩
  · exact .inl rfl
  · exact .inl rfl
  · by_cases hpair : isHigh c = true ∧ isLow d = true
    · exact .inr ⟨c, d, t, rfl, hpair⟩
    · refine .inl ?_
      rw [sourceCharacter, sourceCharacter, if_neg fun h => hpair h.2,
        if_neg fun h => Bool.false_ne_true h.1]

theorem unicodeEscape_joined (named : Bool) (s : List UInt16) :
    unicodeEscape (pairs named) s = unicodeEscape (halves named) s ∨
      ∃ lead trail, readHex 4 s = some lead ∧ (0xD800 ≤ lead.1 ∧ lead.1 ≤ 0xDBFF) ∧
        readTrail lead.2 = some trail := by
  have hbraces (joined : Bool) : ¬ ((⟨false, named, joined⟩ : Reading).unicode = true ∧
      s.head? = some (unit '{')) := fun h => Bool.false_ne_true h.1
  rw [unicodeEscape, unicodeEscape, if_neg (hbraces true), if_neg (hbraces false)]
  cases hhex : readHex 4 s with
  | none => exact .inl rfl
  | some lead =>
    rw [Option.map_some, Option.map_some]
    by_cases hlead : 0xD800 ≤ lead.1 ∧ lead.1 ≤ 0xDBFF
    · rw [if_pos ⟨rfl, hlead⟩, if_neg fun h => Bool.false_ne_true h.1]
      cases htrail : readTrail lead.2 with
      | none => exact .inl rfl
      | some trail => exact .inr ⟨lead, trail, rfl, hlead, htrail⟩
    · rw [if_neg fun h => hlead h.2, if_neg fun h => hlead h.2]
      exact .inl rfl

/-- **One member**, with its pair joined or not. -/
theorem atom_joined (named : Bool) (s : List UInt16) :
    atom (pairs named) s = atom (halves named) s ∨
      ∃ second rest high low n, PairAt named s second rest high low n := by
  by_cases hslash : s.head? = some (unit '\\')
  · obtain ⟨s, rfl⟩ : ∃ t, s = unit '\\' :: t := ⟨s.tail, List.eq_cons_of_mem_head? hslash⟩
    rw [atom_escape, atom_escape]
    rcases s with _ | ⟨c, s⟩
    · exact .inl rfl
    by_cases hu : c = unit 'u'
    · subst hu
      rw [classEscape_u, classEscape_u]
      obtain heq | ⟨lead, trail, hhex, hlead, htrail⟩ := unicodeEscape_joined named s
      · exact .inl (by rw [heq])
      · exact .inr ⟨_, _, _, _, _, pairAt_of_escapes hhex hlead htrail⟩
    · obtain heq | ⟨c', d, t, hs, hc, hd⟩ := sourceCharacter_joined named (c :: s)
      · -- only `u` and the identity escapes ask whether pairs are joined
        refine .inl ?_
        rw [classEscape, classEscape, heq]
        simp only [if_neg hu]
        rfl
      · obtain ⟨rfl, rfl⟩ := List.cons.inj hs
        have hatom (joined : Bool) : atom ⟨false, named, joined⟩ (unit '\\' :: c :: d :: t) =
            (sourceCharacter ⟨false, named, joined⟩ (c :: d :: t)).map fun read =>
              (.char read.1, read.2) := by
          rw [atom_escape, classEscape_surrogate (surrogate_of_isHigh hc)]
        exact .inr ⟨_, _, _, _, _, pairAt_of_units hc hd hatom⟩
  · obtain heq | ⟨c, d, t, rfl, hc, hd⟩ := sourceCharacter_joined named s
    · refine .inl ?_
      rw [atom, atom, if_neg hslash, if_neg hslash, heq]
    · exact .inr ⟨_, _, _, _, _, pairAt_of_units hc hd fun joined =>
        atom_of_surrogate _ (surrogate_of_isHigh hc) _⟩

/-! ### Every class can be read with its pairs joined -/

/-- So many members up to the bracket, each hyphen one of them. -/
inductive Tokens (r : Reading) : ℕ → List UInt16 → List UInt16 → Prop
  | close (rest : List UInt16) : Tokens r 0 (unit ']' :: rest) rest
  | cons {k : ℕ} {s s' rest : List UInt16} {m : Member} : s.head? ≠ some (unit ']') →
    atom r s = some (m, s') → Tokens r k s' rest → Tokens r (k + 1) s rest

theorem atom_hyphen (r : Reading) (s : List UInt16) :
    atom r (unit '-' :: s) = some (.char 0x2D, s) := by
  have hslash : (unit '-' :: s).head? ≠ some (unit '\\') := fun h =>
    absurd (Option.some.inj h) (by decide)
  rw [atom, if_neg hslash, sourceCharacter_of_not_high r (by decide)]
  rfl

theorem Contents.tokens {r : Reading} {s rest : List UInt16} {items : List Item}
    (h : Contents r s items rest) : ∃ k, Tokens r k s rest := by
  induction h with
  | close rest => exact ⟨0, .close rest⟩
  | one hclose hatom _ _ ih =>
    obtain ⟨k, hk⟩ := ih
    exact ⟨k + 1, .cons hclose hatom hk⟩
  | @hyphen s s' _ _ _ _ _ hclose hatom hhyphen hother _ ih =>
    obtain ⟨k, hk⟩ := ih
    obtain ⟨c, t, hs, hc⟩ := hhyphen
    obtain rfl : s' = c :: t := (List.cons.inj hs).2
    have hend : (c :: t).head? ≠ some (unit ']') := fun h => hc (Option.some.inj h)
    have hdash : (unit '-' :: c :: t).head? ≠ some (unit ']') := fun h =>
      absurd (Option.some.inj h) (by decide)
    exact ⟨k + 3, .cons hclose hatom (.cons hdash (atom_hyphen r _) (.cons hend hother hk))⟩

theorem Tokens.contents {r : Reading} {k : ℕ} {s rest : List UInt16} (h : Tokens r k s rest) :
    ∃ items, Contents r s items rest := by
  induction k using Nat.strong_induction_on generalizing s with
  | _ k ih =>
    cases h with
    | close => exact ⟨[], .close rest⟩
    | @cons k _ s' _ m hclose hatom htokens =>
      by_cases hhyphen : Hyphen s'
      · obtain ⟨c, t, rfl, hc⟩ := hhyphen
        have hend : (c :: t).head? ≠ some (unit ']') := fun h => hc (Option.some.inj h)
        cases htokens with
        | @cons k _ _ _ _ _ hdash htokens =>
          obtain ⟨-, rfl⟩ := Prod.mk.inj (Option.some.inj ((atom_hyphen r _).symm.trans hdash))
          cases htokens with
          | close => exact absurd rfl hend
          | cons _ hother htokens =>
            obtain ⟨items, hitems⟩ := ih _ (by omega) htokens
            exact ⟨_, .hyphen hclose hatom ⟨c, t, rfl, hc⟩ hother hitems⟩
      · obtain ⟨items, hitems⟩ := ih k (by omega) htokens
        exact ⟨_, .one hclose hatom hhyphen hitems⟩

theorem Tokens.joined {named : Bool} {k : ℕ} {s rest : List UInt16}
    (h : Tokens (halves named) k s rest) : ∃ k', Tokens (pairs named) k' s rest := by
  induction h with
  | close rest => exact ⟨0, .close rest⟩
  | @cons k s s' rest m hclose hatom _ ih =>
    obtain ⟨k', hk⟩ := ih
    obtain heq | ⟨second, u, high, low, n, p⟩ := atom_joined named s
    · exact ⟨k' + 1, .cons hclose (heq.trans hatom) hk⟩
    · obtain ⟨rfl, rfl⟩ := Prod.mk.inj (Option.some.inj (hatom.symm.trans p.first))
      cases hk with
      | close => exact absurd rfl p.head.1
      | cons _ hlow hk =>
        obtain ⟨-, rfl⟩ := Prod.mk.inj (Option.some.inj ((p.other true).symm.trans hlow))
        exact ⟨_, .cons hclose p.both hk⟩

/-- **A class can be read with its pairs joined**, and ends at the same bracket; its ranges may be
other ones then. -/
theorem Contents.joined {named : Bool} {s rest : List UInt16} {items : List Item}
    (h : Contents (halves named) s items rest) :
    ∃ items', Contents (pairs named) s items' rest := by
  obtain ⟨k, htokens⟩ := h.tokens
  obtain ⟨k', htokens'⟩ := htokens.joined
  exact htokens'.contents

/-! ### Hyphens beside a pair -/

/-- Somewhere in the class a hyphen takes a pair: as an end of a range, or with a class escape in
front of the hyphen and another hyphen behind the pair. -/
inductive HyphenTakesPair (named : Bool) : List UInt16 → Prop
  | range {s s' s'' : List UInt16} {a b : ℕ} : s.head? ≠ some (unit ']') →
    atom (pairs named) s = some (.char a, unit '-' :: s') → Hyphen (unit '-' :: s') →
    atom (pairs named) s' = some (.char b, s'') → 0xFFFF < a ∨ 0xFFFF < b →
    HyphenTakesPair named s
  | between {s s' s'' : List UInt16} {kind : Kind} {negated : Bool} {b : ℕ} :
    s.head? ≠ some (unit ']') →
    atom (pairs named) s = some (.escape kind negated, unit '-' :: s') →
    Hyphen (unit '-' :: s') → atom (pairs named) s' = some (.char b, s'') → 0xFFFF < b →
    Hyphen s'' → HyphenTakesPair named s
  | one {s s' : List UInt16} {m : Member} : s.head? ≠ some (unit ']') →
    atom (pairs named) s = some (m, s') → ¬ Hyphen s' → HyphenTakesPair named s' →
    HyphenTakesPair named s
  | hyphen {s s' s'' : List UInt16} {a b : Member} : s.head? ≠ some (unit ']') →
    atom (pairs named) s = some (a, unit '-' :: s') → Hyphen (unit '-' :: s') →
    atom (pairs named) s' = some (b, s'') → HyphenTakesPair named s'' → HyphenTakesPair named s

theorem contents_inv {r : Reading} {s t rest : List UInt16} {m : Member} {items : List Item}
    (h : Contents r s items rest) (hclose : s.head? ≠ some (unit ']'))
    (hatom : atom r s = some (m, t)) :
    (¬ Hyphen t ∧ ∃ items', items = .one m :: items' ∧ Contents r t items' rest) ∨
      ∃ b u v items', t = unit '-' :: u ∧ Hyphen (unit '-' :: u) ∧ atom r u = some (b, v) ∧
        items = .hyphen m b :: items' ∧ Contents r v items' rest := by
  cases h with
  | close => exact absurd rfl hclose
  | one _ hatom' hno hrest =>
    obtain ⟨rfl, rfl⟩ := Prod.mk.inj (Option.some.inj (hatom.symm.trans hatom'))
    exact .inl ⟨hno, _, rfl, hrest⟩
  | hyphen _ hatom' hhyphen hother hrest =>
    obtain ⟨rfl, rfl⟩ := Prod.mk.inj (Option.some.inj (hatom.symm.trans hatom'))
    exact .inr ⟨_, _, _, _, rfl, hhyphen, hother, rfl, hrest⟩

/-- What the second half of a pair comes to, comes to the pair. -/
theorem PairAt.takesPair {named : Bool} {s second rest : List UInt16} {high low n : ℕ}
    (p : PairAt named s second rest high low n) (hclose : s.head? ≠ some (unit ']'))
    (h : HyphenTakesPair named second) : HyphenTakesPair named s := by
  cases h with
  | range _ hatom hhyphen hother _ =>
    obtain ⟨-, rfl⟩ := Prod.mk.inj (Option.some.inj ((p.other true).symm.trans hatom))
    exact .range hclose p.both hhyphen hother (.inl p.beyond)
  | between _ hatom _ _ _ _ =>
    cases (Prod.mk.inj (Option.some.inj ((p.other true).symm.trans hatom))).1
  | one _ hatom hno hrest =>
    obtain ⟨-, rfl⟩ := Prod.mk.inj (Option.some.inj ((p.other true).symm.trans hatom))
    exact .one hclose p.both hno hrest
  | hyphen _ hatom hhyphen hother hrest =>
    obtain ⟨-, rfl⟩ := Prod.mk.inj (Option.some.inj ((p.other true).symm.trans hatom))
    exact .hyphen hclose p.both hhyphen hother hrest

theorem PairAt.hyphen_or_takesPair {named : Bool} {s second rest : List UInt16} {high low n : ℕ}
    (p : PairAt named s second rest high low n) (h : HyphenTakesPair named second) :
    Hyphen rest ∨ HyphenTakesPair named rest := by
  cases h with
  | range _ hatom hhyphen _ _ =>
    obtain ⟨-, rfl⟩ := Prod.mk.inj (Option.some.inj ((p.other true).symm.trans hatom))
    exact .inl hhyphen
  | between _ hatom _ _ _ _ =>
    cases (Prod.mk.inj (Option.some.inj ((p.other true).symm.trans hatom))).1
  | one _ hatom _ hrest =>
    obtain ⟨-, rfl⟩ := Prod.mk.inj (Option.some.inj ((p.other true).symm.trans hatom))
    exact .inr hrest
  | hyphen _ hatom hhyphen _ _ =>
    obtain ⟨-, rfl⟩ := Prod.mk.inj (Option.some.inj ((p.other true).symm.trans hatom))
    exact .inl hhyphen

/-- A character of one unit that is in no pair. -/
def Bmp (c : ℕ) : Prop := c ≤ 0xFFFF ∧ ¬ Surrogate c

theorem has_surrogate {n c : ℕ} (hn : Surrogate n) (hc : Bmp c) : (Member.char n).has c = false :=
  decide_eq_false fun h => hc.2 (h ▸ hn)

theorem has_beyond {n c : ℕ} (hn : 0xFFFF < n) (hc : Bmp c) : (Member.char n).has c = false :=
  decide_eq_false fun h => absurd hc.1 (Nat.not_le.mpr (h ▸ hn))

/-- **A class with its pairs joined** has the same members of one unit, as long as no hyphen takes a
pair. -/
theorem contents_joined {named : Bool} {s rest : List UInt16} {items : List Item}
    (h : Contents (halves named) s items rest) (hpair : ¬ HyphenTakesPair named s)
    (hvalid : ∀ item ∈ items, item.Valid (halves named)) :
    ∃ items', Contents (pairs named) s items' rest ∧
      (∀ item ∈ items', item.Valid (pairs named)) ∧
      ∀ c, Bmp c → (items'.any fun item => item.has c) = items.any fun item => item.has c := by
  induction h with
  | close rest => exact ⟨[], .close rest, hvalid, fun c _ => rfl⟩
  | @one s s' rest m items hclose hatom hno _ ih =>
    have hvalid' : ∀ item ∈ items, item.Valid (halves named) := fun item hitem =>
      hvalid item (List.mem_cons_of_mem _ hitem)
    obtain heq | ⟨second, u, high, low, n, p⟩ := atom_joined named s
    · have hatom' := heq.trans hatom
      obtain ⟨items', hcontents, hvalids, hsame⟩ :=
        ih (fun htakes => hpair (.one hclose hatom' hno htakes)) hvalid'
      refine ⟨.one m :: items', .one hclose hatom' hno hcontents, ?_, fun c hc => ?_⟩
      · exact List.forall_mem_cons.mpr ⟨trivial, hvalids⟩
      · rw [List.any_cons, List.any_cons, hsame c hc]
    · obtain ⟨rfl, rfl⟩ := Prod.mk.inj (Option.some.inj (hatom.symm.trans p.first))
      obtain ⟨items', hcontents, hvalids, hsame⟩ :=
        ih (fun htakes => hpair (p.takesPair hclose htakes)) hvalid'
      obtain ⟨hno', items'', rfl, hrest⟩ | ⟨b, u, v, items'', rfl, hhyphen, hother, rfl, hrest⟩ :=
        contents_inv hcontents p.head.1 (p.other true)
      · refine ⟨.one (.char n) :: items'', .one hclose p.both hno' hrest, ?_, fun c hc => ?_⟩
        · exact List.forall_mem_cons.mpr ⟨trivial, (List.forall_mem_cons.mp hvalids).2⟩
        · rw [List.any_cons, List.any_cons, ← hsame c hc, List.any_cons]
          show ((Member.char n).has c || _) =
            ((Member.char high).has c || ((Member.char low).has c || _))
          rw [has_beyond p.beyond hc, has_surrogate p.high_half hc, has_surrogate p.low_half hc]
          rfl
      · cases b with
        | char b => exact absurd (.range hclose p.both hhyphen hother (.inl p.beyond)) hpair
        | escape kind negated =>
          refine ⟨.hyphen (.char n) (.escape kind negated) :: items'',
            .hyphen hclose p.both hhyphen hother hrest, ?_, fun c hc => ?_⟩
          · exact List.forall_mem_cons.mpr ⟨rfl, (List.forall_mem_cons.mp hvalids).2⟩
          · rw [List.any_cons, List.any_cons, ← hsame c hc, List.any_cons]
            show (((Member.char n).has c || _ || _) || _) =
              ((Member.char high).has c || (((Member.char low).has c || _ || _) || _))
            rw [has_beyond p.beyond hc, has_surrogate p.high_half hc, has_surrogate p.low_half hc]
            rfl
  | @hyphen s s' s'' rest a b items hclose hatom hhyphen hother _ ih =>
    obtain ⟨hvalid₁, hvalid'⟩ := List.forall_mem_cons.mp hvalid
    obtain heq | ⟨second, u, high, low, n, p⟩ := atom_joined named s
    · have hatom' := heq.trans hatom
      obtain heq' | ⟨second, u, high, low, n, p⟩ := atom_joined named s'
      · have hother' := heq'.trans hother
        obtain ⟨items', hcontents, hvalids, hsame⟩ :=
          ih (fun htakes => hpair (.hyphen hclose hatom' hhyphen hother' htakes)) hvalid'
        refine ⟨.hyphen a b :: items', .hyphen hclose hatom' hhyphen hother' hcontents, ?_,
          fun c hc => ?_⟩
        · refine List.forall_mem_cons.mpr ⟨?_, hvalids⟩
          cases a <;> cases b <;> exact hvalid₁
        · rw [List.any_cons, List.any_cons, hsame c hc]
      · -- the hyphen takes the first half, and what is behind it begins with the second
        obtain ⟨rfl, rfl⟩ := Prod.mk.inj (Option.some.inj (hother.symm.trans p.first))
        cases a with
        | char a => exact absurd (.range hclose hatom' hhyphen p.both (.inr p.beyond)) hpair
        | escape kind negated =>
          have hno : ¬ Hyphen u := fun hbehind =>
            hpair (.between hclose hatom' hhyphen p.both p.beyond hbehind)
          have hpair' : ¬ HyphenTakesPair named s'' := fun htakes =>
            hpair (.hyphen hclose hatom' hhyphen p.both
              ((p.hyphen_or_takesPair htakes).resolve_left hno))
          obtain ⟨items', hcontents, hvalids, hsame⟩ := ih hpair' hvalid'
          obtain ⟨-, items'', rfl, hrest⟩ | ⟨_, _, _, _, rfl, hbehind, -⟩ :=
            contents_inv hcontents p.head.1 (p.other true)
          · refine ⟨.hyphen (.escape kind negated) (.char n) :: items'',
              .hyphen hclose hatom' hhyphen p.both hrest, ?_, fun c hc => ?_⟩
            · exact List.forall_mem_cons.mpr ⟨rfl, (List.forall_mem_cons.mp hvalids).2⟩
            · rw [List.any_cons, List.any_cons, ← hsame c hc, List.any_cons]
              show (((Member.escape kind negated).has c || _ || (Member.char n).has c) || _) =
                (((Member.escape kind negated).has c || _ || (Member.char high).has c) ||
                  ((Member.char low).has c || _))
              rw [has_beyond p.beyond hc, has_surrogate p.high_half hc,
                has_surrogate p.low_half hc]
              rfl
          · exact absurd hbehind hno
    · obtain ⟨-, rfl⟩ := Prod.mk.inj (Option.some.inj (hatom.symm.trans p.first))
      exact absurd rfl p.head.2

end Lib.Regex.JsClass
