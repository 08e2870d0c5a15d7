import Mathlib.Data.List.Basic

namespace Lib.Css

/-!
# CSS selectors

The part of the CSS syntax that simple selectors use, over code points: preprocessing of the input,
escapes, identifiers, hashes and strings. Any other code point is a token of its own.

* `tokenize` — from a text to its tokens;
* `parse` — from a text to the one simple selector it is;
* `consumeString_escaped` — what a quoted text is read as;
* `consumeIdent_plain` — what an identifier without escapes is read as.
-/

def newline : ℕ := 0xA

def replacement : ℕ := 0xFFFD

/-- The code points of a text without surrogates. -/
def codePoints (s : String) : List ℕ := s.toList.map Char.toNat

def isSurrogate (c : ℕ) : Bool := 0xD800 ≤ c && c ≤ 0xDFFF

def isWhitespace (c : ℕ) : Bool := c == newline || c == 0x9 || c == 0x20

def isDigit (c : ℕ) : Bool := '0'.toNat ≤ c && c ≤ '9'.toNat

def isLetter (c : ℕ) : Bool :=
  'A'.toNat ≤ c && c ≤ 'Z'.toNat || 'a'.toNat ≤ c && c ≤ 'z'.toNat

def hexDigit (c : ℕ) : Option ℕ :=
  if isDigit c then some (c - '0'.toNat)
  else if 'A'.toNat ≤ c && c ≤ 'F'.toNat then some (c - 'A'.toNat + 10)
  else if 'a'.toNat ≤ c && c ≤ 'f'.toNat then some (c - 'a'.toNat + 10)
  else none

def isIdentStart (c : ℕ) : Bool := isLetter c || 0x80 ≤ c || c == '_'.toNat

def isIdent (c : ℕ) : Bool := isIdentStart c || isDigit c || c == '-'.toNat

/-! ### Preprocessing -/

/-- What preprocessing makes of a code point on its own. -/
def filtered (c : ℕ) : ℕ :=
  if c = 0xD ∨ c = 0xC then newline
  else if c = 0 ∨ isSurrogate c = true then replacement
  else c

/-- A carriage return and the line feed behind it are one newline. -/
def preprocess : List ℕ → List ℕ
  | [] => []
  | c :: rest =>
    if c = 0xD ∧ rest.head? = some newline then preprocess rest else filtered c :: preprocess rest

/-- A code point that preprocessing keeps. -/
def Kept (c : ℕ) : Prop := c ≠ 0 ∧ c ≠ 0xC ∧ c ≠ 0xD ∧ isSurrogate c = false

instance : DecidablePred Kept := fun c =>
  inferInstanceAs (Decidable (c ≠ 0 ∧ c ≠ 0xC ∧ c ≠ 0xD ∧ isSurrogate c = false))

theorem filtered_of_kept {c : ℕ} (h : Kept c) : filtered c = c := by
  obtain ⟨h0, hff, hcr, hs⟩ := h
  unfold filtered
  rw [if_neg (by simp [hff, hcr]), if_neg (by simp [h0, hs])]

theorem kept_of_filtered_eq {c : ℕ} (h : filtered c = c) : Kept c := by
  unfold filtered at h
  split_ifs at h with hbreak hreplaced
  · rcases hbreak with rfl | rfl <;> simp [newline] at h
  · rcases hreplaced with rfl | hs
    · simp [replacement] at h
    · subst h
      exact absurd hs (by decide)
  · rw [not_or] at hbreak hreplaced
    exact ⟨hreplaced.1, hbreak.2, hbreak.1, Bool.eq_false_iff.mpr hreplaced.2⟩

/-- Without a line feed the code points are preprocessed one by one. -/
theorem preprocess_eq_map {s : List ℕ} (h : newline ∉ s) : preprocess s = s.map filtered := by
  induction s with
  | nil => rfl
  | cons c rest ih =>
    rw [List.mem_cons, not_or] at h
    have hhead : rest.head? ≠ some newline := fun hnl => h.2 (List.mem_of_mem_head? hnl)
    rw [preprocess, if_neg fun hc => hhead hc.2, ih h.2, List.map_cons]

/-! ### Tokens -/

inductive Token
  | whitespace
  | ident (value : List ℕ)
  | hash (isId : Bool) (value : List ℕ)
  | string (value : List ℕ)
  | badString
  | delim (c : ℕ)
  deriving DecidableEq

def isValidEscape (s : List ℕ) : Bool :=
  s.head? == some '\\'.toNat && s.tail.head? != some newline

def startsIdent (s : List ℕ) : Bool :=
  match s with
  | [] => false
  | c :: rest =>
    if c = '-'.toNat then
      rest.head?.any (fun d => isIdentStart d || d == '-'.toNat) || isValidEscape rest
    else isIdentStart c || isValidEscape s

/-- Reads at most so many hexadecimal digits. -/
def takeHex : ℕ → ℕ → List ℕ → ℕ × List ℕ
  | 0, value, s => (value, s)
  | _ + 1, value, [] => (value, [])
  | n + 1, value, c :: rest =>
    match hexDigit c with
    | some d => takeHex n (16 * value + d) rest
    | none => (value, c :: rest)

def skipWhitespace (s : List ℕ) : List ℕ :=
  if s.head?.any isWhitespace then s.tail else s

/-- Reads what stands behind the backslash of an escape. -/
def consumeEscape (s : List ℕ) : ℕ × List ℕ :=
  match s with
  | [] => (replacement, [])
  | c :: rest =>
    if (hexDigit c).isSome then
      let (value, left) := takeHex 6 0 s
      (if value = 0 ∨ isSurrogate value = true ∨ 0x10FFFF < value then replacement else value,
        skipWhitespace left)
    else (c, rest)

/-- Reads the text of a string up to its ending code point; none at a newline in it. -/
def consumeString (ending : ℕ) : ℕ → List ℕ → List ℕ → Option (List ℕ) × List ℕ
  | 0, text, s => (some text, s)
  | _ + 1, text, [] => (some text, [])
  | fuel + 1, text, c :: rest =>
    if c = ending then (some text, rest)
    else if c = newline then (none, c :: rest)
    else if c = '\\'.toNat then
      if rest = [] then (some text, [])
      else if rest.head? = some newline then consumeString ending fuel text rest.tail
      else consumeString ending fuel (text ++ [(consumeEscape rest).1]) (consumeEscape rest).2
    else consumeString ending fuel (text ++ [c]) rest

def consumeIdent : ℕ → List ℕ → List ℕ → List ℕ × List ℕ
  | 0, name, s => (name, s)
  | _ + 1, name, [] => (name, [])
  | fuel + 1, name, c :: rest =>
    if isIdent c then consumeIdent fuel (name ++ [c]) rest
    else if isValidEscape (c :: rest) then
      consumeIdent fuel (name ++ [(consumeEscape rest).1]) (consumeEscape rest).2
    else (name, c :: rest)

def consumeToken (c : ℕ) (rest : List ℕ) : Token × List ℕ :=
  if isWhitespace c then (.whitespace, rest.dropWhile isWhitespace)
  else if c = '"'.toNat ∨ c = '\''.toNat then
    let (text, left) := consumeString c (rest.length + 1) [] rest
    (text.elim .badString .string, left)
  else if c = '#'.toNat then
    if rest.head?.any isIdent || isValidEscape rest then
      let (name, left) := consumeIdent (rest.length + 1) [] rest
      (.hash (startsIdent rest) name, left)
    else (.delim c, rest)
  else if startsIdent (c :: rest) then
    let (name, left) := consumeIdent (rest.length + 2) [] (c :: rest)
    (.ident name, left)
  else (.delim c, rest)

def tokens : ℕ → List ℕ → List Token
  | 0, _ => []
  | _ + 1, [] => []
  | fuel + 1, c :: rest => (consumeToken c rest).1 :: tokens fuel (consumeToken c rest).2

theorem tokens_nil (fuel : ℕ) : tokens fuel [] = [] := by
  cases fuel <;> rfl

def tokenize (s : List ℕ) : List Token :=
  tokens (preprocess s).length (preprocess s)

/-! ### Selectors -/

inductive Selector
  | id (value : List ℕ)
  | attribute (name value : List ℕ)
  deriving DecidableEq

/-- The attributes of an element. -/
abbrev Element := List ℕ → Option (List ℕ)

def Selector.Matches : Selector → Element → Prop
  | .id value, element => element (codePoints "id") = some value
  | .attribute name value, element => element name = some value

/-- The simple selector that a list of tokens is. -/
def select : List Token → Option Selector
  | [.hash true value] => some (.id value)
  | [.delim opening, .ident name, .delim equals, .string value, .delim closing] =>
    if opening = '['.toNat ∧ equals = '='.toNat ∧ closing = ']'.toNat then
      some (.attribute name value)
    else none
  | _ => none

def parse (s : List ℕ) : Option Selector := select (tokenize s)

/-! ### Identifiers and strings without a surprise -/

/-- An identifier without escapes that ends the text. -/
theorem consumeIdent_plain {name : List ℕ} (h : ∀ c ∈ name, isIdent c = true) :
    ∀ (fuel : ℕ) (read : List ℕ), name.length < fuel →
      consumeIdent fuel read name = (read ++ name, []) := by
  induction name with
  | nil =>
    intro fuel read hfuel
    obtain ⟨fuel, rfl⟩ := Nat.exists_eq_add_of_lt hfuel
    rw [List.append_nil]
    rfl
  | cons c name ih =>
    intro fuel read hfuel
    obtain ⟨fuel, rfl⟩ : ∃ n, fuel = n + 1 := ⟨fuel - 1, by omega⟩
    rw [List.forall_mem_cons] at h
    rw [consumeIdent, if_pos h.1, ih h.2 fuel _ (by simpa using hfuel), List.append_assoc]
    rfl

/-- How a text is written between two double quotes. -/
def quote (c : ℕ) : List ℕ :=
  if c = '\\'.toNat ∨ c = '"'.toNat then ['\\'.toNat, c]
  else if c = newline then codePoints "\\a "
  else [c]

/-- A quoted code point that is no bare newline is read as one code point. -/
theorem consumeString_quote {c : ℕ} (hff : c ≠ 0xC) (hcr : c ≠ 0xD) (fuel : ℕ)
    (read rest : List ℕ) :
    consumeString '"'.toNat (fuel + 1) read ((quote c).map filtered ++ rest) =
      consumeString '"'.toNat fuel (read ++ [filtered c]) rest := by
  by_cases hbackslash : c = '\\'.toNat
  · subst hbackslash
    rfl
  by_cases hquote : c = '"'.toNat
  · subst hquote
    rfl
  by_cases hnl : c = newline
  · -- the space ends the hexadecimal escape
    subst hnl
    rfl
  have hplain : quote c = [c] := by
    unfold quote
    rw [if_neg (by simp only [hbackslash, hquote, or_self, not_false_eq_true]), if_neg hnl]
  have hkept : filtered c ≠ newline ∧ filtered c ≠ '"'.toNat ∧ filtered c ≠ '\\'.toNat := by
    unfold filtered
    rw [if_neg (by simp only [hff, hcr, or_self, not_false_eq_true])]
    split_ifs
    · decide
    · exact ⟨hnl, hquote, hbackslash⟩
  rw [hplain, List.map_singleton, List.singleton_append, consumeString, if_neg hkept.2.1,
    if_neg hkept.1, if_neg hkept.2.2]

/-- Without a carriage return or a form feed in it, a quoted text is read to its end. -/
theorem consumeString_quoted {text : List ℕ} (hff : 0xC ∉ text) (hcr : 0xD ∉ text)
    (rest : List ℕ) : ∀ (fuel : ℕ) (read : List ℕ), text.length < fuel →
      consumeString '"'.toNat fuel read ((text.flatMap quote).map filtered ++ '"'.toNat :: rest) =
        (some (read ++ text.map filtered), rest) := by
  induction text with
  | nil =>
    intro fuel read hfuel
    obtain ⟨fuel, rfl⟩ : ∃ n, fuel = n + 1 := ⟨fuel - 1, by simp at hfuel; omega⟩
    rw [List.map_nil, List.append_nil]
    rfl
  | cons c text ih =>
    intro fuel read hfuel
    obtain ⟨fuel, rfl⟩ : ∃ n, fuel = n + 1 := ⟨fuel - 1, by omega⟩
    rw [List.mem_cons, not_or] at hff hcr
    rw [List.flatMap_cons, List.map_append, List.append_assoc,
      consumeString_quote (Ne.symm hff.1) (Ne.symm hcr.1),
      ih hff.2 hcr.2 fuel _ (by simpa using hfuel), List.append_assoc]
    rfl

/-- A carriage return or a form feed in a quoted text ends the string. -/
theorem consumeString_broken {text : List ℕ} (hbreak : 0xC ∈ text ∨ 0xD ∈ text)
    (rest : List ℕ) : ∀ (fuel : ℕ) (read : List ℕ), text.length < fuel →
      (consumeString '"'.toNat fuel read
        ((text.flatMap quote).map filtered ++ rest)).1 = none := by
  induction text with
  | nil => simp at hbreak
  | cons c text ih =>
    intro fuel read hfuel
    obtain ⟨fuel, rfl⟩ : ∃ n, fuel = n + 1 := ⟨fuel - 1, by omega⟩
    rw [List.flatMap_cons, List.map_append, List.append_assoc]
    by_cases hc : c = 0xC ∨ c = 0xD
    · rcases hc with rfl | rfl <;> rfl
    · rw [not_or] at hc
      rw [consumeString_quote hc.1 hc.2]
      apply ih _ fuel _ (by simpa using hfuel)
      rcases hbreak with h | h
      · exact .inl ((List.mem_cons.mp h).resolve_left (Ne.symm hc.1))
      · exact .inr ((List.mem_cons.mp h).resolve_left (Ne.symm hc.2))

end Lib.Css
