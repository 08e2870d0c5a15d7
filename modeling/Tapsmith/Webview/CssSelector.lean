import Tapsmith.Lib.Css
import Tapsmith.Lib.Regex

namespace Tapsmith.Webview

open Lib.Css
open Lib.Regex (RegExp)

/-!
# Selectors for the id of an element

`css-selector.ts`: the selector that is suggested for an element with an id, `#id` where the id is a
plain CSS identifier and `[id="…"]` elsewhere, and the way back from the second form.

* `parse_cssIdSelector` — what a browser makes of the suggested selector;
* `idOfAttributeSelector_cssIdSelector` — the way back always gives the id;
* `cssIdSelector_denotes_iff` — the selector is right exactly for the ids whose code points the
  preprocessing of a style sheet keeps.
-/

/-! ### The functions of the module -/

/-- `[A-Za-z_\u{80}-\u{10FFFF}]` -/
def identifierStart (c : ℕ) : Bool :=
  isLetter c || c == '_'.toNat || 0x80 ≤ c && c ≤ 0x10FFFF

/-- `[\w\u{80}-\u{10FFFF}-]` -/
def identifierPart (c : ℕ) : Bool :=
  isLetter c || isDigit c || c == '_'.toNat || 0x80 ≤ c && c ≤ 0x10FFFF || c == '-'.toNat

def isHyphen (c : ℕ) : Bool := c == '-'.toNat

/-- `/^(?:--|-?[A-Za-z_\u{80}-\u{10FFFF}])[\w\u{80}-\u{10FFFF}-]*$/u` -/
def cssIdentifier : RegExp ℕ :=
  .cat (.alt (.cat (.set isHyphen) (.set isHyphen))
    (.cat (.opt (.set isHyphen)) (.set identifierStart))) (.star (.set identifierPart))

def isCssIdentifier (name : List ℕ) : Bool := cssIdentifier.test name

/-- `id.replace(/[\\"]/g, '\\$&').replace(/\n/g, '\\a ')` -/
def escaped (id : List ℕ) : List ℕ :=
  (id.flatMap fun c => if c = '\\'.toNat ∨ c = '"'.toNat then ['\\'.toNat, c] else [c]).flatMap
    fun c => if c = newline then codePoints "\\a " else [c]

def cssIdSelector (id : List ℕ) : List ℕ :=
  if isCssIdentifier id then codePoints "#" ++ id
  else codePoints "[id=\"" ++ escaped id ++ codePoints "\"]"

/-- `(?:[^"\\]|\\.)*` -/
def attributeText : RegExp ℕ :=
  .star (.alt (.set fun c => c != '"'.toNat && c != '\\'.toNat)
    (.cat (.set (· == '\\'.toNat)) (.set fun _ => true)))

/-- `replace(/\\(a |.)/gs, (_, c) => (c === 'a ' ? '\n' : c))` -/
def unescape : List ℕ → List ℕ
  | 0x5C :: 0x61 :: 0x20 :: rest => newline :: unescape rest
  | 0x5C :: c :: rest => c :: unescape rest
  | c :: rest => c :: unescape rest
  | [] => []

def idOfAttributeSelector (css : List ℕ) : Option (List ℕ) :=
  -- the group of the expression stands between two texts of fixed length
  let text := (css.drop (codePoints "[id=\"").length).dropLast.dropLast
  if css = codePoints "[id=\"" ++ text ++ codePoints "\"]" ∧ attributeText.test text = true then
    some (unescape text)
  else none

/-! ### The escaped id -/

theorem escaped_eq (id : List ℕ) : escaped id = id.flatMap quote := by
  unfold escaped
  rw [List.flatMap_assoc]
  congr 1
  funext c
  unfold quote
  by_cases hc : c = '\\'.toNat ∨ c = '"'.toNat
  · rw [if_pos hc, if_pos hc]
    rcases hc with rfl | rfl <;> rfl
  · rw [if_neg hc, if_neg hc, List.flatMap_singleton]

theorem newline_notMem_escaped (id : List ℕ) : newline ∉ escaped id := by
  rw [escaped_eq, List.mem_flatMap]
  rintro ⟨c, -, hc⟩
  unfold quote at hc
  split_ifs at hc with hspecial hnl
  · rcases hspecial with rfl | rfl <;> simp [newline] at hc
  · revert hc
    decide
  · exact hnl (List.mem_singleton.mp hc).symm

theorem unescape_cons {c : ℕ} (hc : c ≠ '\\'.toNat) (rest : List ℕ) :
    unescape (c :: rest) = c :: unescape rest := by
  rw [unescape]
  · rintro _ rfl
    exact absurd rfl hc
  · rintro _ _ rfl
    exact absurd rfl hc

theorem unescape_quote (c : ℕ) (rest : List ℕ) :
    unescape (quote c ++ rest) = c :: unescape rest := by
  by_cases hbackslash : c = '\\'.toNat
  · subst hbackslash
    rfl
  by_cases hquote : c = '"'.toNat
  · subst hquote
    rfl
  by_cases hnl : c = newline
  · subst hnl
    rfl
  unfold quote
  rw [if_neg (by simp only [hbackslash, hquote, or_self, not_false_eq_true]), if_neg hnl]
  exact unescape_cons hbackslash rest

theorem unescape_escaped (id : List ℕ) : unescape (escaped id) = id := by
  rw [escaped_eq]
  induction id with
  | nil => rfl
  | cons c id ih => rw [List.flatMap_cons, unescape_quote, ih]

/-- What is written for a code point is a text of the group of the expression. -/
theorem attributeText_quote (c : ℕ) : attributeText.Matches (quote c) := by
  rw [← RegExp.test_iff]
  unfold quote
  split_ifs with hspecial hnl
  · rcases hspecial with rfl | rfl <;> rfl
  · rfl
  · rw [RegExp.test_iff]
    refine ⟨[[c]], rfl, fun t ht => .inl ⟨c, List.mem_singleton.mp ht, ?_⟩⟩
    rw [not_or] at hspecial
    show (c != '"'.toNat && c != '\\'.toNat) = true
    rw [Bool.and_eq_true, bne_iff_ne, bne_iff_ne]
    exact ⟨hspecial.2, hspecial.1⟩

theorem attributeText_escaped (id : List ℕ) : attributeText.Matches (escaped id) := by
  rw [escaped_eq]
  induction id with
  | nil => exact ⟨[], rfl, fun t ht => absurd ht List.not_mem_nil⟩
  | cons c id ih =>
    obtain ⟨pieces, hpieces, hall⟩ := attributeText_quote c
    obtain ⟨pieces', hpieces', hall'⟩ := ih
    refine ⟨pieces ++ pieces', ?_, fun t ht => ?_⟩
    · rw [List.flatMap_cons, List.flatten_append, ← hpieces, ← hpieces']
    · rcases List.mem_append.mp ht with ht | ht
      · exact hall t ht
      · exact hall' t ht

/-- **The way back.** The id is read off the attribute selector, whatever it is. -/
theorem idOfAttributeSelector_cssIdSelector {id : List ℕ} (hid : isCssIdentifier id = false) :
    idOfAttributeSelector (cssIdSelector id) = some id := by
  have htext : ((cssIdSelector id).drop (codePoints "[id=\"").length).dropLast.dropLast =
      escaped id := by
    unfold cssIdSelector
    rw [hid, if_neg Bool.false_ne_true, List.append_assoc, List.drop_left]
    show (escaped id ++ ['"'.toNat, ']'.toNat]).dropLast.dropLast = escaped id
    rw [List.dropLast_append_of_ne_nil (by simp)]
    exact List.dropLast_concat
  unfold idOfAttributeSelector
  rw [htext]
  have hcss : cssIdSelector id = codePoints "[id=\"" ++ escaped id ++ codePoints "\"]" := by
    unfold cssIdSelector
    rw [hid, if_neg Bool.false_ne_true]
  show (if _ then some (unescape (escaped id)) else none) = some id
  rw [if_pos ⟨hcss, RegExp.test_iff.mpr (attributeText_escaped id)⟩, unescape_escaped]

/-! ### What a browser reads -/

theorem cssIdentifier_spec {id : List ℕ} (hid : isCssIdentifier id = true) :
    startsIdent id = true ∧ ∀ c ∈ id, isIdent c = true := by
  have hpart : ∀ c, identifierPart c = true → isIdent c = true := by
    intro c hc
    simp only [identifierPart, isIdent, isIdentStart, Bool.or_eq_true, Bool.and_eq_true] at hc ⊢
    tauto
  have hstart : ∀ c, identifierStart c = true → isIdentStart c = true ∧ isIdent c = true := by
    intro c hc
    simp only [identifierStart, isIdent, isIdentStart, Bool.or_eq_true, Bool.and_eq_true] at hc ⊢
    tauto
  obtain ⟨u, v, rfl, hu, hv⟩ := RegExp.test_iff.mp hid
  rw [RegExp.matches_star_set] at hv
  have hv' : ∀ c ∈ v, isIdent c = true := fun c hc => hpart c (hv c hc)
  rcases hu with ⟨_, _, rfl, ⟨c, rfl, hc⟩, ⟨d, rfl, hd⟩⟩ | ⟨_, _, rfl, hhyphen, ⟨d, rfl, hd⟩⟩
  · obtain rfl : c = '-'.toNat := by simpa [isHyphen] using hc
    obtain rfl : d = '-'.toNat := by simpa [isHyphen] using hd
    refine ⟨rfl, ?_⟩
    rintro c (_ | ⟨_, _ | ⟨_, hc⟩⟩)
    · rfl
    · rfl
    · exact hv' c hc
  · obtain ⟨hd, hd'⟩ := hstart d hd
    rcases hhyphen with rfl | ⟨c, rfl, hc⟩
    · have hne : d ≠ '-'.toNat := by
        rintro rfl
        revert hd
        decide
      refine ⟨?_, ?_⟩
      · show startsIdent (d :: v) = true
        rw [startsIdent, if_neg hne, hd, Bool.true_or]
      · exact List.forall_mem_cons.mpr ⟨hd', hv'⟩
    · obtain rfl : c = '-'.toNat := by simpa [isHyphen] using hc
      refine ⟨?_, ?_⟩
      · show startsIdent ('-'.toNat :: d :: v) = true
        rw [startsIdent, if_pos rfl, List.head?_cons, Option.any_some, hd]
        rfl
      · exact List.forall_mem_cons.mpr ⟨rfl, List.forall_mem_cons.mpr ⟨hd', hv'⟩⟩

theorem filtered_of_isIdent {c : ℕ} (hc : isIdent c = true) :
    isIdent (filtered c) = true ∧ isIdentStart (filtered c) = isIdentStart c ∧
      (filtered c = '-'.toNat ↔ c = '-'.toNat) := by
  unfold filtered
  split_ifs with hbreak hreplaced
  · rcases hbreak with rfl | rfl <;> cases hc
  · have hs : isSurrogate c = true := by
      rcases hreplaced with rfl | hs
      · cases hc
      · exact hs
    simp only [isSurrogate, Bool.and_eq_true, decide_eq_true_eq] at hs
    have hstart : isIdentStart c = true := by
      simp only [isIdentStart, Bool.or_eq_true, decide_eq_true_eq]
      omega
    refine ⟨by decide, by rw [hstart]; rfl, fun h => absurd h (by decide), ?_⟩
    rintro rfl
    exact absurd hs.1 (by decide)
  · exact ⟨hc, rfl, Iff.rfl⟩

theorem startsIdent_map_filtered {name : List ℕ} (h : ∀ c ∈ name, isIdent c = true)
    (hstart : startsIdent name = true) : startsIdent (name.map filtered) = true := by
  have hescape : ∀ s : List ℕ, (∀ c ∈ s, isIdent c = true) → isValidEscape s = false := by
    intro s hs
    cases s with
    | nil => rfl
    | cons c s =>
      have hc : c ≠ '\\'.toNat := by
        rintro rfl
        exact absurd (hs _ List.mem_cons_self) (by decide)
      unfold isValidEscape
      rw [List.head?_cons, Bool.and_eq_false_iff]
      exact .inl (by simpa using hc)
  cases name with
  | nil => cases hstart
  | cons c name =>
    obtain ⟨hc, hname⟩ := List.forall_mem_cons.mp h
    obtain ⟨-, hcstart, hchyphen⟩ := filtered_of_isIdent hc
    rw [startsIdent, hescape _ h, hescape _ hname, Bool.or_false, Bool.or_false] at hstart
    rw [List.map_cons, startsIdent]
    by_cases hhyphen : c = '-'.toNat
    · rw [if_pos hhyphen] at hstart
      rw [if_pos (hchyphen.mpr hhyphen)]
      cases name with
      | nil => cases hstart
      | cons d name =>
        obtain ⟨-, hdstart, hdhyphen⟩ := filtered_of_isIdent (hname d List.mem_cons_self)
        rw [List.head?_cons, Option.any_some, Bool.or_eq_true, beq_iff_eq] at hstart
        rw [List.map_cons, List.head?_cons, Option.any_some, hdstart, Bool.or_eq_true,
          Bool.or_eq_true, beq_iff_eq, hdhyphen]
        exact .inl hstart
    · rw [if_neg hhyphen] at hstart
      rw [if_neg fun h => hhyphen (hchyphen.mp h), hcstart, hstart, Bool.true_or]

theorem parse_identifier {id : List ℕ} (hid : isCssIdentifier id = true) :
    parse (codePoints "#" ++ id) = some (.id (id.map filtered)) := by
  obtain ⟨hstart, hall⟩ := cssIdentifier_spec hid
  have hmap : ∀ c ∈ id.map filtered, isIdent c = true := by
    intro c hc
    obtain ⟨d, hd, rfl⟩ := List.mem_map.mp hc
    exact (filtered_of_isIdent (hall d hd)).1
  have hnl : newline ∉ codePoints "#" ++ id := by
    intro h
    rcases List.mem_append.mp h with h | h
    · exact absurd h (by decide)
    · exact absurd (hall _ h) (by decide)
  have hstart' := startsIdent_map_filtered hall hstart
  have hhead : (id.map filtered).head?.any isIdent = true := by
    cases id with
    | nil => cases hstart
    | cons c id => exact hmap (filtered c) List.mem_cons_self
  have htoken : consumeToken '#'.toNat (id.map filtered) =
      (.hash true (id.map filtered), []) := by
    rw [consumeToken, if_neg (by decide), if_neg (by decide), if_pos rfl, hhead, Bool.true_or,
      if_pos rfl, consumeIdent_plain hmap _ _ (Nat.lt_succ_self _), List.nil_append, hstart']
  unfold parse tokenize
  rw [preprocess_eq_map hnl]
  show select (tokens ((id.map filtered).length + 1) ('#'.toNat :: id.map filtered)) = _
  rw [tokens, htoken, tokens_nil]
  rfl

/-- The tokens of an attribute selector up to its string. -/
theorem tokens_attribute (fuel : ℕ) (text : List ℕ) :
    tokens (fuel + 4) (codePoints "[id=\"" ++ text) =
      .delim '['.toNat :: .ident (codePoints "id") :: .delim '='.toNat ::
        (consumeToken '"'.toNat text).1 :: tokens fuel (consumeToken '"'.toNat text).2 :=
  rfl

theorem select_badString (a b : ℕ) (name : List ℕ) (rest : List Token) :
    select (.delim a :: .ident name :: .delim b :: .badString :: rest) = none := by
  cases rest with
  | nil => rfl
  | cons d rest => cases rest <;> rfl

theorem length_le_escaped (id : List ℕ) : id.length ≤ (escaped id).length := by
  rw [escaped_eq]
  induction id with
  | nil => exact Nat.le_refl _
  | cons c id ih =>
    have hc : 1 ≤ (quote c).length := by
      unfold quote
      split_ifs <;> exact Nat.succ_pos _
    rw [List.flatMap_cons, List.length_append, List.length_cons]
    omega

theorem parse_attribute (id : List ℕ) :
    parse (codePoints "[id=\"" ++ escaped id ++ codePoints "\"]") =
      if 0xC ∈ id ∨ 0xD ∈ id then none
      else some (.attribute (codePoints "id") (id.map filtered)) := by
  have hnl : newline ∉ codePoints "[id=\"" ++ escaped id ++ codePoints "\"]" := by
    intro h
    rcases List.mem_append.mp h with h | h
    · rcases List.mem_append.mp h with h | h
      · exact absurd h (by decide)
      · exact newline_notMem_escaped id h
    · exact absurd h (by decide)
  unfold parse tokenize
  rw [preprocess_eq_map hnl, List.map_append, List.map_append, List.append_assoc]
  obtain ⟨text, htext⟩ : ∃ t, (escaped id).map filtered ++ (codePoints "\"]").map filtered = t :=
    ⟨_, rfl⟩
  have hlong : id.length < text.length + 1 := by
    have hle := length_le_escaped id
    rw [← htext, List.length_append, List.length_map]
    omega
  rw [htext]
  have hquoted : (codePoints "[id=\"").map filtered = codePoints "[id=\"" := by decide
  rw [hquoted]
  have hlen : (codePoints "[id=\"" ++ text).length = text.length + 1 + 4 := by
    rw [List.length_append]
    exact Nat.add_comm 5 _
  rw [hlen, tokens_attribute]
  split
  case isTrue hbreak =>
    have hstring := consumeString_broken hbreak (codePoints "\"]") (text.length + 1) [] hlong
    have hbad : (consumeToken '"'.toNat text).1 = .badString := by
      rw [consumeToken, if_neg (by decide), if_pos (by decide)]
      show Option.elim (consumeString '"'.toNat (text.length + 1) [] text).1 _ _ = _
      rw [← htext, escaped_eq]
      rw [← htext, escaped_eq] at hstring
      exact congrArg (Option.elim · Token.badString Token.string) hstring
    rw [hbad, select_badString]
  case isFalse hbreak =>
    rw [not_or] at hbreak
    have hstring := consumeString_quoted hbreak.1 hbreak.2 [']'.toNat] (text.length + 1) [] hlong
    have htoken : consumeToken '"'.toNat text = (.string (id.map filtered), [']'.toNat]) := by
      have hread : consumeString '"'.toNat (text.length + 1) [] text =
          (some (id.map filtered), [']'.toNat]) := by
        rw [← escaped_eq] at hstring
        exact (congrArg _ htext.symm).trans hstring
      rw [consumeToken, if_neg (by decide), if_pos (by decide), hread]
      rfl
    rw [htoken]
    show select (_ :: _ :: _ :: _ :: .delim ']'.toNat :: tokens text.length []) = _
    rw [tokens_nil]
    rfl

/-- **What a browser makes of the selector.** -/
theorem parse_cssIdSelector (id : List ℕ) :
    parse (cssIdSelector id) =
      if 0xC ∈ id ∨ 0xD ∈ id then none
      else if isCssIdentifier id = true then some (.id (id.map filtered))
      else some (.attribute (codePoints "id") (id.map filtered)) := by
  unfold cssIdSelector
  by_cases hid : isCssIdentifier id = true
  · have hall := (cssIdentifier_spec hid).2
    have hbreak : ¬ (0xC ∈ id ∨ 0xD ∈ id) := by
      rintro (h | h)
      · exact absurd (hall _ h) (by decide)
      · exact absurd (hall _ h) (by decide)
    rw [if_pos hid, if_neg hbreak, if_pos hid, parse_identifier hid]
  · rw [if_neg hid, if_neg hid, parse_attribute]

/-! ### The selector denotes the id -/

/-- The selector is a valid one, and it matches exactly the elements with the id. -/
def Denotes (css id : List ℕ) : Prop :=
  ∃ selector, parse css = some selector ∧
    ∀ element : Element, selector.Matches element ↔ element (codePoints "id") = some id

theorem map_filtered_eq_iff {id : List ℕ} : id.map filtered = id ↔ ∀ c ∈ id, Kept c := by
  have hmap : id.map filtered = id.map (fun c => c) ↔ ∀ c ∈ id, filtered c = c :=
    List.map_inj_left
  rw [List.map_id'] at hmap
  rw [hmap]
  exact ⟨fun h c hc => kept_of_filtered_eq (h c hc), fun h c hc => filtered_of_kept (h c hc)⟩

theorem denotes_iff (id : List ℕ) : Denotes (cssIdSelector id) id ↔ ∀ c ∈ id, Kept c := by
  unfold Denotes
  rw [parse_cssIdSelector]
  by_cases hbreak : 0xC ∈ id ∨ 0xD ∈ id
  · rw [if_pos hbreak]
    refine iff_of_false (fun ⟨_, h, _⟩ => absurd h.symm (Option.some_ne_none _)) fun h => ?_
    rcases hbreak with hc | hc
    · exact (h _ hc).2.1 rfl
    · exact (h _ hc).2.2.1 rfl
  rw [if_neg hbreak, ← map_filtered_eq_iff]
  constructor
  · -- the element whose id is what the selector names
    rintro ⟨selector, hselector, hmatches⟩
    have hself : selector.Matches fun _ => some (id.map filtered) := by
      split_ifs at hselector
      · obtain rfl := Option.some.inj hselector
        exact rfl
      · obtain rfl := Option.some.inj hselector
        exact rfl
    exact Option.some.inj ((hmatches _).mp hself)
  · intro h
    rw [h]
    split_ifs
    · exact ⟨_, rfl, fun _ => Iff.rfl⟩
    · exact ⟨_, rfl, fun _ => Iff.rfl⟩

/-- **CSS id selectors denote the id** of exactly the ids without a NUL, form feed, carriage return
    or lone surrogate; the way back from the attribute form always works. -/
theorem cssIdSelector_denotes_iff (id : List ℕ) :
    (Denotes (cssIdSelector id) id ∧
      (isCssIdentifier id = false → idOfAttributeSelector (cssIdSelector id) = some id)) ↔
        ∀ c ∈ id, Kept c := by
  rw [denotes_iff]
  exact and_iff_left idOfAttributeSelector_cssIdSelector

/-- `a\rb`: a browser reads no selector at all. -/
theorem cssIdSelector_carriageReturn :
    ¬ Denotes (cssIdSelector ['a'.toNat, 0xD, 'b'.toNat]) ['a'.toNat, 0xD, 'b'.toNat] := by
  rintro ⟨selector, hselector, -⟩
  have hnone : parse (cssIdSelector ['a'.toNat, 0xD, 'b'.toNat]) = none := by decide +kernel
  rw [hnone] at hselector
  cases hselector

end Tapsmith.Webview
