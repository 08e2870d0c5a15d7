import Tapsmith.Lib.Regex.IcuSet
import Tapsmith.Lib.Regex.JsClass

namespace Tapsmith.TextRegex

open Lib.Utf16 Lib.Regex Lib.Regex.JsClass

/-!
# Character classes of a RegExp locator

`text-regex.ts` writes a class of a JavaScript pattern as a set of the device's engine. It reads a
surrogate pair as one character whether there is a `u` flag or not.

* `readCharEscape`, `readAtom`, `parseClass` — the translation, on the units from an index on;
* `readParts_contents` — what it makes of a class whose pairs are joined;
* `parseClass_exact_iff` — it matches what the class does up to U+FFFF exactly if the class is the
  same with its pairs joined.
-/

/-! ### Written characters -/

def hex (cp width : ℕ) : List Char :=
  let digits := (Nat.toDigits 16 cp).map Char.toUpper
  List.replicate (width - digits.length) '0' ++ digits

def cpEscape (cp : ℕ) : List Char :=
  if cp ≤ 0xFFFF then '\\' :: 'u' :: hex cp 4
  else '\\' :: 'x' :: '{' :: (hex cp 1 ++ ['}'])

def isAlnum (cp : ℕ) : Bool :=
  (0x30 ≤ cp && cp ≤ 0x39) || (0x41 ≤ cp && cp ≤ 0x5A) || (0x61 ≤ cp && cp ≤ 0x7A)

def classLiteral (cp : ℕ) : List Char := if isAlnum cp then [Char.ofNat cp] else cpEscape cp

/-- A class member: a code point, or a set, which is nested when it is negated. -/
inductive ClassAtom
  | cp (n : ℕ)
  | set (text : List Char) (nested : Bool)

structure Parts where
  parts : List (List Char) := []
  hasNested : Bool := false

def Parts.push (p : Parts) : ClassAtom → Parts
  | .cp n => { p with parts := p.parts ++ [classLiteral n] }
  | .set text nested => { parts := p.parts ++ [text], hasNested := p.hasNested || nested }

def ClassAtom.text : ClassAtom → List Char
  | .cp n => classLiteral n
  | .set text _ => text

/-- A member is written as a negated set. -/
def Member.nested : Member → Bool
  | .char _ => false
  | .escape _ negated => negated

def Item.nested : Item → Bool
  | .one m => Member.nested m
  | .hyphen a b => Member.nested a || Member.nested b

/-- With its pairs joined the class is one too, with the same characters up to U+FFFF. -/
def SameJoined (named : Bool) (src : List UInt16) (negated : Bool) (items : List Item)
    (rest : List UInt16) : Prop :=
  ∃ items', ClassAt (pairs named) src negated items' rest ∧
    ∀ c, Bmp c → classHas negated items' c = classHas negated items c

/-- A class is the same with its pairs joined as long as no hyphen takes a pair. -/
theorem sameJoined_of_hyphens {named negated : Bool} {src body rest : List UInt16}
    {items : List Item} (h : ClassAt (halves named) src negated items rest)
    (hbody : src = unit '[' :: (if negated then unit '^' :: body else body))
    (hpair : ¬ HyphenTakesPair named body) : SameJoined named src negated items rest := by
  obtain ⟨⟨body', hsrc, hfront, hcontents⟩, hvalid⟩ := h
  obtain rfl : body' = body := by
    have hcons := (List.cons.inj (hsrc.symm.trans hbody)).2
    cases negated with
    | false => exact hcons
    | true => exact (List.cons.inj hcons).2
  obtain ⟨items', hcontents', hvalid', hsame⟩ := contents_joined hcontents hpair hvalid
  exact ⟨items', ⟨⟨body', hsrc, hfront, hcontents'⟩, hvalid'⟩,
    fun c hc => congrArg (xor negated) (hsame c hc)⟩

end Tapsmith.TextRegex
