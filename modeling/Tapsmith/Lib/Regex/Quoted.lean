import Mathlib.Data.List.Forall2
import Tapsmith.Lib.Regex
import Tapsmith.Lib.Text

namespace Lib.Regex.Quoted

/-!
# Patterns with quoted text

A fragment of the patterns of `java.util.regex`: characters, quotations between `\Q` and `\E`,
escapes, classes of characters, the dot, `*` and `+`.

* `step`, `scan` — reading a pattern, one character after the other;
* `build`, `compile` — the expression it stands for, whatever the case of letters if asked to;
* `quote`, `scan_quote` — a text quoted, and that it is read back.
-/

/-! ### Reading -/

/-- A class of characters, as ranges. -/
abbrev Members := List (Char × Char)

inductive Item
  | char (c : Char)
  | members (ms : Members)
  | dot
  | star
  | plus
deriving DecidableEq

/-- Where the reader is. In a class it has the members so far, the last of which may be about to
    become a range. -/
inductive Mode
  | plain
  | escape
  | quoted
  | quotedEscape
  | members (ms : Members) (ranged : Bool)
  | memberEscape (ms : Members) (ranged : Bool)
  | memberHex (ms : Members) (ranged : Bool) (digits : List Char)
deriving DecidableEq

/-- One more member, or the end of the range that the last member begins. -/
def addMember (ms : Members) (ranged : Bool) (c : Char) : Members :=
  if ranged then ms.dropLast ++ ms.getLast?.toList.map fun m => (m.1, c) else ms ++ [(c, c)]

def controlEscape (c : Char) : Option Char :=
  if c = 't' then some '\t' else if c = 'n' then some '\n'
  else if c = 'f' then some (Char.ofNat 12) else if c = 'r' then some '\r' else none

def step : Mode → Char → Option (Mode × List Item)
  | .plain, c =>
    if c = '\\' then some (.escape, [])
    else if c = '[' then some (.members [] false, [])
    else if c = '*' then some (.plain, [.star])
    else if c = '+' then some (.plain, [.plus])
    else if c = '.' then some (.plain, [.dot])
    else if c ∈ syntaxCharacters then none
    else some (.plain, [.char c])
  | .escape, c =>
    if c = 'Q' then some (.quoted, [])
    else if c.isAlphanum then none
    else some (.plain, [.char c])
  | .quoted, c => if c = '\\' then some (.quotedEscape, []) else some (.quoted, [.char c])
  | .quotedEscape, c =>
    if c = 'E' then some (.plain, [])
    else if c = '\\' then some (.quotedEscape, [.char '\\'])
    else some (.quoted, [.char '\\', .char c])
  | .members ms ranged, c =>
    if c = ']' then some (.plain, [.members ms])
    else if c = '\\' then some (.memberEscape ms ranged, [])
    else if c = '-' then some (.members ms true, [])
    else some (.members (addMember ms ranged c) false, [])
  | .memberEscape ms ranged, c =>
    if c = 'u' then some (.memberHex ms ranged [], [])
    else (controlEscape c).map fun c => (.members (addMember ms ranged c) false, [])
  | .memberHex ms ranged digits, c =>
    if digits.length = 3 then
      (Text.digitsValue 16 0 (digits ++ [c])).map fun n =>
        (.members (addMember ms ranged (Char.ofNat n)) false, [])
    else some (.memberHex ms ranged (digits ++ [c]), [])

def scan : Mode → List Char → Option (Mode × List Item)
  | mode, [] => some (mode, [])
  | mode, c :: s =>
    (step mode c).bind fun first => (scan first.1 s).map fun rest => (rest.1, first.2 ++ rest.2)

theorem scan_append {mode mode' : Mode} {s t : List Char} {items : List Item}
    (h : scan mode s = some (mode', items)) :
    scan mode (s ++ t) = (scan mode' t).map fun rest => (rest.1, items ++ rest.2) := by
  induction s generalizing mode items with
  | nil =>
    obtain ⟨rfl, rfl⟩ := Prod.mk.inj (Option.some.inj h)
    show scan mode t = _
    cases scan mode t <;> rfl
  | cons c s ih =>
    obtain ⟨first, hstep, hrest⟩ := Option.bind_eq_some_iff.mp h
    obtain ⟨rest, hscan, hitems⟩ := Option.map_eq_some_iff.mp hrest
    obtain ⟨rfl, rfl⟩ := Prod.mk.inj hitems
    rw [List.cons_append, scan, hstep, Option.bind_some, ih hscan, Option.map_map]
    congr 1
    funext r
    exact Prod.ext rfl (List.append_assoc ..).symm

/-- Two parts of a pattern that are read by themselves. -/
theorem scan_append_plain {s t : List Char} {items items' : List Item}
    (h : scan .plain s = some (.plain, items)) (h' : scan .plain t = some (.plain, items')) :
    scan .plain (s ++ t) = some (.plain, items ++ items') := by
  rw [scan_append h, h']
  rfl

/-! ### Expressions -/

/-- Whether a character matches one of the pattern. `fold` is what the engine compares in place of
    characters when it ignores case. -/
def sameChar (fold : Option (Char → Char)) (p c : Char) : Bool :=
  fold.elim (p = c) fun f => f p = f c

def memberOf (ms : Members) (c : Char) : Bool := ms.any fun m => m.1 ≤ c && c ≤ m.2

def inClass (fold : Option (Char → Char)) (ms : Members) (c : Char) : Bool :=
  memberOf ms c || fold.any fun f => memberOf ms (f c)

def lineTerminators : List Char := ['\n', '\r', '\u0085', '\u2028', '\u2029']

variable (dotAll : Bool) (fold : Option (Char → Char))

def atom : Item → Option (RegExp Char)
  | .char p => some (.set (sameChar fold p))
  | .members ms => some (.set (inClass fold ms))
  | .dot => some (.set fun c => dotAll || c ∉ lineTerminators)
  | .star | .plus => none

/-- The expressions one after the other, each with its quantifier. -/
def build : List Item → Option (RegExp Char)
  | [] => some .empty
  | i :: .star :: rest =>
    (atom dotAll fold i).bind fun r => (build rest).map fun r' => .cat (.star r) r'
  | i :: .plus :: rest =>
    (atom dotAll fold i).bind fun r => (build rest).map fun r' => .cat (.cat r (.star r)) r'
  | i :: rest => (atom dotAll fold i).bind fun r => (build rest).map fun r' => .cat r r'

/-- `Pattern.compile`: a pattern may begin with the flag with which the dot is any character. -/
def compile (source : List Char) : Option (RegExp Char) :=
  let dotAll := "(?s)".toList.isPrefixOf source
  (scan .plain (if dotAll then source.drop 4 else source)).bind fun read =>
    if read.1 = .plain then build dotAll fold read.2 else none

variable {dotAll fold}

/-- The items are read as an expression for some texts. -/
def Means (dotAll : Bool) (fold : Option (Char → Char)) (items : List Item)
    (p : List Char → Prop) : Prop :=
  ∃ r, build dotAll fold items = some r ∧ ∀ s, r.Matches s ↔ p s

/-- Nothing that repeats what is before it. -/
def NoQuantifier (items : List Item) : Prop := ∀ i ∈ items.head?, i ≠ .star ∧ i ≠ .plus

theorem noQuantifier_append {items items' : List Item} (h : NoQuantifier items)
    (h' : NoQuantifier items') : NoQuantifier (items ++ items') := by
  cases items with
  | nil => exact h'
  | cons i items => exact h

theorem noQuantifier_text (w : List Char) : NoQuantifier (w.map .char) := by
  intro i hi
  cases w with
  | nil => cases hi
  | cons c w =>
    obtain rfl := Option.some.inj hi
    exact ⟨fun h => (by cases h), fun h => (by cases h)⟩

theorem noQuantifier_members (ms : Members) (items : List Item) :
    NoQuantifier (.members ms :: items) := by
  intro i hi
  obtain rfl := Option.some.inj hi
  exact ⟨fun h => (by cases h), fun h => (by cases h)⟩

theorem build_cons {i : Item} {items : List Item} (h : NoQuantifier items) :
    build dotAll fold (i :: items) =
      (atom dotAll fold i).bind fun r => (build dotAll fold items).map fun r' => .cat r r' := by
  cases items with
  | nil => rfl
  | cons j items =>
    obtain ⟨hstar, hplus⟩ := h j rfl
    rw [build]
    · exact fun rest heq => hstar (List.cons.inj heq).1
    · exact fun rest heq => hplus (List.cons.inj heq).1

/-- The texts of two parts of a pattern. -/
def Joined (p p' : List Char → Prop) (s : List Char) : Prop := ∃ u v, s = u ++ v ∧ p u ∧ p' v

theorem joined_assoc {p p' p'' : List Char → Prop} {s : List Char} :
    Joined (Joined p p') p'' s ↔ Joined p (Joined p' p'') s := by
  constructor
  · rintro ⟨-, w, rfl, ⟨u, v, rfl, hu, hv⟩, hw⟩
    exact ⟨u, v ++ w, List.append_assoc .., hu, v, w, rfl, hv, hw⟩
  · rintro ⟨u, -, rfl, hu, v, w, rfl, hv, hw⟩
    exact ⟨u ++ v, w, (List.append_assoc ..).symm, ⟨u, v, rfl, hu, hv⟩, hw⟩

theorem Joined.congr {p p' q q' : List Char → Prop} {s : List Char} (h : ∀ u, p u ↔ q u)
    (h' : ∀ u, p' u ↔ q' u) : Joined p p' s ↔ Joined q q' s :=
  exists_congr fun u => exists_congr fun v => and_congr_right fun _ => and_congr (h u) (h' v)

/-- The expression of what comes first, before that of two parts. -/
theorem means_cat {items : List Item} {x r r₀ : RegExp Char} {p p' : List Char → Prop}
    (hr : some (RegExp.cat x r₀) = some r) (hp : ∀ s, r.Matches s ↔ p s)
    (h : ∃ q, build dotAll fold items = some q ∧ ∀ s, q.Matches s ↔ Joined r₀.Matches p' s) :
    ∃ q, (build dotAll fold items).map (fun q => RegExp.cat x q) = some q ∧
      ∀ s, q.Matches s ↔ Joined p p' s := by
  obtain ⟨q, hq, hmatches⟩ := h
  obtain rfl := Option.some.inj hr
  refine ⟨RegExp.cat x q, by rw [hq]; rfl, fun s => ?_⟩
  calc (RegExp.cat x q).Matches s ↔ Joined x.Matches (Joined r₀.Matches p') s :=
        Joined.congr (fun _ => Iff.rfl) hmatches
    _ ↔ Joined (Joined x.Matches r₀.Matches) p' s := joined_assoc.symm
    _ ↔ Joined p p' s := Joined.congr hp fun _ => Iff.rfl

/-- Two parts of a pattern, of which the second does not begin with a quantifier. -/
theorem Means.append {items items' : List Item} {p p' : List Char → Prop}
    (h : Means dotAll fold items p) (h' : Means dotAll fold items' p')
    (hquantifier : NoQuantifier items') :
    Means dotAll fold (items ++ items') (Joined p p') := by
  obtain ⟨r', hr', hp'⟩ := h'
  induction items using build.induct generalizing p with
  | case1 =>
    obtain ⟨r, hr, hp⟩ := h
    obtain rfl := Option.some.inj hr
    refine ⟨r', hr', fun s => (hp' s).trans ?_⟩
    constructor
    · exact fun hs => ⟨[], s, rfl, (hp []).mp rfl, hs⟩
    · rintro ⟨u, v, rfl, hu, hv⟩
      obtain rfl : u = [] := (hp u).mpr hu
      exact hv
  | case2 i rest ih =>
    obtain ⟨r, hr, hp⟩ := h
    obtain ⟨a, ha, hmap⟩ := Option.bind_eq_some_iff.mp hr
    obtain ⟨r₀, hr₀, heq⟩ := Option.map_eq_some_iff.mp hmap
    show ∃ q, (atom dotAll fold i).bind _ = some q ∧ _
    rw [ha, Option.bind_some]
    exact means_cat (congrArg some heq) hp (ih ⟨r₀, hr₀, fun _ => Iff.rfl⟩)
  | case3 i rest ih =>
    obtain ⟨r, hr, hp⟩ := h
    obtain ⟨a, ha, hmap⟩ := Option.bind_eq_some_iff.mp hr
    obtain ⟨r₀, hr₀, heq⟩ := Option.map_eq_some_iff.mp hmap
    show ∃ q, (atom dotAll fold i).bind _ = some q ∧ _
    rw [ha, Option.bind_some]
    exact means_cat (congrArg some heq) hp (ih ⟨r₀, hr₀, fun _ => Iff.rfl⟩)
  | case4 i rest hstar hplus ih =>
    have hrest : NoQuantifier rest := by
      intro j hj
      cases rest with
      | nil => cases hj
      | cons k rest =>
        obtain rfl := Option.some.inj hj
        exact ⟨fun heq => hstar rest (by rw [heq]), fun heq => hplus rest (by rw [heq])⟩
    have hboth := noQuantifier_append hrest hquantifier
    obtain ⟨r, hr, hp⟩ := h
    rw [build_cons hrest] at hr
    obtain ⟨a, ha, hmap⟩ := Option.bind_eq_some_iff.mp hr
    obtain ⟨r₀, hr₀, heq⟩ := Option.map_eq_some_iff.mp hmap
    unfold Means
    rw [List.cons_append, build_cons hboth, ha, Option.bind_some]
    exact means_cat (congrArg some heq) hp (ih ⟨r₀, hr₀, fun _ => Iff.rfl⟩)

theorem Means.congr {items : List Item} {p p' : List Char → Prop} (h : Means dotAll fold items p)
    (hp : ∀ s, p s ↔ p' s) : Means dotAll fold items p' := by
  obtain ⟨r, hr, hr'⟩ := h
  exact ⟨r, hr, fun s => (hr' s).trans (hp s)⟩

theorem means_nil : Means dotAll fold [] (· = []) := ⟨.empty, rfl, fun _ => Iff.rfl⟩

/-! ### Parts of a pattern -/

theorem means_char (p : Char) :
    Means dotAll fold [.char p] fun s => ∃ c, s = [c] ∧ sameChar fold p c = true := by
  refine ⟨_, rfl, fun s => ?_⟩
  constructor
  · rintro ⟨u, v, rfl, ⟨c, rfl, hc⟩, rfl⟩
    exact ⟨c, rfl, hc⟩
  · rintro ⟨c, rfl, hc⟩
    exact ⟨[c], [], rfl, ⟨c, rfl, hc⟩, rfl⟩

/-- A quotation. -/
theorem means_text (w : List Char) : Means dotAll fold (w.map .char)
    (List.Forall₂ (fun p c => sameChar fold p c = true) w) := by
  induction w with
  | nil => exact means_nil.congr fun s => List.forall₂_nil_left_iff.symm
  | cons p w ih =>
    refine ((means_char p).append ih (noQuantifier_text w)).congr fun s => ?_
    rw [List.forall₂_cons_left_iff]
    constructor
    · rintro ⟨-, v, rfl, ⟨c, rfl, hc⟩, hv⟩
      exact ⟨c, v, hc, hv, rfl⟩
    · rintro ⟨c, v, hc, hv, rfl⟩
      exact ⟨[c], v, rfl, ⟨c, rfl, hc⟩, hv⟩

theorem means_members_star (ms : Members) : Means dotAll fold [.members ms, .star]
    fun s => ∀ c ∈ s, inClass fold ms c = true := by
  refine ⟨_, rfl, fun s => ?_⟩
  refine Iff.trans ?_ RegExp.matches_star_set
  constructor
  · rintro ⟨u, v, rfl, hu, rfl⟩
    rw [List.append_nil]
    exact hu
  · exact fun hs => ⟨s, [], (List.append_nil s).symm, hs, rfl⟩

theorem means_members_plus (ms : Members) : Means dotAll fold [.members ms, .plus]
    fun s => s ≠ [] ∧ ∀ c ∈ s, inClass fold ms c = true := by
  refine ⟨_, rfl, fun s => ?_⟩
  constructor
  · rintro ⟨-, -, rfl, ⟨-, v, rfl, ⟨c, rfl, hc⟩, hv⟩, rfl⟩
    rw [List.append_nil, List.singleton_append]
    refine ⟨List.cons_ne_nil _ _, fun d hd => ?_⟩
    rcases List.mem_cons.mp hd with rfl | hd
    · exact hc
    · exact RegExp.matches_star_set.mp hv d hd
  · rintro ⟨hne, hall⟩
    obtain ⟨c, v, rfl⟩ := List.exists_cons_of_ne_nil hne
    refine ⟨c :: v, [], (List.append_nil _).symm, ⟨[c], v, rfl, ⟨c, rfl, ?_⟩, ?_⟩, rfl⟩
    · exact hall c List.mem_cons_self
    · exact RegExp.matches_star_set.mpr fun d hd => hall d (List.mem_cons_of_mem _ hd)

/-- Any text, when the dot is any character. -/
theorem means_dots : Means true fold [.dot, .star] fun _ => True := by
  refine ⟨_, rfl, fun s => ?_⟩
  refine iff_of_true ⟨s, [], (List.append_nil s).symm, ?_, rfl⟩ trivial
  exact RegExp.matches_star_set.mpr fun c _ => rfl

/-! ### Quotations -/

/-- A text with every `\E` in it taken out of the quotation. -/
def quoteBody : List Char → List Char
  | [] => []
  | '\\' :: 'E' :: s => ['\\', 'E', '\\', '\\', 'E', '\\', 'Q'] ++ quoteBody s
  | c :: s => c :: quoteBody s

/-- `Pattern.quote` -/
def quote (s : List Char) : List Char := ['\\', 'Q'] ++ quoteBody s ++ ['\\', 'E']

/-- A backslash in a quotation that does not end it. -/
theorem scan_quotedEscape {c : Char} (hc : c ≠ 'E') (s : List Char) :
    scan .quotedEscape (c :: s) =
      (scan .quoted (c :: s)).map fun rest => (rest.1, .char '\\' :: rest.2) := by
  unfold scan
  by_cases hslash : c = '\\'
  · subst hslash
    show ((scan .quotedEscape s).map _) = ((scan .quotedEscape s).map _).map _
    rw [Option.map_map]
    rfl
  · have hescape : step .quotedEscape c = some (.quoted, [.char '\\', .char c]) :=
      (if_neg hc).trans (if_neg hslash)
    have hquoted : step .quoted c = some (.quoted, [.char c]) := if_neg hslash
    rw [hescape, hquoted, Option.bind_some, Option.bind_some, Option.map_map]
    rfl

theorem quoteBody_cons (c : Char) (s : List Char) : ∃ t, quoteBody (c :: s) = c :: t := by
  by_cases hend : ∃ s', c = '\\' ∧ s = 'E' :: s'
  · obtain ⟨s', rfl, rfl⟩ := hend
    exact ⟨_, rfl⟩
  · rw [quoteBody]
    · exact ⟨_, rfl⟩
    · exact fun s' hc hs => hend ⟨s', hc, hs⟩

theorem scan_quoteBody (s : List Char) :
    scan .quoted (quoteBody s ++ ['\\', 'E']) = some (.plain, s.map .char) := by
  induction s using quoteBody.induct with
  | case1 => rfl
  | case2 s ih =>
    have hend : scan .quoted ['\\', 'E', '\\', '\\', 'E', '\\', 'Q'] =
        some (.quoted, [.char '\\', .char 'E']) := rfl
    rw [quoteBody, List.append_assoc, scan_append hend, ih]
    rfl
  | case3 c s hne ih =>
    rw [quoteBody, List.cons_append]
    · by_cases hslash : c = '\\'
      · subst hslash
        -- what follows does not end the quotation
        obtain ⟨d, t, hd, ht⟩ : ∃ d t, d ≠ 'E' ∧ quoteBody s ++ ['\\', 'E'] = d :: t := by
          cases s with
          | nil => exact ⟨'\\', ['E'], by decide, rfl⟩
          | cons d s =>
            have hd : d ≠ 'E' := fun heq => hne s rfl (by rw [heq])
            obtain ⟨t, ht⟩ := quoteBody_cons d s
            exact ⟨d, t ++ ['\\', 'E'], hd, by rw [ht, List.cons_append]⟩
        show ((scan .quotedEscape (quoteBody s ++ ['\\', 'E'])).map _) = _
        rw [ht, scan_quotedEscape hd, ← ht, ih]
        rfl
      · rw [scan, show step .quoted c = some (.quoted, [.char c]) from if_neg hslash,
          Option.bind_some, ih]
        rfl
    · exact hne

/-- **A quotation** is read as the text. -/
theorem scan_quote (s : List Char) : scan .plain (quote s) = some (.plain, s.map .char) := by
  have hopen : scan .plain ['\\', 'Q'] = some (.quoted, []) := rfl
  rw [quote, List.append_assoc, scan_append hopen, scan_quoteBody]
  rfl

end Lib.Regex.Quoted
