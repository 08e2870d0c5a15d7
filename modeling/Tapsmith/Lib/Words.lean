import Mathlib.Data.List.DropRight
import Mathlib.Data.List.Forall2
import Mathlib.Data.List.Infix

namespace Lib.Words

/-!
# Words and the gaps between them

Texts whose units are of two kinds: those of words, and those of the gaps between words. A gap of
any length counts as much as a single separator.

* `collapse`, `normalize` — every gap is one separator, and there is none at the ends;
* `Run` — some words with gaps between them, at the front of a text;
* `collapse_run`, `run_of_collapse` — they are in a text as they are in the collapsed text;
* `normalize_eq_iff`, `infix_normalize_iff` — a whole text of these words, and one that has them.
-/

variable {α : Type} (gap : α → Bool) (sep : α)

/-- Every run of gap units becomes one separator. -/
def collapse : List α → List α
  | [] => []
  | c :: s =>
    if gap c then (if s.head?.any gap then collapse s else sep :: collapse s)
    else c :: collapse s

/-- The separators at the ends are left out. -/
def trim [DecidableEq α] (s : List α) : List α :=
  (s.dropWhile (· = sep)).rdropWhile (· = sep)

def normalize [DecidableEq α] (s : List α) : List α := trim sep (collapse gap sep s)

/-- Units like those of the words at the front of a text, with gaps between the words. -/
def Run (same : α → α → Prop) : List (List α) → List α → List α → Prop
  | [], t, rest => t = rest
  | [w], t, rest => ∃ w', List.Forall₂ same w w' ∧ t = w' ++ rest
  | w :: w₂ :: words, t, rest => ∃ w' between t', List.Forall₂ same w w' ∧ between ≠ [] ∧
      (∀ c ∈ between, gap c = true) ∧ t = w' ++ (between ++ t') ∧ Run same (w₂ :: words) t' rest

/-- A word is not empty and has no gap in it. -/
def Word (w : List α) : Prop := w ≠ [] ∧ ∀ c ∈ w, gap c = false

variable {gap sep} {s t u v w rest : List α} {words : List (List α)}

/-! ### Collapsing -/

theorem head?_collapse (hsep : gap sep = true) (s : List α) :
    (collapse gap sep s).head?.any gap = s.head?.any gap := by
  induction s with
  | nil => rfl
  | cons c s ih =>
    unfold collapse
    split_ifs with hc hs
    · rw [ih, hs]
      exact hc.symm
    · exact hsep.trans hc.symm
    · rfl

theorem collapse_cons_of_not {c : α} (hc : gap c = false) :
    collapse gap sep (c :: s) = c :: collapse gap sep s := by
  rw [collapse, hc, if_neg Bool.false_ne_true]

theorem collapse_append (hw : ∀ c ∈ w, gap c = false) :
    collapse gap sep (w ++ t) = w ++ collapse gap sep t := by
  induction w with
  | nil => rfl
  | cons c w ih =>
    rw [List.cons_append, collapse_cons_of_not (hw c List.mem_cons_self),
      ih fun a ha => hw a (List.mem_cons_of_mem _ ha), List.cons_append]

theorem collapse_gap (hu : u ≠ []) (hgap : ∀ c ∈ u, gap c = true) (ht : t.head?.any gap = false) :
    collapse gap sep (u ++ t) = sep :: collapse gap sep t := by
  induction u with
  | nil => exact absurd rfl hu
  | cons c u ih =>
    rw [List.cons_append, collapse, if_pos (hgap c List.mem_cons_self)]
    cases u with
    | nil => rw [List.nil_append, ht, if_neg Bool.false_ne_true]
    | cons d u =>
      have hd : ((d :: u ++ t).head?.any gap) = true := hgap d (by simp)
      rw [if_pos hd]
      exact ih (List.cons_ne_nil _ _) fun a ha => hgap a (List.mem_cons_of_mem _ ha)

/-- What is before a unit of a word collapses by itself. -/
theorem collapse_append_of_head (ht : t.head?.any gap = false) (s : List α) :
    collapse gap sep (s ++ t) = collapse gap sep s ++ collapse gap sep t := by
  induction s with
  | nil => rfl
  | cons c s ih =>
    have hhead : (s ++ t).head?.any gap = s.head?.any gap := by
      cases s with
      | nil => exact ht
      | cons d s => rfl
    rw [List.cons_append, collapse, collapse, ih, hhead]
    split_ifs <;> rfl

theorem collapse_all_gap : (∀ c ∈ s, gap c = true) → ∀ c ∈ collapse gap sep s, c = sep := by
  intro h
  induction s with
  | nil => exact fun c hc => absurd hc List.not_mem_nil
  | cons a s ih =>
    have hrest := ih fun c hc => h c (List.mem_cons_of_mem _ hc)
    rw [collapse, if_pos (h a List.mem_cons_self)]
    split_ifs with hs
    · exact hrest
    · intro c hc
      rcases List.mem_cons.mp hc with rfl | hc
      · rfl
      · exact hrest c hc

theorem gap_of_collapse (sep : α) (h : ∀ c ∈ collapse gap sep s, gap c = true) : ∀ c ∈ s, gap c = true := by
  induction s with
  | nil => exact fun c hc => absurd hc List.not_mem_nil
  | cons a s ih =>
    unfold collapse at h
    split_ifs at h with ha hs
    · intro c hc
      rcases List.mem_cons.mp hc with rfl | hc
      · exact ha
      · exact ih h c hc
    · intro c hc
      rcases List.mem_cons.mp hc with rfl | hc
      · exact ha
      · exact ih (fun d hd => h d (List.mem_cons_of_mem _ hd)) c hc
    · exact absurd (h a List.mem_cons_self) ha

/-- A collapsed text that is cut before a unit of a word comes from one that is. -/
theorem split_of_collapse (hsep : gap sep = true) (h : collapse gap sep s = u ++ v)
    (hv : v ≠ []) (hhead : v.head?.any gap = false) :
    ∃ u' v', s = u' ++ v' ∧ collapse gap sep u' = u ∧ collapse gap sep v' = v := by
  induction s generalizing u with
  | nil => exact absurd (List.append_eq_nil_iff.mp h.symm).2 hv
  | cons c s ih =>
    have hsame : ∀ u' v', s = u' ++ v' → collapse gap sep v' = v →
        u'.head?.any gap = s.head?.any gap := by
      rintro u' v' rfl hv'
      cases u' with
      | nil =>
        show false = v'.head?.any gap
        rw [← head?_collapse hsep, hv', hhead]
      | cons d u' => rfl
    unfold collapse at h
    split_ifs at h with hc hs
    · obtain ⟨u', v', hsplit, hu', hv'⟩ := ih h
      refine ⟨c :: u', v', by rw [hsplit, List.cons_append], ?_, hv'⟩
      rw [collapse, if_pos hc, hsame u' v' hsplit hv', if_pos hs, hu']
    · cases u with
      | nil =>
        rw [List.nil_append] at h
        rw [← h] at hhead
        exact absurd hsep (Bool.eq_false_iff.mp hhead)
      | cons d u =>
        obtain ⟨rfl, htail⟩ := List.cons.inj h
        obtain ⟨u', v', hsplit, hu', hv'⟩ := ih htail
        refine ⟨c :: u', v', by rw [hsplit, List.cons_append], ?_, hv'⟩
        rw [collapse, if_pos hc, hsame u' v' hsplit hv', if_neg hs, hu']
    · cases u with
      | nil =>
        refine ⟨[], c :: s, rfl, rfl, ?_⟩
        rw [collapse, if_neg hc]
        exact h
      | cons d u =>
        obtain ⟨rfl, htail⟩ := List.cons.inj h
        obtain ⟨u', v', hsplit, hu', hv'⟩ := ih htail
        refine ⟨c :: u', v', by rw [hsplit, List.cons_append], ?_, hv'⟩
        rw [collapse, if_neg hc, hu']

theorem prefix_of_collapse (hsep : gap sep = true) (hw : ∀ c ∈ w, gap c = false)
    (h : collapse gap sep s = w ++ t) : ∃ t', s = w ++ t' ∧ collapse gap sep t' = t := by
  induction w generalizing s with
  | nil => exact ⟨s, rfl, h⟩
  | cons c w ih =>
    have hc := hw c List.mem_cons_self
    have hhead : s.head?.any gap = false := by
      rw [← head?_collapse hsep, h]
      exact hc
    cases s with
    | nil => cases h
    | cons d s =>
      change gap d = false at hhead
      rw [collapse_cons_of_not hhead] at h
      obtain ⟨rfl, htail⟩ := List.cons.inj h
      obtain ⟨t', rfl, ht'⟩ := ih (fun a ha => hw a (List.mem_cons_of_mem _ ha)) htail
      exact ⟨t', rfl, ht'⟩

/-! ### Words at the front of a text -/

section

variable {same : α → α → Prop}

/-- What is the same as a word is one. -/
theorem word_of_same (hgap : ∀ a b, same a b → gap a = false → gap b = false) {w' : List α}
    (h : List.Forall₂ same w w') (hw : Word gap w) : Word gap w' := by
  constructor
  · rintro rfl
    exact hw.1 (List.forall₂_nil_right_iff.mp h)
  · intro c hc
    obtain ⟨a, ha, hac⟩ : ∃ a ∈ w, same a c := by
      clear hw
      induction h with
      | nil => exact absurd hc List.not_mem_nil
      | cons hab _ ih =>
        rcases List.mem_cons.mp hc with rfl | hc
        · exact ⟨_, List.mem_cons_self, hab⟩
        · obtain ⟨a, ha, hac⟩ := ih hc
          exact ⟨a, List.mem_cons_of_mem _ ha, hac⟩
    exact hgap a c hac (hw.2 a ha)

theorem exists_append_of_same {m : List α} (h : List.Forall₂ same (u ++ v) m) :
    ∃ u' v', m = u' ++ v' ∧ List.Forall₂ same u u' ∧ List.Forall₂ same v v' := by
  induction u generalizing m with
  | nil => exact ⟨[], m, rfl, .nil, h⟩
  | cons c u ih =>
    obtain ⟨c', m', hc, hrest, rfl⟩ := List.forall₂_cons_left_iff.mp h
    obtain ⟨u', v', rfl, hu, hv⟩ := ih hrest
    exact ⟨c' :: u', v', rfl, .cons hc hu, hv⟩

/-- Separated words, and what is the same, begin with a unit of a word. -/
theorem intercalate_head (hgap : ∀ a b, same a b → gap a = false → gap b = false)
    (hwords : ∀ w ∈ words, Word gap w) (hne : words ≠ []) {m : List α}
    (hm : List.Forall₂ same ([sep].intercalate words) m) :
    m ≠ [] ∧ m.head?.any gap = false := by
  obtain ⟨w, rest, rfl⟩ := List.exists_cons_of_ne_nil hne
  obtain ⟨tail, htail⟩ : ∃ tail, [sep].intercalate (w :: rest) = w ++ tail := by
    cases rest with
    | nil => exact ⟨[], by rw [List.intercalate_singleton, List.append_nil]⟩
    | cons w₂ rest => exact ⟨_, by rw [List.intercalate_cons_cons, List.append_assoc]⟩
  rw [htail] at hm
  obtain ⟨w', tail', rfl, hw', -⟩ := exists_append_of_same hm
  have hword := word_of_same hgap hw' (hwords w List.mem_cons_self)
  cases w' with
  | nil => exact absurd rfl hword.1
  | cons c w' => exact ⟨List.cons_ne_nil _ _, hword.2 c List.mem_cons_self⟩

/-- A text that begins with words begins with a unit of one. -/
theorem Run.head (hgap : ∀ a b, same a b → gap a = false → gap b = false)
    (hwords : ∀ w ∈ words, Word gap w) (hne : words ≠ []) (h : Run gap same words t rest) :
    t ≠ [] ∧ t.head?.any gap = false := by
  have hfront : ∀ w' t', Word gap w' → t = w' ++ t' → t ≠ [] ∧ t.head?.any gap = false := by
    rintro w' t' hw' rfl
    cases w' with
    | nil => exact absurd rfl hw'.1
    | cons c w' => exact ⟨List.cons_ne_nil _ _, hw'.2 c List.mem_cons_self⟩
  cases words with
  | nil => exact absurd rfl hne
  | cons w words =>
    have hw := hwords w List.mem_cons_self
    cases words with
    | nil =>
      obtain ⟨w', hsame, ht⟩ := h
      exact hfront w' rest (word_of_same hgap hsame hw) ht
    | cons w₂ words =>
      obtain ⟨w', between, t', hsame, -, -, ht, -⟩ := h
      exact hfront w' (between ++ t') (word_of_same hgap hsame hw) ht

/-- What comes after the words is none of their business. -/
theorem run_iff_append : Run gap same words t rest ↔
    ∃ m, t = m ++ rest ∧ Run gap same words m [] := by
  induction words generalizing t with
  | nil => exact ⟨fun h => ⟨[], h, rfl⟩, fun ⟨m, ht, hm⟩ => ht.trans (congrArg (· ++ rest) hm)⟩
  | cons w words ih =>
    cases words with
    | nil =>
      constructor
      · rintro ⟨w', hw', rfl⟩
        exact ⟨w', rfl, w', hw', (List.append_nil w').symm⟩
      · rintro ⟨m, rfl, w', hw', rfl⟩
        exact ⟨w', hw', by rw [List.append_nil]⟩
    | cons w₂ words =>
      constructor
      · rintro ⟨w', between, t', hw', hne, hbetween, rfl, hrest⟩
        obtain ⟨m, rfl, hm⟩ := ih.mp hrest
        exact ⟨w' ++ (between ++ m), by simp, w', between, m, hw', hne, hbetween, rfl, hm⟩
      · rintro ⟨m, rfl, w', between, t', hw', hne, hbetween, rfl, hrest⟩
        exact ⟨w', between, t' ++ rest, hw', hne, hbetween, by simp, ih.mpr ⟨t', rfl, hrest⟩⟩

/-- Only what is the same as a unit of the words, among the units of the text, matters. -/
theorem Run.imp {same' : α → α → Prop}
    (h : ∀ w ∈ words, ∀ a ∈ w, ∀ b ∈ t, same a b → same' a b) (hrun : Run gap same words t rest) :
    Run gap same' words t rest := by
  have hword : ∀ (w w' : List α), (∀ a ∈ w, ∀ b ∈ w', same a b → same' a b) →
      List.Forall₂ same w w' → List.Forall₂ same' w w' := by
    intro w w' hall hw
    induction hw with
    | nil => exact .nil
    | cons hab _ ih =>
      refine .cons (hall _ List.mem_cons_self _ List.mem_cons_self hab) (ih fun a ha b hb => ?_)
      exact hall a (List.mem_cons_of_mem _ ha) b (List.mem_cons_of_mem _ hb)
  induction words generalizing t with
  | nil => exact hrun
  | cons w words ih =>
    cases words with
    | nil =>
      obtain ⟨w', hw', rfl⟩ := hrun
      refine ⟨w', hword w w' (fun a ha b hb => ?_) hw', rfl⟩
      exact h w List.mem_cons_self a ha b (List.mem_append_left _ hb)
    | cons w₂ words =>
      obtain ⟨w', between, t', hw', hne, hbetween, rfl, hrest⟩ := hrun
      refine ⟨w', between, t', hword w w' (fun a ha b hb => ?_) hw', hne, hbetween, rfl,
        ih (fun u hu a ha b hb => ?_) hrest⟩
      · exact h w List.mem_cons_self a ha b (List.mem_append_left _ hb)
      · exact h u (List.mem_cons_of_mem _ hu) a ha b
          (List.mem_append_right _ (List.mem_append_right _ hb))

/-- **Words in a text** are in the collapsed text, with one separator between them. -/
theorem collapse_run (hgap : ∀ a b, same a b → gap a = false → gap b = false)
    (hsame : same sep sep) (hwords : ∀ w ∈ words, Word gap w) (h : Run gap same words t rest) :
    ∃ m, List.Forall₂ same ([sep].intercalate words) m ∧
      collapse gap sep t = m ++ collapse gap sep rest := by
  induction words generalizing t with
  | nil =>
    obtain rfl : t = rest := h
    exact ⟨[], .nil, rfl⟩
  | cons w words ih =>
    have hw := hwords w List.mem_cons_self
    cases words with
    | nil =>
      obtain ⟨w', hw', rfl⟩ := h
      rw [List.intercalate_singleton]
      exact ⟨w', hw', collapse_append (word_of_same hgap hw' hw).2⟩
    | cons w₂ words =>
      obtain ⟨w', between, t', hw', hne, hbetween, rfl, hrest⟩ := h
      have htail := fun w hw => hwords w (List.mem_cons_of_mem _ hw)
      obtain ⟨m, hm, hcollapse⟩ := ih htail hrest
      have hhead := (hrest.head hgap htail (List.cons_ne_nil _ _)).2
      refine ⟨w' ++ [sep] ++ m, ?_, ?_⟩
      · rw [List.intercalate_cons_cons]
        exact List.rel_append (List.rel_append hw' (.cons hsame .nil)) hm
      · rw [collapse_append (word_of_same hgap hw' hw).2, collapse_gap hne hbetween hhead,
          hcollapse]
        simp

/-- **Words in the collapsed text** are in the text. -/
theorem run_of_collapse (hgap : ∀ a b, same a b → gap a = false → gap b = false)
    (hsame : ∀ b, same sep b → b = sep) (hsep : gap sep = true)
    (hwords : ∀ w ∈ words, Word gap w) {m r : List α}
    (hm : List.Forall₂ same ([sep].intercalate words) m) (h : collapse gap sep t = m ++ r) :
    ∃ rest, Run gap same words t rest ∧ collapse gap sep rest = r := by
  induction words generalizing t m with
  | nil =>
    obtain rfl := List.forall₂_nil_left_iff.mp hm
    exact ⟨t, rfl, h⟩
  | cons w words ih =>
    have hw := hwords w List.mem_cons_self
    cases words with
    | nil =>
      rw [List.intercalate_singleton] at hm
      obtain ⟨rest, rfl, hrest⟩ := prefix_of_collapse hsep (word_of_same hgap hm hw).2 h
      exact ⟨rest, ⟨m, hm, rfl⟩, hrest⟩
    | cons w₂ words =>
      have htail := fun w hw => hwords w (List.mem_cons_of_mem _ hw)
      rw [List.intercalate_cons_cons, List.append_assoc] at hm
      obtain ⟨w', m', rfl, hw', hm'⟩ := exists_append_of_same hm
      obtain ⟨s', m'', hs', hm'', rfl⟩ := List.forall₂_cons_left_iff.mp hm'
      obtain rfl := hsame s' hs'
      rw [List.append_assoc] at h
      obtain ⟨t₁, rfl, ht₁⟩ := prefix_of_collapse hsep (word_of_same hgap hw' hw).2 h
      -- the separator comes from the units before the next word
      obtain ⟨hne, hhead⟩ := intercalate_head hgap htail (List.cons_ne_nil _ _) hm''
      have hhead' : (m'' ++ r).head?.any gap = false := by
        cases m'' with
        | nil => exact absurd rfl hne
        | cons c m'' => exact hhead
      obtain ⟨between, t', rfl, hbetween, ht'⟩ := split_of_collapse hsep
        (show collapse gap s' t₁ = [s'] ++ (m'' ++ r) from ht₁) (by simp [hne]) hhead'
      obtain ⟨rest, hrun, hrest⟩ := ih htail hm'' ht'
      refine ⟨rest, ⟨w', between, t', hw', ?_, ?_, rfl, hrun⟩, hrest⟩
      · rintro rfl
        cases hbetween
      · have hall : ∀ c ∈ collapse gap s' between, gap c = true := by
          intro c hc
          rw [hbetween] at hc
          rw [List.mem_singleton.mp hc]
          exact hsep
        exact gap_of_collapse s' hall

/-- Separated words, and what is the same, end with a unit of a word. -/
theorem intercalate_getLast (hgap : ∀ a b, same a b → gap a = false → gap b = false)
    (hwords : ∀ w ∈ words, Word gap w) (hne : words ≠ []) {m : List α}
    (hm : List.Forall₂ same ([sep].intercalate words) m) : m.getLast?.any gap = false := by
  induction words generalizing m with
  | nil => exact absurd rfl hne
  | cons w words ih =>
    cases words with
    | nil =>
      rw [List.intercalate_singleton] at hm
      obtain ⟨hm', hclear⟩ := word_of_same hgap hm (hwords w List.mem_cons_self)
      rw [List.getLast?_eq_some_getLast hm']
      exact hclear _ (List.getLast_mem hm')
    | cons w₂ words =>
      have htail := fun w hw => hwords w (List.mem_cons_of_mem _ hw)
      rw [List.intercalate_cons_cons] at hm
      obtain ⟨front, back, rfl, -, hback⟩ := exists_append_of_same hm
      have hlast := ih htail (List.cons_ne_nil _ _) hback
      have hback' := (intercalate_head hgap htail (List.cons_ne_nil _ _) hback).1
      rw [List.getLast?_append_of_ne_nil _ hback']
      exact hlast

end

/-! ### Trimming -/

section

variable [DecidableEq α]

theorem exists_trim (sep : α) (s : List α) : ∃ l r, s = l ++ (trim sep s ++ r) ∧
    (∀ c ∈ l, c = sep) ∧ ∀ c ∈ r, c = sep := by
  refine ⟨s.takeWhile (· = sep), (s.dropWhile (· = sep)).rtakeWhile (· = sep), ?_, ?_, ?_⟩
  · unfold trim
    rw [List.rdropWhile_append_rtakeWhile, List.takeWhile_append_dropWhile]
  · intro c hc
    have hsep := List.mem_takeWhile_imp hc
    exact of_decide_eq_true hsep
  · intro c hc
    have hsep := List.mem_rtakeWhile_imp hc
    exact of_decide_eq_true hsep

theorem dropWhile_append_sep {l : List α} (hl : ∀ c ∈ l, c = sep) (hhead : t.head? ≠ some sep) :
    (l ++ t).dropWhile (· = sep) = t := by
  induction l with
  | nil =>
    cases t with
    | nil => rfl
    | cons c t => exact List.dropWhile_cons_of_neg fun h => hhead (congrArg some (of_decide_eq_true h))
  | cons c l ih =>
    have hc : decide (c = sep) = true := decide_eq_true (hl c List.mem_cons_self)
    rw [List.cons_append, List.dropWhile_cons, hc, if_pos rfl]
    exact ih fun d hd => hl d (List.mem_cons_of_mem _ hd)

/-- A text that neither begins nor ends with the separator is what is left of it. -/
theorem trim_append {l m r : List α} (hl : ∀ c ∈ l, c = sep) (hr : ∀ c ∈ r, c = sep)
    (hhead : m.head? ≠ some sep) (hlast : m.getLast? ≠ some sep) (hm : m ≠ []) :
    trim sep (l ++ (m ++ r)) = m := by
  have hhead' : (m ++ r).head? ≠ some sep := by
    rw [List.head?_append_of_ne_nil _ hm]
    exact hhead
  have hlast' : m.reverse.head? ≠ some sep := by
    rw [List.head?_reverse]
    exact hlast
  unfold trim List.rdropWhile
  rw [dropWhile_append_sep hl hhead', List.reverse_append,
    dropWhile_append_sep (fun c hc => hr c (List.mem_reverse.mp hc)) hlast', List.reverse_reverse]

omit [DecidableEq α] in
theorem infix_append_sep {l m : List α} (hl : ∀ c ∈ l, c = sep) (hhead : m.head? ≠ some sep)
    (h : m <:+: l ++ t) : m <:+: t := by
  induction l with
  | nil => exact h
  | cons c l ih =>
    rcases List.infix_cons_iff.mp h with hstart' | hinfix
    · cases m with
      | nil => exact List.nil_infix
      | cons d m =>
        obtain ⟨rfl, -⟩ := List.cons_prefix_cons.mp hstart'
        exact absurd (congrArg some (hl d List.mem_cons_self)) hhead
    · exact ih (fun d hd => hl d (List.mem_cons_of_mem _ hd)) hinfix

theorem mem_of_mem_normalize {c : α} (hc : c ∈ normalize gap sep t) : c ∈ t ∨ c = sep := by
  have hcollapse : c ∈ collapse gap sep t := by
    obtain ⟨l, r, hs, -, -⟩ := exists_trim sep (collapse gap sep t)
    rw [hs]
    exact List.mem_append_right _ (List.mem_append_left _ hc)
  clear hc
  induction t with
  | nil => exact absurd hcollapse List.not_mem_nil
  | cons d t ih =>
    have hrest : c ∈ collapse gap sep t → c ∈ d :: t ∨ c = sep :=
      fun h => (ih h).imp_left (List.mem_cons_of_mem _)
    unfold collapse at hcollapse
    split_ifs at hcollapse with hd ht
    · exact hrest hcollapse
    · rcases List.mem_cons.mp hcollapse with rfl | h
      · exact .inr rfl
      · exact hrest h
    · rcases List.mem_cons.mp hcollapse with rfl | h
      · exact .inl List.mem_cons_self
      · exact hrest h

/-- Nothing of the text is lost that neither begins nor ends with the separator. -/
theorem infix_trim_iff {m : List α} (hhead : m.head? ≠ some sep) (hlast : m.getLast? ≠ some sep) :
    m <:+: trim sep s ↔ m <:+: s := by
  obtain ⟨l, r, hs, hl, hr⟩ := exists_trim sep s
  constructor
  · intro h
    rw [hs]
    exact h.trans ⟨l, r, by simp⟩
  · intro h
    rw [hs] at h
    have hfront := infix_append_sep hl hhead h
    rw [← List.reverse_infix, List.reverse_append] at hfront
    rw [← List.reverse_infix]
    refine infix_append_sep (fun c hc => hr c (List.mem_reverse.mp hc)) ?_ hfront
    rw [List.head?_reverse]
    exact hlast

/-! ### Normalised texts -/

variable {same : α → α → Prop}

omit [DecidableEq α] in
theorem ne_sep_of_gap (hsep : gap sep = true) {o : Option α} (h : o.any gap = false) :
    o ≠ some sep := by
  rintro rfl
  exact Bool.false_ne_true (h.symm.trans hsep)

/-- A normalised text is empty when there is nothing but gaps. -/
theorem normalize_eq_nil_iff (hsep : gap sep = true) :
    normalize gap sep t = [] ↔ ∀ c ∈ t, gap c = true := by
  obtain ⟨l, r, hs, hl, hr⟩ := exists_trim sep (collapse gap sep t)
  unfold normalize
  constructor
  · intro hempty
    rw [hempty, List.nil_append] at hs
    refine gap_of_collapse sep fun c hc => ?_
    rw [hs] at hc
    rcases List.mem_append.mp hc with hc | hc
    · rw [hl c hc]
      exact hsep
    · rw [hr c hc]
      exact hsep
  · intro hgaps
    unfold trim
    have hall : ∀ c ∈ collapse gap sep _, c = sep := collapse_all_gap hgaps
    rw [List.dropWhile_eq_nil_iff.mpr fun c hc => decide_eq_true (hall c hc)]
    rfl

/-- **A whole text of words**, with gaps around them. -/
theorem normalize_eq_iff (hsep : gap sep = true) (hwords : ∀ w ∈ words, Word gap w)
    (hne : words ≠ []) : normalize gap sep t = [sep].intercalate words ↔
      ∃ a v b, t = a ++ v ∧ (∀ c ∈ a, gap c = true) ∧ Run gap Eq words v b ∧
        ∀ c ∈ b, gap c = true := by
  have heq : ∀ a b : α, a = b → gap a = false → gap b = false := fun a b h ha => h ▸ ha
  have hself : List.Forall₂ Eq ([sep].intercalate words) ([sep].intercalate words) :=
    List.forall₂_refl _
  obtain ⟨hm, hhead⟩ := intercalate_head heq hwords hne hself
  have hlast := intercalate_getLast heq hwords hne hself
  constructor
  · intro h
    obtain ⟨l, r, hs, hl, hr⟩ := exists_trim sep (collapse gap sep t)
    change trim sep (collapse gap sep t) = _ at h
    rw [h] at hs
    have hhead' : ([sep].intercalate words ++ r).head?.any gap = false := by
      rw [List.head?_append_of_ne_nil _ hm]
      exact hhead
    obtain ⟨a, v, rfl, ha, hv⟩ := split_of_collapse hsep hs (by simp [hm]) hhead'
    obtain ⟨b, hrun, hb⟩ := run_of_collapse heq (fun b h => h.symm) hsep hwords hself hv
    refine ⟨a, v, b, rfl, gap_of_collapse sep fun c hc => ?_, hrun, gap_of_collapse sep fun c hc => ?_⟩
    · rw [ha] at hc
      rw [hl c hc]
      exact hsep
    · rw [hb] at hc
      rw [hr c hc]
      exact hsep
  · rintro ⟨a, v, b, rfl, ha, hrun, hb⟩
    obtain ⟨m, hsame, hv⟩ := collapse_run heq rfl hwords hrun
    obtain rfl := List.forall₂_eq_eq_eq ▸ hsame
    unfold normalize
    rw [collapse_append_of_head (hrun.head heq hwords hne).2, hv]
    exact trim_append (collapse_all_gap ha) (collapse_all_gap hb) (ne_sep_of_gap hsep hhead)
      (ne_sep_of_gap hsep hlast) hm

/-- **A text with the words in it.** -/
theorem infix_normalize_iff (hgap : ∀ a b, same a b → gap a = false → gap b = false)
    (hsame : ∀ b, same sep b ↔ b = sep) (hsep : gap sep = true)
    (hwords : ∀ w ∈ words, Word gap w) (hne : words ≠ []) :
    (∃ u v b, t = u ++ v ∧ Run gap same words v b) ↔
      ∃ m, m <:+: normalize gap sep t ∧ List.Forall₂ same ([sep].intercalate words) m := by
  constructor
  · rintro ⟨u, v, b, rfl, hrun⟩
    obtain ⟨m, hm, hv⟩ := collapse_run hgap ((hsame sep).mpr rfl) hwords hrun
    refine ⟨m, ?_, hm⟩
    have hhead := (intercalate_head hgap hwords hne hm).2
    have hlast := intercalate_getLast hgap hwords hne hm
    rw [normalize, infix_trim_iff (ne_sep_of_gap hsep hhead) (ne_sep_of_gap hsep hlast),
      collapse_append_of_head (hrun.head hgap hwords hne).2, hv]
    exact ⟨collapse gap sep u, collapse gap sep b, by rw [List.append_assoc]⟩
  · rintro ⟨m, hinfix, hm⟩
    obtain ⟨hm', hhead⟩ := intercalate_head hgap hwords hne hm
    have hlast := intercalate_getLast hgap hwords hne hm
    rw [normalize, infix_trim_iff (ne_sep_of_gap hsep hhead) (ne_sep_of_gap hsep hlast)] at hinfix
    obtain ⟨l, r, hs⟩ := hinfix
    rw [List.append_assoc] at hs
    have hhead' : (m ++ r).head?.any gap = false := by
      rw [List.head?_append_of_ne_nil _ hm']
      exact hhead
    obtain ⟨u, v, rfl, -, hv⟩ := split_of_collapse hsep hs.symm (by simp [hm']) hhead'
    obtain ⟨b, hrun, -⟩ := run_of_collapse hgap (fun b => (hsame b).mp) hsep hwords hm hv
    exact ⟨u, v, b, rfl, hrun⟩

omit [DecidableEq α] in
/-- Every text is one of words, unless it is a gap. -/
theorem exists_words (gap : α → Bool) (t : List α) : (∀ c ∈ t, gap c = true) ∨
    ∃ words a v b, words ≠ [] ∧ (∀ w ∈ words, Word gap w) ∧ t = a ++ v ∧
      (∀ c ∈ a, gap c = true) ∧ Run gap Eq words v b ∧ ∀ c ∈ b, gap c = true := by
  have hself : ∀ w : List α, List.Forall₂ Eq w w := fun w => List.forall₂_refl w
  induction t with
  | nil => exact .inl fun c hc => absurd hc List.not_mem_nil
  | cons c s ih =>
    have hcons : ∀ {a : List α}, gap c = true → (∀ d ∈ a, gap d = true) →
        ∀ d ∈ c :: a, gap d = true := by
      intro a hc ha d hd
      rcases List.mem_cons.mp hd with rfl | hd
      · exact hc
      · exact ha d hd
    have hone : gap c = false → Word gap [c] := fun hc =>
      ⟨List.cons_ne_nil _ _, fun d hd => by rw [List.mem_singleton.mp hd]; exact hc⟩
    cases hc : gap c with
    | true =>
      rcases ih with hall | ⟨words, a, v, b, hne, hwords, rfl, ha, hrun, hb⟩
      · exact .inl (hcons hc hall)
      · exact .inr ⟨words, c :: a, v, b, hne, hwords, rfl, hcons hc ha, hrun, hb⟩
    | false =>
      right
      rcases ih with hall | ⟨words, a, v, b, hne, hwords, rfl, ha, hrun, hb⟩
      · refine ⟨[[c]], [], c :: s, s, List.cons_ne_nil _ _, ?_, rfl,
          fun d hd => absurd hd List.not_mem_nil, ⟨[c], hself [c], rfl⟩, hall⟩
        intro w hw
        rw [List.mem_singleton.mp hw]
        exact hone hc
      · obtain ⟨w, rest, rfl⟩ := List.exists_cons_of_ne_nil hne
        cases a with
        | nil =>
          -- the unit belongs to the first word
          refine ⟨(c :: w) :: rest, [], c :: v, b, List.cons_ne_nil _ _, fun w' hw' => ?_, rfl,
            fun d hd => absurd hd List.not_mem_nil, ?_, hb⟩
          · rcases List.mem_cons.mp hw' with rfl | hw'
            · refine ⟨List.cons_ne_nil _ _, fun d hd => ?_⟩
              rcases List.mem_cons.mp hd with rfl | hd
              · exact hc
              · exact (hwords w List.mem_cons_self).2 d hd
            · exact hwords w' (List.mem_cons_of_mem _ hw')
          · cases rest with
            | nil =>
              obtain ⟨w', hw', rfl⟩ := hrun
              exact ⟨c :: w', .cons rfl hw', rfl⟩
            | cons w₂ rest =>
              obtain ⟨w', between, t', hw', hbetween, hgap, rfl, hrest⟩ := hrun
              exact ⟨c :: w', between, t', .cons rfl hw', hbetween, hgap, rfl, hrest⟩
        | cons d a =>
          refine ⟨[c] :: w :: rest, [], c :: (d :: a ++ v), b, List.cons_ne_nil _ _,
            fun w' hw' => ?_, rfl, fun d hd => absurd hd List.not_mem_nil,
            ⟨[c], d :: a, v, hself [c], List.cons_ne_nil _ _, ha, rfl, hrun⟩, hb⟩
          rcases List.mem_cons.mp hw' with rfl | hw'
          · exact hone hc
          · exact hwords w' hw'

/-- **The words** of a normalised text are what is between its separators. -/
theorem splitOn_normalize (hsep : gap sep = true) (hne : normalize gap sep t ≠ []) :
    (normalize gap sep t).splitOn sep ≠ [] ∧
      (∀ w ∈ (normalize gap sep t).splitOn sep, Word gap w) ∧
      [sep].intercalate ((normalize gap sep t).splitOn sep) = normalize gap sep t := by
  rcases exists_words gap t with hall | ⟨words, a, v, b, hwords, hword, ht, ha, hrun, hb⟩
  · exact absurd ((normalize_eq_nil_iff hsep).mpr hall) hne
  · have hnorm := (normalize_eq_iff hsep hword hwords).mpr ⟨a, v, b, ht, ha, hrun, hb⟩
    have hsplit : (normalize gap sep t).splitOn sep = words := by
      rw [hnorm]
      refine List.splitOn_intercalate sep (fun w hw hmem => ?_) hwords
      exact Bool.false_ne_true (((hword w hw).2 sep hmem).symm.trans hsep)
    rw [hsplit]
    exact ⟨hwords, hword, hnorm.symm⟩

/-! ### What is around words -/

/-- What is left in front of a word. -/
def front (gap : α → Bool) (sep : α) (s : List α) : List α := (collapse gap sep s).dropWhile (· = sep)

/-- What is left behind a word. -/
def back (gap : α → Bool) (sep : α) (s : List α) : List α := (collapse gap sep s).rdropWhile (· = sep)

theorem rdropWhile_sep (s : List α) : ∃ r, s = s.rdropWhile (· = sep) ++ r ∧ ∀ c ∈ r, c = sep := by
  refine ⟨s.rtakeWhile (· = sep), List.rdropWhile_append_rtakeWhile.symm, fun c hc => ?_⟩
  have hsep := List.mem_rtakeWhile_imp hc
  exact of_decide_eq_true hsep

theorem dropWhile_sep (s : List α) : ∃ l, s = l ++ s.dropWhile (· = sep) ∧ ∀ c ∈ l, c = sep := by
  refine ⟨s.takeWhile (· = sep), List.takeWhile_append_dropWhile.symm, fun c hc => ?_⟩
  have hsep := List.mem_takeWhile_imp hc
  exact of_decide_eq_true hsep

theorem head_dropWhile_sep (s : List α) : (s.dropWhile (· = sep)).head? ≠ some sep := by
  intro hhead
  have hnot := List.head?_dropWhile_not (fun c => decide (c = sep)) s
  rw [hhead] at hnot
  exact of_decide_eq_false hnot rfl

theorem getLast_rdropWhile_sep (s : List α) : (s.rdropWhile (· = sep)).getLast? ≠ some sep := by
  rw [List.rdropWhile, List.getLast?_reverse]
  exact head_dropWhile_sep s.reverse

theorem head_trim (s : List α) : (trim sep s).head? ≠ some sep := by
  obtain ⟨r, hr, -⟩ := @rdropWhile_sep α sep _ (s.dropWhile (· = sep))
  change _ = trim sep s ++ r at hr
  cases htrim : trim sep s with
  | nil => exact fun h => (by cases h)
  | cons c rest =>
    have hhead := @head_dropWhile_sep α sep _ s
    rwa [hr, htrim] at hhead

theorem getLast_trim (s : List α) : (trim sep s).getLast? ≠ some sep :=
  getLast_rdropWhile_sep _

/-- What is around something that neither begins nor ends with the separator is trimmed. -/
theorem trim_around {x m y : List α} (hm : m ≠ []) (hhead : m.head? ≠ some sep)
    (hlast : m.getLast? ≠ some sep) :
    trim sep (x ++ (m ++ y)) = x.dropWhile (· = sep) ++ (m ++ y.rdropWhile (· = sep)) := by
  obtain ⟨l, hl, hlsep⟩ := @dropWhile_sep α sep _ x
  obtain ⟨r, hr, hrsep⟩ := @rdropWhile_sep α sep _ y
  have hsplit : x ++ (m ++ y) = l ++ ((x.dropWhile (· = sep) ++ (m ++ y.rdropWhile (· = sep))) ++ r) := by
    conv_lhs => rw [hl, hr]
    simp only [List.append_assoc]
  rw [hsplit]
  refine trim_append hlsep hrsep ?_ ?_ ?_
  · cases hx : x.dropWhile (· = sep) with
    | nil =>
      rw [List.nil_append, List.head?_append_of_ne_nil _ hm]
      exact hhead
    | cons c x' =>
      have hc := @head_dropWhile_sep α sep _ x
      rwa [hx] at hc
  · rw [List.getLast?_append_of_ne_nil _ (by simp [hm])]
    by_cases hy : y.rdropWhile (· = sep) = []
    · rw [hy, List.append_nil]
      exact hlast
    · rw [List.getLast?_append_of_ne_nil _ hy]
      exact getLast_rdropWhile_sep y
  · simp [hm]

omit [DecidableEq α] in
theorem intercalate_spec (hsep : gap sep = true) (hwords : ∀ w ∈ words, Word gap w)
    (hne : words ≠ []) :
    [sep].intercalate words ≠ [] ∧ ([sep].intercalate words).head?.any gap = false ∧
      ([sep].intercalate words).head? ≠ some sep ∧
      ([sep].intercalate words).getLast? ≠ some sep := by
  have heq : ∀ a b : α, a = b → gap a = false → gap b = false := fun a b h ha => h ▸ ha
  have hself : List.Forall₂ Eq ([sep].intercalate words) ([sep].intercalate words) :=
    List.forall₂_refl _
  obtain ⟨hm, hhead⟩ := intercalate_head heq hwords hne hself
  exact ⟨hm, hhead, ne_sep_of_gap hsep hhead,
    ne_sep_of_gap hsep (intercalate_getLast heq hwords hne hself)⟩

/-- **Words in a normalised text** are in the text, with the same around them. -/
theorem normalize_split_iff (hsep : gap sep = true) (hwords : ∀ w ∈ words, Word gap w)
    (hne : words ≠ []) {f r : List α} :
    normalize gap sep t = f ++ ([sep].intercalate words ++ r) ↔
      ∃ u v b, t = u ++ v ∧ Run gap Eq words v b ∧ front gap sep u = f ∧ back gap sep b = r := by
  have heq : ∀ a b : α, a = b → gap a = false → gap b = false := fun a b h ha => h ▸ ha
  obtain ⟨hm, hhead, hhead', hlast⟩ := intercalate_spec hsep hwords hne
  have hself : List.Forall₂ Eq ([sep].intercalate words) ([sep].intercalate words) :=
    List.forall₂_refl _
  have hafter : ∀ {u v b : List α}, t = u ++ v → Run gap Eq words v b →
      normalize gap sep t = front gap sep u ++ ([sep].intercalate words ++ back gap sep b) := by
    rintro u v b rfl hrun
    obtain ⟨m, hsame, hv⟩ := collapse_run heq rfl hwords hrun
    obtain rfl := List.forall₂_eq_eq_eq ▸ hsame
    rw [normalize, collapse_append_of_head (hrun.head heq hwords hne).2, hv,
      trim_around hm hhead' hlast]
    rfl
  constructor
  · intro h
    obtain ⟨l, r', hs, hl, hr⟩ := exists_trim sep (collapse gap sep t)
    change trim sep (collapse gap sep t) = _ at h
    have hs' : collapse gap sep t = (l ++ f) ++ ([sep].intercalate words ++ (r ++ r')) := by
      rw [hs, h]
      simp only [List.append_assoc]
    have hfirst : ([sep].intercalate words ++ (r ++ r')).head?.any gap = false := by
      rw [List.head?_append_of_ne_nil _ hm]
      exact hhead
    obtain ⟨u, v, rfl, hu, hv⟩ := split_of_collapse hsep hs' (by simp [hm]) hfirst
    obtain ⟨b, hrun, hb⟩ := run_of_collapse heq (fun b h => h.symm) hsep hwords hself hv
    refine ⟨u, v, b, rfl, hrun, ?_, ?_⟩
    · rw [front, hu]
      refine dropWhile_append_sep hl ?_
      cases f with
      | nil => exact fun hnil => (by cases hnil)
      | cons c f =>
        have hc := @head_trim α sep _ (collapse gap sep (u ++ v))
        rwa [h] at hc
    · rw [back, hb, List.rdropWhile, List.reverse_append, dropWhile_append_sep
        (fun c hc => hr c (List.mem_reverse.mp hc)), List.reverse_reverse]
      rw [List.head?_reverse]
      by_cases hnil : r = []
      · rw [hnil]
        exact fun hnil => (by cases hnil)
      · have hc := @getLast_trim α sep _ (collapse gap sep (u ++ v))
        rw [h, List.getLast?_append_of_ne_nil _ (by simp [hm]),
          List.getLast?_append_of_ne_nil _ hnil] at hc
        exact hc
  · rintro ⟨u, v, b, ht, hrun, rfl, rfl⟩
    exact hafter ht hrun

theorem front_eq_nil_iff (hsep : gap sep = true) :
    front gap sep s = [] ↔ ∀ c ∈ s, gap c = true := by
  constructor
  · intro h
    refine gap_of_collapse sep fun c hc => ?_
    rw [of_decide_eq_true (List.dropWhile_eq_nil_iff.mp h c hc)]
    exact hsep
  · intro h
    exact List.dropWhile_eq_nil_iff.mpr fun c hc => decide_eq_true (collapse_all_gap h c hc)

theorem back_eq_nil_iff (hsep : gap sep = true) :
    back gap sep s = [] ↔ ∀ c ∈ s, gap c = true := by
  constructor
  · intro h
    refine gap_of_collapse sep fun c hc => ?_
    rw [of_decide_eq_true (List.rdropWhile_eq_nil_iff.mp h c hc)]
    exact hsep
  · intro h
    exact List.rdropWhile_eq_nil_iff.mpr fun c hc => decide_eq_true (collapse_all_gap h c hc)

omit [DecidableEq α] in
theorem rdropWhile_cons (p : α → Bool) (c : α) (s : List α) :
    (c :: s).rdropWhile p =
      if s.rdropWhile p = [] then (if p c then [] else [c]) else c :: s.rdropWhile p := by
  rw [List.rdropWhile, List.reverse_cons, List.dropWhile_append]
  have hempty : (s.reverse.dropWhile p).isEmpty = true ↔ s.rdropWhile p = [] := by
    rw [List.isEmpty_iff, List.rdropWhile, List.reverse_eq_nil_iff]
  by_cases hnil : s.rdropWhile p = []
  · rw [if_pos (hempty.mpr hnil), if_pos hnil]
    by_cases hc : p c = true
    · rw [if_pos hc, List.dropWhile_cons_of_pos hc]
      rfl
    · rw [if_neg hc, List.dropWhile_cons_of_neg hc]
      rfl
  · rw [if_neg (mt hempty.mp hnil), if_neg hnil, List.reverse_append, List.reverse_singleton,
      List.singleton_append]
    rfl

theorem back_cons (hsep : gap sep = true) {c : α} (hc : gap c = false) :
    back gap sep (c :: s) = c :: back gap sep s := by
  have hne : ¬ decide (c = sep) = true := by
    intro h
    rw [of_decide_eq_true h, hsep] at hc
    cases hc
  rw [back, collapse_cons_of_not hc, rdropWhile_cons, if_neg hne]
  split_ifs with hnil
  · rw [back, hnil]
  · rfl

/-- A gap before a gap is no more of one. -/
theorem back_gap {c : α} (hc : gap c = true) (hhead : s.head?.any gap = true) :
    back gap sep (c :: s) = back gap sep s := by
  rw [back, collapse, if_pos hc, if_pos hhead, back]

/-- A gap before a word is a separator. -/
theorem back_separator (hsep : gap sep = true) {c d : α} (hc : gap c = true) (hd : gap d = false) :
    back gap sep (c :: d :: s) = sep :: d :: back gap sep s := by
  have hhead : ¬ (d :: s).head?.any gap = true := by
    rw [List.head?_cons, Option.any_some, hd]
    exact Bool.false_ne_true
  have hback := back_cons (s := s) hsep hd
  rw [back] at hback
  rw [back, collapse, if_pos hc, if_neg hhead, rdropWhile_cons, hback,
    if_neg (List.cons_ne_nil _ _)]

/-- A gap at the front of a text that is not a gap is left as a separator. -/
theorem back_head (hhead : s.head?.any gap = true)
    (hne : back gap sep s ≠ []) : (back gap sep s).head? = some sep := by
  obtain ⟨r, hr, -⟩ := @rdropWhile_sep α sep _ (collapse gap sep s)
  change _ = back gap sep s ++ r at hr
  cases s with
  | nil => cases hhead
  | cons c s =>
    have hc : gap c = true := hhead
    obtain ⟨rest, hrest⟩ : ∃ rest, collapse gap sep (c :: s) = sep :: rest := by
      clear hr hne hhead
      induction s generalizing c with
      | nil =>
        rw [collapse, if_pos hc]
        exact ⟨_, rfl⟩
      | cons d s ih =>
        rw [collapse, if_pos hc]
        split_ifs with hd
        · exact ih d hd
        · exact ⟨_, rfl⟩
    obtain ⟨d, rest', hback⟩ := List.exists_cons_of_ne_nil hne
    rw [hrest, hback] at hr
    rw [hback, List.head?_cons, (List.cons.inj hr).1]

section Mark

variable (hsep : gap sep = true) {mark : α} (hmark : gap mark = false)

include hsep hmark

/-- A mark with a gap behind it, at the end of what is in front of a word. -/
theorem front_mark_iff : [mark, sep] <:+ front gap sep u ↔
    ∃ x g, u = x ++ mark :: g ∧ g ≠ [] ∧ ∀ c ∈ g, gap c = true := by
  constructor
  · rintro ⟨x, hx⟩
    obtain ⟨l, hl, -⟩ := @dropWhile_sep α sep _ (collapse gap sep u)
    change _ = l ++ front gap sep u at hl
    rw [← hx, ← List.append_assoc] at hl
    obtain ⟨x', v, rfl, -, hv⟩ := split_of_collapse hsep hl (List.cons_ne_nil _ _) hmark
    obtain ⟨g, rfl, hg⟩ := prefix_of_collapse (w := [mark]) hsep
      (fun c hc => by rw [List.mem_singleton.mp hc]; exact hmark) hv
    refine ⟨x', g, rfl, ?_, gap_of_collapse sep fun c hc => ?_⟩
    · rintro rfl
      cases hg
    · rw [hg] at hc
      rw [List.mem_singleton.mp hc]
      exact hsep
  · rintro ⟨x, g, rfl, hne, hg⟩
    have hcollapse : collapse gap sep (x ++ mark :: g) = collapse gap sep x ++ [mark, sep] := by
      have hgap := @collapse_gap α gap sep [] _ hne hg rfl
      rw [List.append_nil] at hgap
      rw [collapse_append_of_head (t := mark :: g) hmark, collapse_cons_of_not hmark, hgap]
      rfl
    have hkeep : [mark, sep].dropWhile (fun c => decide (c = sep)) = [mark, sep] := by
      refine List.dropWhile_cons_of_neg fun h => ?_
      rw [of_decide_eq_true h, hsep] at hmark
      cases hmark
    rw [front, hcollapse, List.dropWhile_append, hkeep]
    split_ifs
    · exact List.suffix_rfl
    · exact List.suffix_append _ _

/-- A mark with a gap behind it, at the front of what is behind a word. -/
theorem back_mark_iff : (∃ t, s = mark :: t ∧ t.head?.any gap = true) ↔
    [mark, sep] <+: back gap sep s ∨
      (back gap sep s = [mark] ∧ s.getLast?.any gap = true) := by
  constructor
  · rintro ⟨t, rfl, hhead⟩
    rw [back_cons hsep hmark]
    by_cases hnil : back gap sep t = []
    · have hgaps := (back_eq_nil_iff hsep).mp hnil
      have hne : t ≠ [] := by
        rintro rfl
        cases hhead
      refine .inr ⟨by rw [hnil], ?_⟩
      rw [List.getLast?_cons_of_ne_nil hne, List.getLast?_eq_some_getLast hne]
      exact hgaps _ (List.getLast_mem hne)
    · obtain ⟨c, rest, hback⟩ := List.exists_cons_of_ne_nil hnil
      have hc := back_head hhead hnil
      rw [hback] at hc ⊢
      obtain rfl := Option.some.inj hc
      exact .inl ⟨rest, rfl⟩
  · obtain ⟨r, hr, hrsep⟩ := @rdropWhile_sep α sep _ (collapse gap sep s)
    change _ = back gap sep s ++ r at hr
    have hsplit : ∀ rest, back gap sep s = mark :: rest →
        ∃ t, s = mark :: t ∧ collapse gap sep t = rest ++ r := by
      intro rest hback
      rw [hback] at hr
      obtain ⟨t, ht, hcollapse⟩ := prefix_of_collapse (w := [mark]) hsep
        (fun c hc => by rw [List.mem_singleton.mp hc]; exact hmark) hr
      exact ⟨t, ht, hcollapse⟩
    rintro (⟨rest, hback⟩ | ⟨hback, hlast⟩)
    · obtain ⟨t, rfl, ht⟩ := hsplit (sep :: rest) hback.symm
      refine ⟨t, rfl, ?_⟩
      rw [← head?_collapse hsep, ht]
      exact hsep
    · obtain ⟨t, rfl, ht⟩ := hsplit [] hback
      cases t with
      | nil =>
        change gap mark = true at hlast
        rw [hmark] at hlast
        cases hlast
      | cons c t =>
        refine ⟨c :: t, rfl, gap_of_collapse (s := c :: t) sep (fun d hd => ?_) c List.mem_cons_self⟩
        rw [ht, List.nil_append] at hd
        rw [hrsep d hd]
        exact hsep

end Mark

end

end Lib.Words
