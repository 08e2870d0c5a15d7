import Tapsmith.Command.Target

namespace Tapsmith.Command

/-!
# A command keeps its target

The agent acts on the element that a find with the same selector would look for, unless text is
typed into an element that is told by its text, or by nothing at all: the typed text then takes the
place of the criterion.

* `parseSelectorParams_congr` — the fields that the selector is read from;
* `resolveElement_eq` — the parameters of a command are none of them;
* `keepsTarget_iff` — the commands that keep their target.
-/

open Lib (Json)
open Lib.Json (Object Agree)

variable {agent : Agent} {s : Selector} {p q : Object}

/-! ### What a selector is read from -/

/-- The fields a selector is read from. -/
def criteria : List String :=
  ["role", "name", "resourceId", "id", "text", "textContains", "textRegex", "contentDesc", "hint",
    "className", "testId", "xpath", "label", "labelRegex", "enabled", "checked", "focused",
    "selected", "expanded"]

theorem parseFlag_congr {name : String} (h : Agree criteria p q) (hname : name ∈ criteria) :
    parseFlag agent p name = parseFlag agent q name := by
  unfold parseFlag
  rw [h.has hname, h.getBoolean hname]

theorem parseSelectorParams_congr (agent : Agent) (h : Agree criteria p q) :
    parseSelectorParams agent p = parseSelectorParams agent q := by
  have hstring : ∀ name ∈ criteria, p.optString agent.coercions name =
      q.optString agent.coercions name := fun name hname => h.optString hname
  have hflag : ∀ name ∈ criteria, parseFlag agent p name = parseFlag agent q name :=
    fun name hname => parseFlag_congr h hname
  have hrole : p.optJSONObject "role" = q.optJSONObject "role" := h.optJSONObject (by decide)
  have htext : p.optJSONObject "textRegex" = q.optJSONObject "textRegex" :=
    h.optJSONObject (by decide)
  have hlabel : p.optJSONObject "labelRegex" = q.optJSONObject "labelRegex" :=
    h.optJSONObject (by decide)
  have hsource : ∀ name ∈ criteria,
      ((q.optJSONObject "role").getD p).optString agent.coercions name =
        ((q.optJSONObject "role").getD q).optString agent.coercions name := by
    intro name hname
    cases q.optJSONObject "role" with
    | none => exact hstring name hname
    | some obj => rfl
  unfold parseSelectorParams
  simp only [hrole, htext, hlabel, hstring _ (by decide : "text" ∈ criteria),
    hstring _ (by decide : "textContains" ∈ criteria),
    hstring _ (by decide : "contentDesc" ∈ criteria), hstring _ (by decide : "hint" ∈ criteria),
    hstring _ (by decide : "className" ∈ criteria), hstring _ (by decide : "testId" ∈ criteria),
    hstring _ (by decide : "resourceId" ∈ criteria), hstring _ (by decide : "id" ∈ criteria),
    hstring _ (by decide : "xpath" ∈ criteria), hstring _ (by decide : "label" ∈ criteria),
    hsource _ (by decide : "role" ∈ criteria), hsource _ (by decide : "name" ∈ criteria),
    hflag _ (by decide : "enabled" ∈ criteria), hflag _ (by decide : "checked" ∈ criteria),
    hflag _ (by decide : "focused" ∈ criteria), hflag _ (by decide : "selected" ∈ criteria),
    hflag _ (by decide : "expanded" ∈ criteria)]

/-- The names under which a command has parameters of its own. -/
def ownNames : List String := ["elementId", "parentId", "x", "y", "option", "index"]

/-- A selector has no such field. -/
theorem selectorToJson_own : Agree ownNames (selectorToJson s) [] := by
  have hrole : ∀ role, Agree ownNames (roleToJson role) [] := by
    intro role
    unfold roleToJson
    exact ((((((Agree.refl []).put (by decide) _).putSome (by decide) _).putSome (by decide)
      _).putSome (by decide) _).putSome (by decide) _)
  have hcriterion : ∀ criterion, Agree ownNames (criterionToJson criterion) [] := by
    intro criterion name hname
    cases criterion with
    | role role => exact hrole role name hname
    | _ =>
      simp only [ownNames, List.mem_cons, List.not_mem_nil, or_false] at hname
      rcases hname with rfl | rfl | rfl | rfl | rfl | rfl <;> rfl
  obtain ⟨criterion, parent⟩ := s
  have hfields : Agree ownNames (criterion.elim ([] : Object) criterionToJson) [] := by
    cases criterion with
    | none => exact .refl _
    | some criterion => exact hcriterion criterion
  unfold selectorToJson
  cases parent with
  | none => exact hfields
  | some parent => exact hfields.put (by decide) _

/-! ### What a command is carried out on -/

/-- The fields that decide what a command is carried out on. -/
def targetNames : List String := criteria ++ ["elementId", "parentId", "x", "y"]

/-- The element the selector of the parameters finds. -/
def bySelector (agent : Agent) (s : Selector) : Effect :=
  (parseSelectorParams agent (selectorToJson s)).elim .refused .acts

theorem own_optString (h : Agree targetNames p (selectorToJson s)) {name : String}
    (hname : name ∈ targetNames) (hown : name ∈ ownNames) :
    p.optString agent.coercions name = none :=
  (h.optString hname).trans (selectorToJson_own.optString hown)

theorem resolveElement_eq (h : Agree targetNames p (selectorToJson s)) :
    resolveElement agent p = bySelector agent s := by
  have hparse := parseSelectorParams_congr agent
    (h.mono fun name hname => List.mem_append_left _ hname : Agree criteria p (selectorToJson s))
  unfold resolveElement bySelector
  rw [own_optString h (by decide) (by decide), hparse]
  rfl

/-- A selector gives no point to touch. -/
theorem atPointOrElement_eq (h : Agree targetNames p (selectorToJson s)) :
    atPointOrElement agent p = bySelector agent s := by
  have hx : p.optInt agent.coercions "x" (-1) = -1 :=
    (h.optInt (by decide) (-1)).trans (selectorToJson_own.optInt (by decide) (-1))
  unfold atPointOrElement
  simp only [hx]
  exact resolveElement_eq h

/-- An option to select that is given by its text, or by a number it can have. -/
def ElementAction.Complete : ElementAction → Prop
  | .selectOption option index => option.isSome ∨ ∃ i ∈ index, 0 ≤ i
  | _ => True

theorem selectOption_eq (h : Agree targetNames p (selectorToJson s)) :
    selectOption agent p = bySelector agent s ∨ selectOption agent p = .refused := by
  unfold selectOption
  dsimp only
  split
  · exact .inr rfl
  · split
    · exact .inr rfl
    · exact .inl (resolveElement_eq h)

/-- What is found is what is acted on, and nothing is acted on without it. -/
structure KeepsTarget (agent : Agent) (action : ElementAction) (s : Selector)
    (timeoutMs : Option ℕ) (readTimeoutMs : ℕ) : Prop where
  same : (AgentCommand.element action (selectorToJson s) timeoutMs none).effect agent
      readTimeoutMs ≠ .refused →
    ∃ target,
      (AgentCommand.element action (selectorToJson s) timeoutMs none).effect agent readTimeoutMs =
        .acts target ∧
      ∀ findTimeoutMs findReadTimeoutMs,
        (AgentCommand.findElement (selectorToJson s) findTimeoutMs).effect agent
          findReadTimeoutMs = .finds target none
  acts : action.Complete → ∀ target findTimeoutMs findReadTimeoutMs,
    (AgentCommand.findElement (selectorToJson s) findTimeoutMs).effect agent findReadTimeoutMs =
        .finds target none →
      (AgentCommand.element action (selectorToJson s) timeoutMs none).effect agent
        readTimeoutMs = .acts target

/-- Text is typed into an element that is told by its text, or by nothing. -/
def TypesOverCriterion (action : ElementAction) (s : Selector) : Prop :=
  (∃ text typingDelayMs, action = .typeText text typingDelayMs) ∧
    ((∃ t, s.criterion = some (.text t)) ∨ (s.criterion = none ∧ s.parent = none))

theorem find_effect (findTimeoutMs : Option ℕ) (readTimeoutMs : ℕ) :
    (AgentCommand.findElement (selectorToJson s) findTimeoutMs).effect agent readTimeoutMs =
      (parseSelectorParams agent (selectorToJson s)).elim .refused (.finds · none) := by
  have hsent : Agree targetNames (stampReadTimeout readTimeoutMs
      ((selectorToJson s).putSome "timeout" (findTimeoutMs.map ms))) (selectorToJson s) :=
    ((Agree.refl _).putSome (by decide) _).put (by decide) _
  have hparse := parseSelectorParams_congr agent
    (hsent.mono fun name hname => List.mem_append_left _ hname : Agree criteria _ _)
  unfold AgentCommand.effect AgentCommand.toJson dispatch
  dsimp only
  rw [own_optString hsent (by decide) (by decide), hparse]

theorem KeepsTarget.of_bySelector {action : ElementAction} {timeoutMs : Option ℕ}
    {readTimeoutMs : ℕ}
    (h : (AgentCommand.element action (selectorToJson s) timeoutMs none).effect agent
        readTimeoutMs = bySelector agent s ∨
      (¬action.Complete ∧ (AgentCommand.element action (selectorToJson s) timeoutMs none).effect
        agent readTimeoutMs = .refused)) :
    KeepsTarget agent action s timeoutMs readTimeoutMs := by
  refine ⟨fun hacts => ?_, fun hcomplete target findTimeoutMs findReadTimeoutMs hfind => ?_⟩
  · rcases h with h | ⟨-, h⟩
    · rw [h] at hacts ⊢
      unfold bySelector at hacts ⊢
      cases hparse : parseSelectorParams agent (selectorToJson s) with
      | none =>
        rw [hparse] at hacts
        exact absurd rfl hacts
      | some target =>
        refine ⟨target, rfl, fun findTimeoutMs findReadTimeoutMs => ?_⟩
        rw [find_effect, hparse]
        rfl
    · exact absurd h hacts
  · rcases h with h | ⟨hnot, -⟩
    · rw [find_effect] at hfind
      rw [h]
      unfold bySelector
      cases hparse : parseSelectorParams agent (selectorToJson s) with
      | none =>
        rw [hparse] at hfind
        cases hfind
      | some found =>
        rw [hparse] at hfind
        obtain ⟨rfl, -⟩ := Effect.finds.inj hfind
        rfl
    · exact absurd hcomplete hnot

/-! ### The commands -/

/-- What a command but the typing of text carries with the selector. -/
theorem sent_agree {action : ElementAction} (timeoutMs : Option ℕ) (readTimeoutMs : ℕ)
    (haction : ∀ text typingDelayMs, action ≠ .typeText text typingDelayMs) :
    Agree targetNames (stampReadTimeout readTimeoutMs
      (AgentCommand.element action (selectorToJson s) timeoutMs none).toJson.2)
      (selectorToJson s) := by
  have hown : Agree targetNames (action.toJson (selectorToJson s)).2 (selectorToJson s) := by
    have hrefl : Agree targetNames (selectorToJson s) (selectorToJson s) := .refl _
    cases action with
    | typeText text typingDelayMs => exact absurd rfl (haction text typingDelayMs)
    | longPress durationMs => exact hrefl.putSome (by decide) _
    | doubleTap intervalMs => exact hrefl.putSome (by decide) _
    | highlight durationMs => exact hrefl.putSome (by decide) _
    | selectOption option index => exact (hrefl.putSome (by decide) _).putSome (by decide) _
    | pinchZoom scale => exact hrefl.put (by decide) _
    | _ => exact hrefl
  exact (hown.putSome (by decide) _).put (by decide) _

/-- An option that is told by its text or its number is not refused for that. -/
theorem selectOption_complete {option : Option String} {index : Option ℤ}
    {timeoutMs : Option ℕ} {readTimeoutMs : ℕ}
    (hcomplete : (ElementAction.selectOption option index).Complete) :
    (AgentCommand.element (.selectOption option index) (selectorToJson s) timeoutMs none).effect
      agent readTimeoutMs = bySelector agent s := by
  have hsent : Agree targetNames (stampReadTimeout readTimeoutMs
      (AgentCommand.element (.selectOption option index) (selectorToJson s) timeoutMs none).toJson.2)
      (selectorToJson s) := sent_agree timeoutMs readTimeoutMs (by simp)
  have hoption : (stampReadTimeout readTimeoutMs
      (AgentCommand.element (.selectOption option index) (selectorToJson s) timeoutMs
        none).toJson.2).opt "option" = option.map .str := by
    have hown : (selectorToJson s).opt "option" = none := selectorToJson_own "option" (by decide)
    simp [stampReadTimeout, AgentCommand.toJson, ElementAction.toJson, Object.opt_put,
      Object.opt_putSome, hown]
  have hindex : (stampReadTimeout readTimeoutMs
      (AgentCommand.element (.selectOption option index) (selectorToJson s) timeoutMs
        none).toJson.2).opt "index" = index.map .num := by
    have hown : (selectorToJson s).opt "index" = none := selectorToJson_own "index" (by decide)
    simp [stampReadTimeout, AgentCommand.toJson, ElementAction.toJson, Object.opt_put,
      Object.opt_putSome, hown]
  show selectOption agent _ = _
  have hstring : (stampReadTimeout readTimeoutMs
      (AgentCommand.element (.selectOption option index) (selectorToJson s) timeoutMs
        none).toJson.2).optString agent.coercions "option" = option := by
    unfold Object.optString
    rw [hoption]
    cases option <;> rfl
  unfold selectOption Object.has Object.getInt
  dsimp only
  rw [hstring, hindex]
  cases index with
  | none =>
    rcases hcomplete with hsome | ⟨i, hi, -⟩
    · obtain ⟨text, rfl⟩ := Option.isSome_iff_exists.mp hsome
      exact resolveElement_eq hsent
    · cases hi
  | some i =>
    have hnot : ¬(option = none ∧ i < 0) := by
      rintro ⟨rfl, hneg⟩
      rcases hcomplete with hsome | ⟨j, hj, hpos⟩
      · cases hsome
      · obtain rfl := Option.some.inj hj
        omega
    simp only [Option.map_some, Option.isSome_some, if_true, Option.bind_some, if_neg hnot]
    exact resolveElement_eq hsent

/-! ### Typing -/

/-- The text that is typed stands where a text criterion stands. -/
theorem selectorToJson_text (h : ∀ t, s.criterion ≠ some (.text t)) :
    (selectorToJson s).opt "text" = none := by
  obtain ⟨criterion, parent⟩ := s
  have hfields : Object.opt (criterion.elim ([] : Object) criterionToJson) "text" = none := by
    cases criterion with
    | none => rfl
    | some criterion =>
      cases criterion with
      | text t => exact absurd rfl (h t)
      | role role =>
        show (roleToJson role).opt "text" = none
        simp [roleToJson, Object.opt_put, Object.opt_putSome]
        rfl
      | _ => rfl
  unfold selectorToJson
  cases parent with
  | none => exact hfields
  | some parent =>
    dsimp only
    rw [Object.opt_put, if_neg (by decide)]
    exact hfields

/-- Every other criterion, and a parent, says that there is a selector. -/
theorem selectorToJson_has (h : ∀ t, s.criterion ≠ some (.text t))
    (hsome : ¬(s.criterion = none ∧ s.parent = none)) :
    ∃ name ∈ selectorKeys, (selectorToJson s).has name = true := by
  obtain ⟨criterion, parent⟩ := s
  cases parent with
  | some parent =>
    refine ⟨"parent", by decide, ?_⟩
    unfold selectorToJson Object.has
    dsimp only
    rw [Object.opt_put, if_pos rfl]
    rfl
  | none =>
    cases criterion with
    | none => exact absurd ⟨rfl, rfl⟩ hsome
    | some criterion =>
      show ∃ name ∈ selectorKeys, (criterionToJson criterion).has name = true
      cases criterion with
      | text t => exact absurd rfl (h t)
      | role role =>
        refine ⟨"role", by decide, ?_⟩
        exact Object.has_putSome (Object.has_putSome (Object.has_putSome (Object.has_putSome rfl)))
      | textContains t => exact ⟨"textContains", by decide, rfl⟩
      | contentDesc t => exact ⟨"contentDesc", by decide, rfl⟩
      | hint t => exact ⟨"hint", by decide, rfl⟩
      | className t => exact ⟨"className", by decide, rfl⟩
      | testId t => exact ⟨"testId", by decide, rfl⟩
      | resourceId t => exact ⟨"resourceId", by decide, rfl⟩
      | xpath t => exact ⟨"xpath", by decide, rfl⟩
      | label t => exact ⟨"label", by decide, rfl⟩
      | textRegex re => exact ⟨"textRegex", by decide, rfl⟩
      | labelRegex re => exact ⟨"labelRegex", by decide, rfl⟩

/-- The parameters with which text is typed. -/
def typingParams (s : Selector) (text : String) (typingDelayMs timeoutMs : Option ℕ)
    (readTimeoutMs : ℕ) : Object :=
  stampReadTimeout readTimeoutMs
    (AgentCommand.element (.typeText text typingDelayMs) (selectorToJson s) timeoutMs none).toJson.2

variable {text : String} {typingDelayMs timeoutMs : Option ℕ} {readTimeoutMs : ℕ}

theorem typingParams_agree {names : List String} (htyping : "typingDelayMs" ∉ names)
    (htimeout : "timeout" ∉ names) (hread : "readTimeoutMs" ∉ names) :
    Agree names (typingParams s text typingDelayMs timeoutMs readTimeoutMs)
      ((selectorToJson s).put "text" (.str text)) :=
  (((Agree.refl _).putSome htyping _).putSome htimeout _).put hread _

theorem typingParams_text :
    (typingParams s text typingDelayMs timeoutMs readTimeoutMs).optString agent.coercions "text" =
      some text := by
  have h : Agree ["text"] (typingParams s text typingDelayMs timeoutMs readTimeoutMs)
      ((selectorToJson s).put "text" (.str text)) :=
    typingParams_agree (by decide) (by decide) (by decide)
  rw [h.optString (by decide)]
  unfold Object.optString
  rw [Object.opt_put, if_pos rfl]
  rfl

theorem typing_effect :
    (AgentCommand.element (.typeText text typingDelayMs) (selectorToJson s) timeoutMs none).effect
        agent readTimeoutMs =
      if selectorKeys.any (typingParams s text typingDelayMs timeoutMs readTimeoutMs).has then
        resolveElement agent
          ((typingParams s text typingDelayMs timeoutMs readTimeoutMs).remove "text")
      else .typesWithoutFocus text := by
  show typeText agent (typingParams s text typingDelayMs timeoutMs readTimeoutMs) = _
  unfold typeText
  rw [typingParams_text]

/-- An element that is not told by its text is found before text is typed. -/
theorem typing_keeps (htext : ∀ t, s.criterion ≠ some (.text t))
    (hsome : ¬(s.criterion = none ∧ s.parent = none)) :
    (AgentCommand.element (.typeText text typingDelayMs) (selectorToJson s) timeoutMs none).effect
      agent readTimeoutMs = bySelector agent s := by
  rw [typing_effect, if_pos]
  · have htyped : Agree targetNames (typingParams s text typingDelayMs timeoutMs readTimeoutMs)
        ((selectorToJson s).put "text" (.str text)) :=
      typingParams_agree (by decide) (by decide) (by decide)
    exact resolveElement_eq
      ((htyped.remove "text").trans (Agree.remove_put (selectorToJson_text htext) _))
  · obtain ⟨name, hname, hhas⟩ := selectorToJson_has htext hsome
    rw [List.any_eq_true]
    exact ⟨name, hname, Object.has_put (Object.has_putSome (Object.has_putSome
      (Object.has_put hhas)))⟩

/-- Nothing but a text to look for, or nothing at all: the text goes to whatever has the focus. -/
theorem typing_blind (agent : Agent) (text : String) (typingDelayMs timeoutMs : Option ℕ)
    (readTimeoutMs : ℕ) (htext : Agree selectorKeys (selectorToJson s) []) :
    (AgentCommand.element (.typeText text typingDelayMs) (selectorToJson s) timeoutMs none).effect
      agent readTimeoutMs = .typesWithoutFocus text := by
  have hparams : Agree selectorKeys (typingParams s text typingDelayMs timeoutMs readTimeoutMs)
      [] :=
    (typingParams_agree (by decide) (by decide) (by decide)).trans (htext.put (by decide) _)
  rw [typing_effect, if_neg]
  rw [List.any_eq_true]
  rintro ⟨name, hname, hhas⟩
  rw [hparams.has hname] at hhas
  cases hhas

/-- Beside a parent, which is not looked at, a text to look for is lost. -/
theorem typing_text_lost (agent : Agent) (t : String) (parent : Selector) (text : String)
    (typingDelayMs timeoutMs : Option ℕ) (readTimeoutMs : ℕ) :
    (AgentCommand.element (.typeText text typingDelayMs)
        (selectorToJson (.mk (some (.text t)) (some parent))) timeoutMs none).effect agent
        readTimeoutMs = (parseSelectorParams agent []).elim .refused .acts ∧
      parseSelectorParams agent (selectorToJson (.mk (some (.text t)) (some parent))) =
        parseSelectorParams agent [("text", .str t)] := by
  have hsel : ∀ names, "parent" ∉ names → Agree names
      (selectorToJson (.mk (some (.text t)) (some parent))) [("text", .str t)] :=
    fun names hparent => (Agree.refl _).put hparent _
  refine ⟨?_, parseSelectorParams_congr agent (hsel _ (by decide))⟩
  rw [typing_effect, if_pos]
  · have hparams : Agree targetNames ((typingParams (.mk (some (.text t)) (some parent)) text
        typingDelayMs timeoutMs readTimeoutMs).remove "text") [] := by
      have hsent : Agree targetNames (typingParams (.mk (some (.text t)) (some parent)) text
          typingDelayMs timeoutMs readTimeoutMs)
          ((selectorToJson (.mk (some (.text t)) (some parent))).put "text" (.str text)) :=
        typingParams_agree (by decide) (by decide) (by decide)
      intro name hname
      rw [hsent.remove "text" name hname, Object.opt_remove, Object.opt_put]
      by_cases heq : name = "text"
      · rw [if_pos heq]
        rfl
      · rw [if_neg heq, if_neg heq, hsel targetNames (by decide) name hname]
        show Object.opt (Object.put "text" (.str t) []) name = _
        rw [Object.opt_put, if_neg heq]
    have hparse := parseSelectorParams_congr agent
      (hparams.mono fun name hname => List.mem_append_left _ hname : Agree criteria _ _)
    unfold resolveElement
    rw [hparams.optString (by decide), hparse]
    rfl
  · rw [List.any_eq_true]
    refine ⟨"parent", by decide, Object.has_put (Object.has_putSome (Object.has_putSome
      (Object.has_put ?_)))⟩
    unfold selectorToJson Object.has
    dsimp only
    rw [Object.opt_put, if_pos rfl]
    rfl

/-- Where text is typed over the criterion, the target is lost. -/
theorem typing_loses {action : ElementAction} (h : TypesOverCriterion action s) :
    ¬KeepsTarget agent action s timeoutMs readTimeoutMs := by
  obtain ⟨⟨text, typingDelayMs, rfl⟩, hcriterion⟩ := h
  intro hkeeps
  have hblind : ¬Agree selectorKeys (selectorToJson s) [] := by
    intro hagree
    have heffect := typing_blind agent text typingDelayMs timeoutMs readTimeoutMs hagree
    obtain ⟨target, htarget, -⟩ := hkeeps.same (by rw [heffect]; exact Effect.noConfusion)
    rw [heffect] at htarget
    cases htarget
  obtain ⟨criterion, parent⟩ := s
  rcases hcriterion with ⟨t, ht⟩ | ⟨hnone, hparent⟩
  · obtain rfl : criterion = some (.text t) := ht
    cases parent with
    | none => exact hblind ((Agree.refl []).put (by decide) _)
    | some parent =>
      obtain ⟨heffect, hparse⟩ :=
        typing_text_lost agent t parent text typingDelayMs timeoutMs readTimeoutMs
      obtain ⟨target, htarget, hfind⟩ := hkeeps.same (by rw [heffect]; exact Effect.noConfusion)
      have hfound := hfind none 0
      rw [find_effect, hparse] at hfound
      rw [heffect] at htarget
      have hnothing : none = target.text := congrArg ElementSelector.text (Effect.acts.inj htarget)
      have hsomething : some t = target.text :=
        congrArg ElementSelector.text (Effect.finds.inj hfound).1
      cases hnothing.trans hsomething.symm
  · obtain rfl : criterion = none := hnone
    obtain rfl : parent = none := hparent
    exact hblind (Agree.refl [])

/-- A command acts on what a find with its selector looks for, if and only if it does not type text
    over the criterion. -/
theorem keepsTarget_iff (agent : Agent) (action : ElementAction) (s : Selector)
    (timeoutMs : Option ℕ) (readTimeoutMs : ℕ) :
    KeepsTarget agent action s timeoutMs readTimeoutMs ↔ ¬TypesOverCriterion action s := by
  refine ⟨fun hkeeps hover => typing_loses hover hkeeps, fun hnot => .of_bySelector ?_⟩
  have hsent : (∀ text typingDelayMs, action ≠ .typeText text typingDelayMs) → Agree targetNames
      (stampReadTimeout readTimeoutMs
        (AgentCommand.element action (selectorToJson s) timeoutMs none).toJson.2)
      (selectorToJson s) := sent_agree timeoutMs readTimeoutMs
  cases action with
  | typeText text typingDelayMs =>
    refine .inl (typing_keeps (fun t ht => hnot ⟨⟨text, typingDelayMs, rfl⟩, .inl ⟨t, ht⟩⟩)
      fun hnone => hnot ⟨⟨text, typingDelayMs, rfl⟩, .inr hnone⟩)
  | tap => exact .inl (atPointOrElement_eq (hsent (by simp)))
  | longPress durationMs => exact .inl (atPointOrElement_eq (hsent (by simp)))
  | selectOption option index =>
    by_cases hcomplete : (ElementAction.selectOption option index).Complete
    · exact .inl (selectOption_complete hcomplete)
    · exact (selectOption_eq (hsent (by simp))).imp id fun hrefused => ⟨hcomplete, hrefused⟩
  | _ => exact .inl (resolveElement_eq (hsent (by simp)))

/-- An agent that meets with no value of another type than it asks for. -/
def plainAgent : Agent where
  coercions := { string := fun _ => "", boolean := fun _ => none, int := fun _ => none }
  compiles := fun _ _ => true

/-- A password typed into the field that shows "Password" is typed wherever the focus is. -/
theorem typed_without_focus :
    (AgentCommand.element (.typeText "secret" none)
        (selectorToJson (.mk (some (.text "Password")) none)) (some 5000) none).effect plainAgent
        10000 = .typesWithoutFocus "secret" ∧
      ¬KeepsTarget plainAgent (.typeText "secret" none) (.mk (some (.text "Password")) none)
        (some 5000) 10000 := by
  refine ⟨by decide +kernel, fun hkeeps => ?_⟩
  obtain ⟨target, htarget, -⟩ := hkeeps.same (by decide +kernel)
  have hblind : (AgentCommand.element (.typeText "secret" none)
      (selectorToJson (.mk (some (.text "Password")) none)) (some 5000) none).effect plainAgent
      10000 = .typesWithoutFocus "secret" := by decide +kernel
  rw [hblind] at htarget
  cases htarget

end Tapsmith.Command
