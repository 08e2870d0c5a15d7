import Tapsmith.Mcp.LocatorEval

namespace Tapsmith.Mcp.LocatorEval

/-!
# The two passes over a locator string

The check makes no call; the building pass then does what the check let through.

* `Quiet` — a computation that makes no call, with its rules;
* `build_quiet` — the check is one, and notes the use of the WebView;
* `Follows` — where one computation succeeds, so does another one, but for some excuses;
* `build_follows` — the building pass follows the check.
-/

section

variable {H L S α β : Type} {env : Env H L S} {ctx : Context}

/-! ### Rules for computations -/

theorem bind_ok {x : M H L α} {f : α → M H L β} {s s' : State H L} {b : β}
    (h : x.bind f s = (.ok b, s')) : ∃ a s₁, x s = (.ok a, s₁) ∧ f a s₁ = (.ok b, s') := by
  unfold M.bind at h
  split at h
  · rename_i a s₁ hx
    exact ⟨a, s₁, hx, h⟩
  · cases h

theorem bind_of_ok {x : M H L α} {f : α → M H L β} {s s₁ : State H L} {a : α}
    (h : x s = (.ok a, s₁)) : x.bind f s = f a s₁ := by
  rw [M.bind, h]

theorem bind_of_error {x : M H L α} {f : α → M H L β} {s s₁ : State H L} {e : Error}
    (h : x s = (.error e, s₁)) : x.bind f s = (.error e, s₁) := by
  rw [M.bind, h]

/-- A computation that makes no call and no connection, fails with refusals only, and notes a use
    of the WebView just where `uses` says so; `Q` is what its results keep to. -/
structure Quiet (uses : Bool) (x : M H L α) (Q : α → Prop) : Prop where
  calls : ∀ s, (x s).2.calls = s.calls
  connected : ∀ s, (x s).2.connected = s.connected
  error : ∀ s e s', x s = (.error e, s') → ∃ message, e = .locator message
  ok : ∀ s a s', x s = (.ok a, s') → s'.usesWebview = (s.usesWebview || uses) ∧ Q a

theorem Quiet.pure {Q : α → Prop} {a : α} (h : Q a) : Quiet false (M.pure a : M H L α) Q := by
  refine ⟨fun _ => rfl, fun _ => rfl, fun s e s' he => ?_, fun s b s' hb => ?_⟩
  · cases he
  · cases hb
    exact ⟨(Bool.or_false _).symm, h⟩

theorem Quiet.refused {uses : Bool} {Q : α → Prop} (source reason : String) :
    Quiet uses (refuse source reason : M H L α) Q := by
  refine ⟨fun _ => rfl, fun _ => rfl, fun s e s' he => ?_, fun s b s' hb => ?_⟩
  · cases he
    exact ⟨_, rfl⟩
  · cases hb

theorem Quiet.bind {uses : Bool} {x : M H L α} {f : α → M H L β} {Q : α → Prop} {R : β → Prop}
    (hx : Quiet uses x Q) (hf : ∀ a, Q a → Quiet false (f a) R) : Quiet uses (x.bind f) R := by
  have hsplit : ∀ s, (∃ e s', x s = (.error e, s')) ∨ ∃ a s₁, x s = (.ok a, s₁) ∧ Q a := by
    intro s
    cases hxs : x s with
    | mk r s₁ =>
      cases r with
      | error e => exact .inl ⟨e, s₁, rfl⟩
      | ok a => exact .inr ⟨a, s₁, rfl, (hx.ok s a s₁ hxs).2⟩
  refine ⟨fun s => ?_, fun s => ?_, fun s e s' he => ?_, fun s b s' hb => ?_⟩
  · rcases hsplit s with ⟨e, s', hxs⟩ | ⟨a, s₁, hxs, hq⟩
    · rw [bind_of_error hxs, ← hx.calls s, hxs]
    · rw [bind_of_ok hxs, (hf a hq).calls s₁, ← hx.calls s, hxs]
  · rcases hsplit s with ⟨e, s', hxs⟩ | ⟨a, s₁, hxs, hq⟩
    · rw [bind_of_error hxs, ← hx.connected s, hxs]
    · rw [bind_of_ok hxs, (hf a hq).connected s₁, ← hx.connected s, hxs]
  · rcases hsplit s with ⟨e', s₁, hxs⟩ | ⟨a, s₁, hxs, hq⟩
    · rw [bind_of_error hxs] at he
      cases he
      exact hx.error s e s' hxs
    · rw [bind_of_ok hxs] at he
      exact (hf a hq).error s₁ e s' he
  · obtain ⟨a, s₁, ha, hb⟩ := bind_ok hb
    obtain ⟨huses, hq⟩ := hx.ok s a s₁ ha
    obtain ⟨huses', hr⟩ := (hf a hq).ok s₁ b s' hb
    exact ⟨by rw [huses', huses, Bool.or_false], hr⟩

/-- A computation that never succeeds notes no use. -/
theorem Quiet.of_refusal {u v : Bool} {x : M H L α} {f : α → M H L β} {Q : α → Prop}
    {R : β → Prop} (hx : Quiet u x Q) (hf : ∀ a, Q a → ∃ source reason, f a = refuse source reason) :
    Quiet v (x.bind f) R := by
  have hquiet : Quiet u (x.bind f) fun _ => False := hx.bind fun a ha => by
    obtain ⟨source, reason, heq⟩ := hf a ha
    rw [heq]
    exact .refused source reason
  exact ⟨hquiet.calls, hquiet.connected, hquiet.error,
    fun s b s' hb => (hquiet.ok s b s' hb).2.elim⟩

theorem Quiet.mono {uses : Bool} {x : M H L α} {Q R : α → Prop} (h : Quiet uses x Q)
    (himp : ∀ a, Q a → R a) : Quiet uses x R :=
  ⟨h.calls, h.connected, h.error, fun s a s' ha => (h.ok s a s' ha).imp_right (himp a)⟩

/-- How the building pass may still fail after the check: in a call, and, where `plain` says so,
    with an operand of `filter` that is no single getter. -/
def Excused (source : String) (plain : Bool) (e : Error) : Prop :=
  (∃ message, e = .sdk message) ∨
    plain = true ∧ ∃ what, e = .locator (refusal source (needsSingleGetter what))

/-- Where the check `x` succeeds, the building `y` does too, or has such an excuse. -/
def Follows (source : String) (plain : Bool) (x : M H L α) (y : M H L β) (R : α → β → Prop) :
    Prop :=
  ∀ s a s', x s = (.ok a, s') → ∀ t,
    (∃ b t', y t = (.ok b, t') ∧ R a b) ∨ ∃ e t', y t = (.error e, t') ∧ Excused source plain e

theorem Follows.pure {source : String} {plain : Bool} {R : α → β → Prop} {a : α} {b : β}
    (h : R a b) : Follows source plain (M.pure a : M H L α) (M.pure b) R := by
  intro s a' s' ha t
  cases ha
  exact .inl ⟨b, t, rfl, h⟩

theorem Follows.refused {source : String} {plain : Bool} {R : α → β → Prop} (source' reason : String)
    (y : M H L β) : Follows source plain (refuse source' reason : M H L α) y R := by
  intro s a' s' ha
  cases ha

theorem Follows.bind {γ δ : Type} {source : String} {plain : Bool} {x : M H L α} {y : M H L β}
    {f : α → M H L γ} {g : β → M H L δ} {R : α → β → Prop} {T : γ → δ → Prop}
    (hx : Follows source plain x y R) (hf : ∀ a b, R a b → Follows source plain (f a) (g b) T) :
    Follows source plain (x.bind f) (y.bind g) T := by
  intro s c s' hc t
  obtain ⟨a, s₁, ha, hc⟩ := bind_ok hc
  rcases hx s a s₁ ha t with ⟨b, t₁, hb, hr⟩ | ⟨e, t₁, he, hexc⟩
  · rw [bind_of_ok hb]
    exact hf a b hr s₁ c s' hc t₁
  · exact .inr ⟨e, t₁, bind_of_error he, hexc⟩

/-- The same, where the check's result is known to keep to `Q`. -/
theorem Follows.bind_quiet {γ δ : Type} {source : String} {plain uses : Bool} {x : M H L α}
    {y : M H L β} {f : α → M H L γ} {g : β → M H L δ} {Q : α → Prop} {R : α → β → Prop}
    {T : γ → δ → Prop} (hq : Quiet uses x Q) (hx : Follows source plain x y R)
    (hf : ∀ a b, Q a → R a b → Follows source plain (f a) (g b) T) :
    Follows source plain (x.bind f) (y.bind g) T := by
  refine Follows.bind (R := fun a b => Q a ∧ R a b) ?_ fun a b hab => hf a b hab.1 hab.2
  intro s a s' ha t
  exact (hx s a s' ha t).imp_left fun ⟨b, t', hb, hr⟩ =>
    ⟨b, t', hb, (hq.ok s a s' ha).2, hr⟩

theorem Follows.of_not_ok {source : String} {plain : Bool} {x : M H L α} {y : M H L β}
    {R : α → β → Prop} (h : ∀ s a s', x s ≠ (.ok a, s')) : Follows source plain x y R :=
  fun s a s' ha => absurd ha (h s a s')

/-! ### The checking pass -/

/-- The receiver at the front of a chain of calls is the WebView. -/
def webviewRooted : Node → Bool
  | .identifier name => rootNamed name = some .webview
  | .member object computed property => rootOf (.member object computed property) = some .webview
  | .call (.member object _ _) _ _ => webviewRooted object
  | _ => false

def Built.isWebview : Built H L → Bool
  | .webviewRoot | .webview _ => true
  | _ => false

theorem buildRoot_quiet (root : Root) : Quiet (decide (some root = some Root.webview))
    (buildRoot root : M H L (Built H L)) fun b => b.isWebview = decide (some root = some Root.webview) := by
  cases root with
  | device => exact .pure rfl
  | webview =>
    refine ⟨fun _ => rfl, fun _ => rfl, fun s e s' he => ?_, fun s b s' hb => ?_⟩
    · cases he
    · cases hb
      exact ⟨(Bool.or_true _).symm, rfl⟩

theorem refuseMethod_eq (source : String) (target : Built H L) (method : String) : ∃ reason,
    (refuseMethod source target method : M H L α) = refuse source reason := by
  unfold refuseMethod
  split
  · exact ⟨_, rfl⟩
  · cases target <;> exact ⟨_, rfl⟩

/-- A literal has a value, or is refused. -/
theorem literalOf_cases (source : String) (node : Node) :
    (∃ p, (literalOf env source node : M H L Primitive) = .pure p) ∨
      ∃ reason, (literalOf env source node : M H L Primitive) = refuse source reason := by
  unfold literalOf
  repeat' split
  all_goals first
    | exact .inl ⟨_, rfl⟩
    | exact .inr ⟨_, rfl⟩


theorem value_quiet (hdry : ctx.dry = true) {uses : Bool} {built : M H L (Built H L)}
    (hbuilt : Quiet uses built fun b => b.isWebview = uses) (node : Node) (type : ValueType)
    (what : String) : Quiet false (value env ctx built node type what) fun _ => True := by
  unfold value
  split
  · cases uses with
    | false =>
      refine hbuilt.bind fun b _ => ?_
      cases b with
      | native handle =>
        dsimp only
        rw [if_neg fun h => by rw [hdry] at h; exact absurd h.2 (by decide)]
        exact .pure trivial
      | _ => exact .refused _ _
    | true =>
      apply Quiet.of_refusal hbuilt
      intro b hb
      cases b with
      | webviewRoot => exact ⟨_, _, rfl⟩
      | webview => exact ⟨_, _, rfl⟩
      | _ => cases hb
  · rcases literalOf_cases ctx.source node with ⟨p, heq⟩ | ⟨reason, heq⟩ <;> rw [heq]
    · refine (Quiet.pure (Q := fun _ => True) trivial).bind fun p _ => ?_
      split
      · exact .pure trivial
      · exact .refused _ _
    · exact (Quiet.refused (Q := fun _ => False) _ _).bind fun _ h => h.elim

theorem call_quiet (hdry : ctx.dry = true) (target : Built H L) (method : String) (args : Nodes)
    {loop : List Param → M H L (List (Value H))}
    (hloop : ∀ params : List Param, args.length ≤ params.length →
      Quiet false (loop params) fun _ => True) :
    Quiet false (call env ctx target method args loop) fun b => b.isWebview = target.isWebview := by
  unfold call
  split
  · rename_i params _
    unfold buildArgs
    split
    · exact Quiet.bind (Q := fun _ => False) (.refused _ _) fun _ h => h.elim
    · rename_i hcount
      rw [not_or, Nat.not_lt, Nat.not_lt] at hcount
      refine (hloop params hcount.2).bind fun as _ => ?_
      unfold perform
      rw [if_pos hdry]
      cases target <;> exact .pure rfl
  · obtain ⟨reason, heq⟩ := @refuseMethod_eq H L (Built H L) ctx.source target method
    rw [heq]
    exact .refused _ _

mutual

/-- The check makes no call, and notes the use of the WebView. -/
theorem build_quiet (hdry : ctx.dry = true) : ∀ node : Node,
    Quiet (webviewRooted node) (build env ctx node) fun b => b.isWebview = webviewRooted node
  | .identifier name => by
    rw [build, webviewRooted]
    split
    · rename_i root hroot
      rw [hroot]
      exact buildRoot_quiet root
    · exact .refused _ _
  | .member object computed property => by
    rw [build, webviewRooted]
    split
    · rename_i root hroot
      rw [hroot]
      exact buildRoot_quiet root
    · split <;> exact .refused _ _
  | .call (.identifier name) optional args => by
    rw [build]
    show Quiet false _ fun b : Built H L => b.isWebview = false
    split
    · exact call_quiet hdry .device name args fun params hcount =>
        argsFrom_quiet hdry args params hcount name 1
    · exact .refused _ _
  | .call (.member object computed property) optional args => by
    rw [build, webviewRooted]
    split
    · exact .refused _ _
    · split
      · exact .refused _ _
      · split
        · exact .refused _ _
        · split
          · exact .refused _ _
          · rename_i method _
            exact (build_quiet hdry object).bind fun target htarget =>
              (call_quiet hdry target method args fun params hcount =>
                argsFrom_quiet hdry args params hcount method 1).mono fun b hb => hb.trans htarget
  | .call .this _ _ => .refused _ _
  | .call .super _ _ => .refused _ _
  | .call (.call _ _ _) _ _ => .refused _ _
  | .call (.object _) _ _ => .refused _ _
  | .call (.literal _) _ _ => .refused _ _
  | .call (.template _ _) _ _ => .refused _ _
  | .call (.unary _ _) _ _ => .refused _ _
  | .call (.other _) _ _ => .refused _ _
  | .this => .refused _ _
  | .super => .refused _ _
  | .object _ => .refused _ _
  | .literal _ => .refused _ _
  | .template _ _ => .refused _ _
  | .unary _ _ => .refused _ _
  | .other _ => .refused _ _

theorem argsFrom_quiet (hdry : ctx.dry = true) : ∀ (nodes : Nodes) (params : List Param),
    nodes.length ≤ params.length → ∀ (method : String) (i : ℕ),
    Quiet false (argsFrom env ctx nodes params method i) fun _ => True
  | .nil, params, _, method, i => by
    rw [argsFrom]
    exact .pure trivial
  | .cons node rest, [], hcount, method, i => absurd hcount (Nat.not_succ_le_zero _)
  | .cons node rest, param :: params, hcount, method, i => by
    rw [argsFrom]
    refine Quiet.bind (Q := fun _ => True) ?_ fun a _ => ?_
    · split
      · exact value_quiet hdry (build_quiet hdry node) node _ _
      · exact options_quiet hdry node _ _ method
    · exact (argsFrom_quiet hdry rest params (Nat.le_of_succ_le_succ hcount) method (i + 1)).bind
        fun as _ => .pure trivial

theorem options_quiet (hdry : ctx.dry = true) : ∀ (node : Node)
    (schema : List (String × ValueType)) (atLeastOne : Bool) (method : String),
    Quiet false (options env ctx node schema atLeastOne method) fun _ => True
  | .object properties, schema, atLeastOne, method => by
    rw [options]
    refine (fields_quiet hdry properties schema method []).bind fun out _ => ?_
    split
    · exact .refused _ _
    · exact .pure trivial
  | .identifier _, _, _, _ => .refused _ _
  | .this, _, _, _ => .refused _ _
  | .super, _, _, _ => .refused _ _
  | .member _ _ _, _, _, _ => .refused _ _
  | .call _ _ _, _, _, _ => .refused _ _
  | .literal _, _, _, _ => .refused _ _
  | .template _ _, _, _, _ => .refused _ _
  | .unary _ _, _, _, _ => .refused _ _
  | .other _, _, _, _ => .refused _ _

theorem fields_quiet (hdry : ctx.dry = true) : ∀ (properties : Properties)
    (schema : List (String × ValueType)) (method : String) (out : List (String × Value H)),
    Quiet false (fields env ctx properties schema method out) fun _ => True
  | .nil, schema, method, out => by
    rw [fields]
    exact .pure trivial
  | .spread rest, schema, method, out => by
    rw [fields]
    exact .refused _ _
  | .property computed kind isMethod key shorthand v rest, schema, method, out => by
    rw [fields]
    repeat' split
    all_goals first
      | exact .refused _ _
      | exact (value_quiet hdry (build_quiet hdry v) v _ _).bind fun a _ =>
          fields_quiet hdry rest schema method _

end

/-! ### The building pass -/

def ValueType.isLocator (type : ValueType) : Bool :=
  type = .nativeLocator || type = .plainNativeLocator

/-- The argument may hold a locator. -/
def ParamType.locates : ParamType → Bool
  | .value type => type.isLocator
  | .options schema _ => schema.any fun e => e.2.isLocator

/-- A placeholder of the check, and what is built in its place. -/
inductive SameKind : Built H L → Built H L → Prop
  | device : SameKind .device .device
  | webviewRoot : SameKind .webviewRoot .webviewRoot
  | native (h : H) : SameKind (.native none) (.native (some h))
  | webview (l : L) : SameKind (.webview none) (.webview (some l))

theorem SameKind.methodsOf_eq {a b : Built H L} (h : SameKind a b) : methodsOf a = methodsOf b := by
  cases h <;> rfl

theorem mem_of_lookup {α : Type} {key : String} {v : α} {l : List (String × α)}
    (h : l.lookup key = some v) : (key, v) ∈ l := by
  induction l with
  | nil => cases h
  | cons e l ih =>
    rw [List.lookup_cons] at h
    split at h
    · rename_i heq
      cases h
      rw [eq_of_beq heq]
      exact List.mem_cons_self
    · exact List.mem_cons_of_mem _ (ih h)

/-- On the WebView, no method takes a locator. -/
theorem webview_locates {a : Built H L} (ha : a.isWebview = true) {method : String}
    {params : List Param} (h : (methodsOf a).lookup method = some params) :
    ∀ p ∈ params, p.type.locates = false := by
  have hgetters : ∀ e ∈ webviewGetters, ∀ p ∈ e.2, p.type.locates = false := by decide
  have hpositions : ∀ e ∈ positions, ∀ p ∈ e.2, p.type.locates = false := by decide
  cases a with
  | webviewRoot => exact hgetters _ (mem_of_lookup h)
  | webview l => exact hpositions _ (mem_of_lookup h)
  | _ => cases ha

variable {source : String} {webview plain : Bool}

theorem invokeNative_follows (c : Call H L) :
    Follows source plain (M.pure (.native none) : M H L (Built H L)) (invokeNative env c)
      SameKind := by
  intro s a s' ha t
  cases ha
  unfold invokeNative
  cases env.native t.calls c with
  | ok h => exact .inl ⟨_, _, rfl, .native h⟩
  | error message => exact .inr ⟨_, _, rfl, .inl ⟨message, rfl⟩⟩

theorem invokeWebview_follows (c : Call H L) :
    Follows source plain (M.pure (.webview none) : M H L (Built H L)) (invokeWebview env c)
      SameKind := by
  intro s a s' ha t
  cases ha
  unfold invokeWebview
  cases env.webview t.calls c with
  | ok l => exact .inl ⟨_, _, rfl, .webview l⟩
  | error message => exact .inr ⟨_, _, rfl, .inl ⟨message, rfl⟩⟩

theorem perform_follows {a b : Built H L} (hab : SameKind a b)
    (hweb : a = .webviewRoot → webview = true) (method : String) (args args' : List (Value H)) :
    Follows source plain (perform env (dryContext source) a method args)
      (perform env (realContext source webview) b method args') SameKind := by
  cases hab with
  | device => exact invokeNative_follows _
  | native handle => exact invokeNative_follows _
  | webviewRoot =>
    obtain rfl := hweb rfl
    exact invokeWebview_follows _
  | webview locator => exact invokeWebview_follows _

theorem call_follows {a b : Built H L} (hab : SameKind a b) (hweb : a = .webviewRoot → webview = true)
    (hplain : a.isWebview = false → plain = true) (method : String) (args : Nodes)
    {loop loop' : List Param → M H L (List (Value H))}
    (hloop : ∀ params : List Param, (plain = false → ∀ p ∈ params, p.type.locates = false) →
      Follows source plain (loop params) (loop' params) fun _ _ => True) :
    Follows source plain (call env (dryContext source) a method args loop)
      (call env (realContext source webview) b method args loop') SameKind := by
  unfold call
  rw [← hab.methodsOf_eq]
  split
  · rename_i params hparams
    have hlocates : plain = false → ∀ p ∈ params, p.type.locates = false := by
      intro hfalse
      apply webview_locates _ hparams
      by_contra hcon
      rw [hplain (eq_false_of_ne_true hcon)] at hfalse
      cases hfalse
    unfold buildArgs
    split
    · exact (Follows.refused (R := fun _ _ => True) _ _ _).bind fun _ _ _ =>
        perform_follows hab hweb method _ _
    · exact (hloop params hlocates).bind fun as as' _ => perform_follows hab hweb method as as'
  · obtain ⟨reason, heq⟩ := @refuseMethod_eq H L (Built H L) source a method
    rw [show (dryContext source).source = source from rfl, heq]
    exact .refused _ _ _

theorem value_follows {built built' : M H L (Built H L)} {rooted : Bool} {type : ValueType}
    (hquiet : Quiet rooted built fun b => b.isWebview = rooted)
    (hbuilt : rooted = false → Follows source true built built' SameKind)
    (hplain : type.isLocator = true → plain = true) (node : Node) (what : String) :
    Follows source plain (value env (dryContext source) built node type what)
      (value env (realContext source webview) built' node type what) fun _ _ => True := by
  unfold value
  split
  · rename_i htype
    have htype : type.isLocator = true := by
      rcases htype with rfl | rfl <;> rfl
    obtain rfl := hplain htype
    cases rooted with
    | true =>
      -- the check refuses a locator of the WebView
      apply Follows.of_not_ok
      intro s a s' ha
      obtain ⟨b, s₁, hb, ha⟩ := bind_ok ha
      have hkind := (hquiet.ok s b s₁ hb).2
      cases b with
      | webviewRoot => cases ha
      | webview => cases ha
      | _ => cases hkind
    | false =>
      refine (hbuilt rfl).bind fun b b' hkind => ?_
      cases hkind with
      | native h =>
        dsimp only
        rw [if_neg fun hcon => absurd hcon.2 Bool.true_eq_false.mp]
        split
        · split
          · exact .pure trivial
          · intro s a s' _ t
            exact .inr ⟨_, t, rfl, .inr ⟨rfl, what, rfl⟩⟩
        · exact .pure trivial
      | _ => exact .refused _ _ _
  · rw [show (dryContext source).source = source from rfl,
      show (realContext source webview).source = source from rfl]
    rcases literalOf_cases source node with ⟨p, heq⟩ | ⟨reason, heq⟩ <;> rw [heq]
    · refine (Follows.pure (R := Eq) rfl).bind fun p p' hp => ?_
      obtain rfl := hp
      split
      · exact .pure trivial
      · exact .refused _ _ _
    · exact (Follows.refused (R := Eq) _ _ _).bind fun p p' hp => by
        obtain rfl := hp
        split
        · exact .pure trivial
        · exact .refused _ _ _

theorem lookup_isSome_of_keys {α : Type} {l l' : List (String × α)}
    (h : l.map Prod.fst = l'.map Prod.fst) (key : String) :
    (l.lookup key).isSome = (l'.lookup key).isSome := by
  induction l generalizing l' with
  | nil =>
    rw [List.map_nil, eq_comm, List.map_eq_nil_iff] at h
    rw [h]
  | cons e l ih =>
    cases l' with
    | nil => cases h
    | cons e' l' =>
      rw [List.map_cons, List.map_cons] at h
      obtain ⟨hkey, hrest⟩ := List.cons.inj h
      rw [List.lookup_cons, List.lookup_cons, hkey]
      split
      · rfl
      · exact ih hrest

theorem buildRoot_follows {root : Root} :
    Follows source plain (buildRoot root : M H L (Built H L)) (buildRoot root) SameKind := by
  intro s a s' ha t
  cases root with
  | device =>
    cases ha
    exact .inl ⟨_, _, rfl, .device⟩
  | webview =>
    cases ha
    exact .inl ⟨_, _, rfl, .webviewRoot⟩

/-- What follows the check of an argument, which may not start at the WebView. -/
theorem Follows.of_native {rooted : Bool} {x : M H L α} {y : M H L β} {R : α → β → Prop}
    (h : (rooted = true → webview = true) → Follows source (!rooted) x y R)
    (hrooted : rooted = false) : Follows source true x y R := by
  obtain rfl := hrooted
  exact h Bool.false_ne_true.elim

mutual

/-- **The building pass follows the check**: it builds what the check let through, unless a call
    throws or the operand of a `filter` is no single getter. -/
theorem build_follows : ∀ node : Node, (webviewRooted node = true → webview = true) →
    Follows source (!webviewRooted node) (build env (dryContext source) node)
      (build env (realContext source webview) node) SameKind
  | .identifier name, _ => by
    rw [build, build]
    split
    · exact buildRoot_follows
    · exact .refused _ _ _
  | .member object computed property, _ => by
    rw [build, build]
    split
    · exact buildRoot_follows
    · split <;> exact .refused _ _ _
  | .call (.identifier name) optional args, _ => by
    rw [build, build]
    split
    · exact call_follows .device (fun hcon => by cases hcon) (fun _ => rfl) name args
        fun params hparams => argsFrom_follows _ args params hparams name 1
    · exact .refused _ _ _
  | .call (.member object computed property) optional args, hweb => by
    rw [build, build]
    split
    · exact .refused _ _ _
    · split
      · exact .refused _ _ _
      · split
        · exact .refused _ _ _
        · split
          · exact .refused _ _ _
          · rename_i method _
            refine (build_follows object hweb).bind_quiet (build_quiet rfl object)
              fun target target' hkind hsame => call_follows hsame ?_ ?_ method args
                fun params hparams => argsFrom_follows _ args params hparams method 1
            · rintro rfl
              exact hweb hkind.symm
            · intro hnative
              rw [webviewRooted, ← hkind, hnative]
              rfl
  | .call .this _ _, _ => .refused _ _ _
  | .call .super _ _, _ => .refused _ _ _
  | .call (.call _ _ _) _ _, _ => .refused _ _ _
  | .call (.object _) _ _, _ => .refused _ _ _
  | .call (.literal _) _ _, _ => .refused _ _ _
  | .call (.template _ _) _ _, _ => .refused _ _ _
  | .call (.unary _ _) _ _, _ => .refused _ _ _
  | .call (.other _) _ _, _ => .refused _ _ _
  | .this, _ => .refused _ _ _
  | .super, _ => .refused _ _ _
  | .object _, _ => .refused _ _ _
  | .literal _, _ => .refused _ _ _
  | .template _ _, _ => .refused _ _ _
  | .unary _ _, _ => .refused _ _ _
  | .other _, _ => .refused _ _ _

theorem argsFrom_follows : ∀ (plain : Bool) (nodes : Nodes) (params : List Param),
    (plain = false → ∀ p ∈ params, p.type.locates = false) → ∀ (method : String) (i : ℕ),
    Follows source plain (argsFrom env (dryContext source) nodes params method i)
      (argsFrom env (realContext source webview) nodes params method i) fun _ _ => True
  | plain, .nil, params, _, method, i => by
    rw [argsFrom, argsFrom]
    exact .pure trivial
  | plain, .cons node rest, [], _, method, i => by
    rw [argsFrom]
    apply Follows.of_not_ok
    intro s a s' ha
    cases ha
  | plain, .cons node rest, param :: params, hparams, method, i => by
    rw [argsFrom, argsFrom]
    refine Follows.bind (R := fun _ _ => True) ?_ fun a b _ => ?_
    · split
      · rename_i type htype
        refine value_follows (build_quiet rfl node) (Follows.of_native (build_follows node))
          (fun hlocator => ?_) node _
        by_contra hcon
        have hlocates := hparams (eq_false_of_ne_true hcon) param List.mem_cons_self
        rw [htype, ParamType.locates, hlocator] at hlocates
        cases hlocates
      · rename_i schema atLeastOne htype
        refine options_follows plain node schema (fun hfalse e he => ?_) atLeastOne method
        have hlocates := hparams hfalse param List.mem_cons_self
        rw [htype, ParamType.locates, List.any_eq_false] at hlocates
        exact eq_false_of_ne_true (hlocates e he)
    · exact (argsFrom_follows plain rest params (fun hfalse p hp => hparams hfalse p
        (List.mem_cons_of_mem _ hp)) method (i + 1)).bind fun as bs _ => .pure trivial

theorem options_follows : ∀ (plain : Bool) (node : Node) (schema : List (String × ValueType)),
    (plain = false → ∀ e ∈ schema, e.2.isLocator = false) → ∀ (atLeastOne : Bool) (method : String),
    Follows source plain (options env (dryContext source) node schema atLeastOne method)
      (options env (realContext source webview) node schema atLeastOne method) fun _ _ => True
  | plain, .object properties, schema, hschema, atLeastOne, method => by
    rw [options, options]
    refine (fields_follows plain properties schema hschema method [] [] rfl).bind fun out out' hkeys => ?_
    have hempty : out = [] ↔ out' = [] := by
      rw [← List.map_eq_nil_iff (f := Prod.fst), hkeys, List.map_eq_nil_iff]
    split
    · exact .refused _ _ _
    · rename_i hsome
      rw [if_neg fun hcon => hsome ⟨hcon.1, hempty.mpr hcon.2⟩]
      exact .pure trivial
  | _, .identifier _, _, _, _, _ => .refused _ _ _
  | _, .this, _, _, _, _ => .refused _ _ _
  | _, .super, _, _, _, _ => .refused _ _ _
  | _, .member _ _ _, _, _, _, _ => .refused _ _ _
  | _, .call _ _ _, _, _, _, _ => .refused _ _ _
  | _, .literal _, _, _, _, _ => .refused _ _ _
  | _, .template _ _, _, _, _, _ => .refused _ _ _
  | _, .unary _ _, _, _, _, _ => .refused _ _ _
  | _, .other _, _, _, _, _ => .refused _ _ _

theorem fields_follows : ∀ (plain : Bool) (properties : Properties) (schema : List (String × ValueType)),
    (plain = false → ∀ e ∈ schema, e.2.isLocator = false) → ∀ (method : String)
    (out out' : List (String × Value H)), out.map Prod.fst = out'.map Prod.fst →
    Follows source plain (fields env (dryContext source) properties schema method out)
      (fields env (realContext source webview) properties schema method out')
      fun a b => a.map Prod.fst = b.map Prod.fst
  | plain, .nil, schema, _, method, out, out', hkeys => by
    rw [fields, fields]
    exact .pure hkeys
  | plain, .spread rest, schema, _, method, out, out', _ => by
    rw [fields]
    exact .refused _ _ _
  | plain, .property computed kind isMethod key shorthand v rest, schema, hschema, method, out, out',
      hkeys => by
    rw [fields, fields]
    split
    · exact .refused _ _ _
    · split
      · exact .refused _ _ _
      · split
        · exact .refused _ _ _
        · rename_i name _
          rw [lookup_isSome_of_keys hkeys name]
          split
          · exact .refused _ _ _
          · split
            · exact .refused _ _ _
            · split
              · exact .refused _ _ _
              · rename_i type htype
                split
                · exact .refused _ _ _
                · refine Follows.bind (R := fun _ _ => True) (value_follows (build_quiet rfl v)
                    (Follows.of_native (build_follows v)) (fun hlocator => ?_) v _) fun a b _ => ?_
                  · by_contra hcon
                    have hlocates := hschema (eq_false_of_ne_true hcon) _ (mem_of_lookup htype)
                    rw [hlocator] at hlocates
                    cases hlocates
                  · apply fields_follows plain rest schema hschema method
                    rw [List.map_append, List.map_append, hkeys]
                    rfl

end

end

end Tapsmith.Mcp.LocatorEval
