import Mathlib.Data.List.Forall2
import Mathlib.Data.List.Nodup
import Tapsmith.Mcp.LocatorCheck

namespace Tapsmith.Mcp.LocatorEval

/-!
# The calls of a locator string

What the interpreter lets through means what it means in JavaScript, and no other calls are made
than those of the allowlist.

* `js` — the plain evaluation of an expression, without any check;
* `Allowed` — a call the allowlist has, with arguments of its types;
* `Runs` — the building pass makes allowed calls only, and agrees with the plain evaluation;
* `calls_allowed`, `agrees_with_js`, `failed_evaluation` — what this says of `evaluateLocator`.
-/

section

variable {H L S α β γ δ : Type}

/-! ### Plain evaluation -/

/-- A value of the plain evaluation. -/
inductive Js (H L : Type) where
  | object (b : Built H L)
  | primitive (p : Primitive)
  | options (fields : List (String × Value H))

/-- The value as an argument of a builder call; a builder takes no root and no WebView locator. -/
def Js.arg : Js H L → Option (Value H)
  | .object (.native handle) => some (.handle handle)
  | .object _ => none
  | .primitive p => some (.primitive p)
  | .options fields => some (.options fields)

def Value.js : Value H → Js H L
  | .handle h => .object (.native h)
  | .primitive p => .primitive p
  | .options fields => .options fields

theorem Value.arg_js (v : Value H) : (v.js : Js H L).arg = some v := by
  cases v <;> rfl

/-- An evaluation from the calls so far; `none` where it throws, or is not described here. -/
abbrev Plain (H L α : Type) := List (Call H L) → Option (α × List (Call H L))

namespace Plain

def pure (a : α) : Plain H L α := fun calls => some (a, calls)

def none : Plain H L α := fun _ => Option.none

def bind (x : Plain H L α) (f : α → Plain H L β) : Plain H L β := fun calls =>
  (x calls).bind fun r => f r.1 r.2

def ofOption (o : Option α) : Plain H L α := o.elim none pure

end Plain

variable (env : Env H L S)

/-- A method call on an object of the SDK. -/
def jsCall (target : Js H L) (method : String) (args : List (Value H)) : Plain H L (Js H L) :=
  match target with
  | .object b => fun calls =>
    if b.isWebview then
      (env.webview calls { target := b, method, args }).toOption.map fun l =>
        (.object (.webview (some l)), calls ++ [{ target := b, method, args }])
    else
      (env.native calls { target := b, method, args }).toOption.map fun h =>
        (.object (.native (some h)), calls ++ [{ target := b, method, args }])
  | _ => .none

def Root.object : Root → Built H L
  | .device => .device
  | .webview => .webviewRoot

/-- The value of a literal. -/
def Literal.js : Literal → Option Primitive
  | .string s => some (.string s)
  | .number n => some (.number n)
  | .boolean b => some (.boolean b)
  | .regex pattern flags => if env.regexError pattern flags = none then some (.regex pattern flags) else none
  | _ => none

def Js.negate : Js H L → Option (Js H L)
  | .primitive (.number n) => some (.primitive (.number n.neg))
  | _ => none

mutual

/-- Plain evaluation: a name is a root, and a function name alone is a method of the device. -/
def js : Node → Plain H L (Js H L)
  | .identifier name => Plain.ofOption ((rootNamed name).map fun r => .object r.object)
  | .member object computed property =>
    Plain.ofOption ((rootOf (.member object computed property)).map fun r => .object r.object)
  | .call (.identifier method) _ args =>
    (jsArgs args).bind fun as => jsCall env (.object .device) method as
  | .call (.member object _ property) _ args =>
    (js object).bind fun target => (jsArgs args).bind fun as =>
      (identifierName property).elim Plain.none fun method => jsCall env target method as
  | .literal v => Plain.ofOption ((v.js env).map .primitive)
  | .template cooked .nil => Plain.pure (.primitive (.string cooked))
  | .unary operator argument =>
    if operator = "-" then (js argument).bind fun v => Plain.ofOption v.negate else Plain.none
  | .object properties => (jsFields properties).bind fun fields => Plain.pure (.options fields)
  | _ => Plain.none

def jsArgs : Nodes → Plain H L (List (Value H))
  | .nil => Plain.pure []
  | .cons node rest =>
    (js node).bind fun v => (Plain.ofOption v.arg).bind fun a =>
      (jsArgs rest).bind fun as => Plain.pure (a :: as)

def jsFields : Properties → Plain H L (List (String × Value H))
  | .nil => Plain.pure []
  | .spread _ => Plain.none
  | .property _ _ _ key _ v rest =>
    (js v).bind fun v => (Plain.ofOption v.arg).bind fun a =>
      (optionName key).elim Plain.none fun name =>
        (jsFields rest).bind fun fields => Plain.pure ((name, a) :: fields)

end

/-! ### The allowlist -/

/-- A handle or locator that is there, on a WebView that is connected. -/
def Built.Solid (webview : Bool) : Built H L → Prop
  | .native handle => ∃ h, handle = some h
  | .webview locator => (∃ l, locator = some l) ∧ webview = true
  | _ => True

def Value.HasType : Value H → ValueType → Prop
  | .primitive p, type => p.ok type = true
  | .handle o, type => ∃ h, o = some h ∧
    (type = .nativeLocator ∨ type = .plainNativeLocator ∧ ∃ sel, env.plainSelector h = some sel)
  | .options _, _ => False

/-- The value is one that the parameter takes. -/
def Value.Fits (v : Value H) : ParamType → Prop
  | .value type => v.HasType env type
  | .options schema atLeastOne => ∃ fields, v = .options fields ∧
    (∀ f ∈ fields, ∃ type, schema.lookup f.1 = some type ∧ f.2.HasType env type) ∧
    (fields.map Prod.fst).Nodup ∧ (atLeastOne = true → fields ≠ [])

/-- **A call that the allowlist has.** -/
structure Allowed (webview : Bool) (c : Call H L) : Prop where
  target : c.target.Solid webview
  connected : c.target.isWebview = true → webview = true
  listed : ∃ params, (methodsOf c.target).lookup c.method = some params ∧
    required params ≤ c.args.length ∧ c.args.length ≤ params.length ∧
    List.Forall₂ (fun v p => v.Fits env p.type) c.args (params.take c.args.length)

/-! ### The building pass -/

/-- A computation that makes allowed calls only, and agrees with a plain evaluation where it
    succeeds. -/
structure Runs (webview : Bool) (x : M H L α) (y : Plain H L β) (R : α → β → Prop) : Prop where
  connected : ∀ s, (x s).2.connected = s.connected
  calls : ∀ s, ∃ cs, (x s).2.calls = s.calls ++ cs ∧ ∀ c ∈ cs, Allowed env webview c
  ok : ∀ s a s', x s = (.ok a, s') → ∃ b, y s.calls = some (b, s'.calls) ∧ R a b

variable {env} {webview : Bool}

theorem Runs.pure {R : α → β → Prop} {a : α} {b : β} (h : R a b) :
    Runs env webview (M.pure a : M H L α) (Plain.pure b) R := by
  refine ⟨fun _ => rfl, fun s => ⟨[], (List.append_nil _).symm, fun c hc => ?_⟩, fun s a' s' ha => ?_⟩
  · exact absurd hc List.not_mem_nil
  · cases ha
    exact ⟨b, rfl, h⟩

theorem Runs.throw {R : α → β → Prop} (e : Error) (y : Plain H L β) :
    Runs env webview (M.throw e : M H L α) y R := by
  refine ⟨fun _ => rfl, fun s => ⟨[], (List.append_nil _).symm, fun c hc => ?_⟩, fun s a' s' ha => ?_⟩
  · exact absurd hc List.not_mem_nil
  · cases ha

theorem Runs.refused {R : α → β → Prop} (source reason : String) (y : Plain H L β) :
    Runs env webview (refuse source reason : M H L α) y R := .throw _ y

theorem Runs.bind {x : M H L α} {y : Plain H L β} {f : α → M H L γ} {g : β → Plain H L δ}
    {R : α → β → Prop} {T : γ → δ → Prop} (hx : Runs env webview x y R)
    (hf : ∀ a b, R a b → Runs env webview (f a) (g b) T) :
    Runs env webview (x.bind f) (y.bind g) T := by
  have hsplit : ∀ s, (∃ e s', x s = (.error e, s')) ∨
      ∃ a s₁, x s = (.ok a, s₁) ∧ ∃ b, y s.calls = some (b, s₁.calls) ∧ R a b := by
    intro s
    cases hxs : x s with
    | mk r s₁ =>
      cases r with
      | error e => exact .inl ⟨e, s₁, rfl⟩
      | ok a => exact .inr ⟨a, s₁, rfl, hx.ok s a s₁ hxs⟩
  refine ⟨fun s => ?_, fun s => ?_, fun s c s' hc => ?_⟩
  · rcases hsplit s with ⟨e, s', hxs⟩ | ⟨a, s₁, hxs, b, -, hab⟩
    · rw [bind_of_error hxs, ← hx.connected s, hxs]
    · rw [bind_of_ok hxs, (hf a b hab).connected s₁, ← hx.connected s, hxs]
  · obtain ⟨cs, hcs, hallowed⟩ := hx.calls s
    rcases hsplit s with ⟨e, s', hxs⟩ | ⟨a, s₁, hxs, b, -, hab⟩
    · rw [hxs] at hcs
      rw [bind_of_error hxs]
      exact ⟨cs, hcs, hallowed⟩
    · rw [hxs] at hcs
      rw [bind_of_ok hxs]
      obtain ⟨ds, hds, hallowed'⟩ := (hf a b hab).calls s₁
      refine ⟨cs ++ ds, by rw [hds, hcs, List.append_assoc], fun c hc => ?_⟩
      exact (List.mem_append.mp hc).elim (hallowed c) (hallowed' c)
  · obtain ⟨a, s₁, ha, hc⟩ := bind_ok hc
    obtain ⟨b, hb, hab⟩ := hx.ok s a s₁ ha
    obtain ⟨d, hd, hcd⟩ := (hf a b hab).ok s₁ c s' hc
    refine ⟨d, ?_, hcd⟩
    rw [Plain.bind, hb]
    exact hd

/-- The plain evaluation may go on with its result. -/
theorem Runs.map {x : M H L α} {y : Plain H L β} {f : β → γ} {R : α → β → Prop}
    {T : α → γ → Prop} (h : Runs env webview x y R) (himp : ∀ a b, R a b → T a (f b)) :
    Runs env webview x (y.bind fun b => Plain.pure (f b)) T := by
  refine ⟨h.connected, h.calls, fun s a s' ha => ?_⟩
  obtain ⟨b, hb, hab⟩ := h.ok s a s' ha
  refine ⟨f b, ?_, himp a b hab⟩
  rw [Plain.bind, hb]
  rfl

/-! ### One rule for each function -/

theorem buildRoot_runs (root : Root) :
    Runs env webview (buildRoot root : M H L (Built H L)) (Plain.pure (Js.object root.object))
      fun b v => v = .object b ∧ b.Solid webview := by
  cases root with
  | device => exact .pure ⟨rfl, trivial⟩
  | webview =>
    refine ⟨fun _ => rfl, fun s => ⟨[], (List.append_nil _).symm, fun c hc => ?_⟩,
      fun s a' s' ha => ?_⟩
    · exact absurd hc List.not_mem_nil
    · cases ha
      exact ⟨_, rfl, rfl, trivial⟩

theorem literalOf_runs (source : String) (node : Node) :
    Runs env webview (literalOf env source node : M H L Primitive) (js env node)
      fun p v => v = .primitive p := by
  unfold literalOf
  split
  · split
    · exact .refused _ _ _
    · rename_i pattern flags hvalid
      rw [js, Literal.js, if_pos hvalid]
      exact .pure rfl
  · exact .refused _ _ _
  · exact .refused _ _ _
  · exact .pure rfl
  · exact .pure rfl
  · exact .pure rfl
  · split
    · exact .refused _ _ _
    · rename_i cooked expressions hempty
      cases expressions with
      | nil => exact .pure rfl
      | cons => exact absurd (Nat.succ_pos _) hempty
  · split
    · rename_i operator n hminus
      rw [js, if_pos hminus]
      exact .pure rfl
    · exact .refused _ _ _
  · exact .refused _ _ _

theorem Plain.bind_pure (y : Plain H L β) : y.bind Plain.pure = y := by
  funext calls
  show (y calls).bind _ = y calls
  cases y calls <;> rfl

theorem value_runs {built : M H L (Built H L)} {ctx : Context} {node : Node}
    (hdry : ctx.dry = false)
    (hbuilt : Runs env webview built (js env node) fun b v => v = .object b ∧ b.Solid webview)
    (type : ValueType) (what : String) :
    Runs env webview (value env ctx built node type what) (js env node) fun a v =>
      v = a.js ∧ a.HasType env type := by
  unfold value
  rw [← Plain.bind_pure (js env node)]
  split
  · rename_i htype
    refine hbuilt.bind ?_
    rintro b v ⟨rfl, hsolid⟩
    cases b with
    | native handle =>
      obtain ⟨h, rfl⟩ := hsolid
      dsimp only
      split
      · rename_i hplain
        split
        · rename_i hselector
          exact .pure ⟨rfl, h, rfl, .inr ⟨hplain.1, Option.isSome_iff_exists.mp hselector⟩⟩
        · exact .refused _ _ _
      · rename_i hplain
        refine .pure ⟨rfl, h, rfl, .inl (htype.resolve_right fun hcon => hplain ⟨hcon, hdry⟩)⟩
    | _ => exact .refused _ _ _
  · refine (literalOf_runs ctx.source node).bind ?_
    rintro p v rfl
    split
    · rename_i hok
      exact .pure ⟨rfl, hok⟩
    · exact .refused _ _ _

theorem invokeNative_runs {c : Call H L} (hallowed : Allowed env webview c)
    (hnative : c.target.isWebview = false) :
    Runs env webview (invokeNative env c) (jsCall env (.object c.target) c.method c.args)
      fun b v => v = .object b ∧ b.Solid webview := by
  refine ⟨fun _ => rfl, fun s => ⟨[c], rfl, fun d hd => ?_⟩, fun s b s' hb => ?_⟩
  · rw [List.mem_singleton.mp hd]
    exact hallowed
  · unfold invokeNative at hb
    unfold jsCall
    dsimp only
    rw [hnative, if_neg Bool.false_ne_true]
    cases hcall : env.native s.calls c with
    | error message =>
      rw [hcall] at hb
      cases hb
    | ok h =>
      rw [hcall] at hb
      cases hb
      exact ⟨_, rfl, rfl, h, rfl⟩

theorem invokeWebview_runs {c : Call H L} (hallowed : Allowed env webview c)
    (hweb : c.target.isWebview = true) :
    Runs env webview (invokeWebview env c) (jsCall env (.object c.target) c.method c.args)
      fun b v => v = .object b ∧ b.Solid webview := by
  refine ⟨fun _ => rfl, fun s => ⟨[c], rfl, fun d hd => ?_⟩, fun s b s' hb => ?_⟩
  · rw [List.mem_singleton.mp hd]
    exact hallowed
  · unfold invokeWebview at hb
    unfold jsCall
    dsimp only
    rw [hweb, if_pos rfl]
    cases hcall : env.webview s.calls c with
    | error message =>
      rw [hcall] at hb
      cases hb
    | ok l =>
      rw [hcall] at hb
      cases hb
      exact ⟨_, rfl, rfl, ⟨l, rfl⟩, hallowed.connected hweb⟩

/-- The arguments that `buildArgs` gives for some parameters. -/
def FitArgs (env : Env H L S) (count : ℕ) (params : List Param) (as : List (Value H)) : Prop :=
  as.length = count ∧ List.Forall₂ (fun v p => v.Fits env p.type) as (params.take count)

theorem call_runs {ctx : Context} (hdry : ctx.dry = false) {target : Built H L}
    (htarget : target.Solid ctx.webview) (method : String) (args : Nodes)
    {loop : List Param → M H L (List (Value H))}
    (hloop : ∀ params : List Param, args.length ≤ params.length →
      Runs env ctx.webview (loop params) (jsArgs env args) fun as bs =>
        bs = as ∧ FitArgs env args.length params as) :
    Runs env ctx.webview (call env ctx target method args loop)
      ((jsArgs env args).bind fun as => jsCall env (.object target) method as)
      fun b v => v = .object b ∧ b.Solid ctx.webview := by
  unfold call
  split
  · rename_i params hparams
    unfold buildArgs
    split
    · exact (Runs.refused (R := fun _ _ => False) _ _ _).bind fun _ _ h => h.elim
    · rename_i hcount
      rw [not_or, Nat.not_lt, Nat.not_lt] at hcount
      refine (hloop params hcount.2).bind ?_
      rintro as bs ⟨hbs, hlength, hfits⟩
      rw [hbs]
      have hlisted : ∃ params, (methodsOf target).lookup method = some params ∧
          required params ≤ as.length ∧ as.length ≤ params.length ∧
          List.Forall₂ (fun v p => v.Fits env p.type) as (params.take as.length) := by
        refine ⟨params, hparams, ?_⟩
        rw [hlength]
        exact ⟨hcount.1, hcount.2, hfits⟩
      unfold perform
      rw [hdry, if_neg Bool.false_ne_true]
      cases target with
      | device => exact invokeNative_runs ⟨htarget, Bool.false_ne_true.elim, hlisted⟩ rfl
      | native => exact invokeNative_runs ⟨htarget, Bool.false_ne_true.elim, hlisted⟩ rfl
      | webviewRoot =>
        dsimp only
        split
        · rename_i hweb
          exact invokeWebview_runs ⟨htarget, fun _ => hweb, hlisted⟩ rfl
        · exact .throw _ _
      | webview => exact invokeWebview_runs ⟨htarget, fun _ => htarget.2, hlisted⟩ rfl
  · obtain ⟨reason, heq⟩ := @refuseMethod_eq H L (Built H L) ctx.source target method
    rw [heq]
    exact .refused _ _ _

theorem lookup_isSome_iff {α : Type} {l : List (String × α)} {key : String} :
    (l.lookup key).isSome = true ↔ key ∈ l.map Prod.fst := by
  induction l with
  | nil => simp
  | cons e l ih =>
    rw [List.lookup_cons, List.map_cons, List.mem_cons]
    split
    · rename_i heq
      exact iff_of_true rfl (.inl (eq_of_beq heq))
    · rename_i hne
      rw [ih]
      exact (or_iff_right (ne_of_beq_false hne)).symm

/-- The options collected so far. -/
def FitFields (env : Env H L S) (schema : List (String × ValueType))
    (fields : List (String × Value H)) : Prop :=
  (∀ f ∈ fields, ∃ type, schema.lookup f.1 = some type ∧ f.2.HasType env type) ∧
    (fields.map Prod.fst).Nodup

theorem FitFields.snoc {schema : List (String × ValueType)} {fields : List (String × Value H)}
    (h : FitFields env schema fields) {name : String} {type : ValueType} {a : Value H}
    (hnew : ¬ (fields.lookup name).isSome = true) (htype : schema.lookup name = some type)
    (ha : a.HasType env type) : FitFields env schema (fields ++ [(name, a)]) := by
  obtain ⟨hall, hnodup⟩ := h
  refine ⟨fun f hf => ?_, ?_⟩
  · rcases List.mem_append.mp hf with hf | hf
    · exact hall f hf
    · rw [List.mem_singleton.mp hf]
      exact ⟨type, htype, ha⟩
  · rw [List.map_append, List.nodup_append]
    refine ⟨hnodup, List.nodup_singleton _, ?_⟩
    rintro key hkey _ hname rfl
    obtain rfl : key = name := List.mem_singleton.mp hname
    exact hnew (lookup_isSome_iff.mpr hkey)

mutual

/-- **The building pass** makes allowed calls only, and agrees with the plain evaluation. -/
theorem build_runs {ctx : Context} (hdry : ctx.dry = false) : ∀ node : Node,
    Runs env ctx.webview (build env ctx node) (js env node) fun b v =>
      v = .object b ∧ b.Solid ctx.webview
  | .identifier name => by
    rw [build, js]
    split
    · rename_i root hroot
      rw [hroot]
      exact buildRoot_runs root
    · exact .refused _ _ _
  | .member object computed property => by
    rw [build, js]
    split
    · rename_i root hroot
      rw [hroot]
      exact buildRoot_runs root
    · split <;> exact .refused _ _ _
  | .call (.identifier name) optional args => by
    rw [build, js]
    split
    · have hdevice : Built.Solid ctx.webview (.device : Built H L) := trivial
      exact call_runs hdry hdevice name args fun params hcount =>
        argsFrom_runs hdry args params hcount name 1
    · exact .refused _ _ _
  | .call (.member object computed property) optional args => by
    rw [build, js]
    split
    · exact .refused _ _ _
    · split
      · exact .refused _ _ _
      · split
        · exact .refused _ _ _
        · split
          · exact .refused _ _ _
          · rename_i method hmethod
            rw [hmethod]
            refine (build_runs hdry object).bind ?_
            rintro target v ⟨rfl, hsolid⟩
            exact call_runs hdry hsolid method args fun params hcount =>
              argsFrom_runs hdry args params hcount method 1
  | .call .this _ _ => .refused _ _ _
  | .call .super _ _ => .refused _ _ _
  | .call (.call _ _ _) _ _ => .refused _ _ _
  | .call (.object _) _ _ => .refused _ _ _
  | .call (.literal _) _ _ => .refused _ _ _
  | .call (.template _ _) _ _ => .refused _ _ _
  | .call (.unary _ _) _ _ => .refused _ _ _
  | .call (.other _) _ _ => .refused _ _ _
  | .this => .refused _ _ _
  | .super => .refused _ _ _
  | .object _ => .refused _ _ _
  | .literal _ => .refused _ _ _
  | .template _ _ => .refused _ _ _
  | .unary _ _ => .refused _ _ _
  | .other _ => .refused _ _ _

theorem argsFrom_runs {ctx : Context} (hdry : ctx.dry = false) : ∀ (nodes : Nodes)
    (params : List Param), nodes.length ≤ params.length → ∀ (method : String) (i : ℕ),
    Runs env ctx.webview (argsFrom env ctx nodes params method i) (jsArgs env nodes)
      fun as bs => bs = as ∧ FitArgs env nodes.length params as
  | .nil, params, _, method, i => by
    rw [argsFrom, jsArgs]
    exact .pure ⟨rfl, rfl, .nil⟩
  | .cons node rest, [], hcount, method, i => absurd hcount (Nat.not_succ_le_zero _)
  | .cons node rest, param :: params, hcount, method, i => by
    rw [argsFrom, jsArgs]
    refine Runs.bind (R := fun a v => v = a.js ∧ a.Fits env param.type) ?_ ?_
    · split
      · rename_i type htype
        rw [htype]
        exact value_runs hdry (build_runs hdry node) type _
      · rename_i schema atLeastOne htype
        rw [htype]
        exact options_runs hdry node schema atLeastOne method
    · rintro a v ⟨rfl, hfits⟩
      rw [Value.arg_js]
      show Runs env ctx.webview _ ((jsArgs env rest).bind fun as => Plain.pure (a :: as)) _
      refine (argsFrom_runs hdry rest params (Nat.le_of_succ_le_succ hcount) method (i + 1)).bind ?_
      rintro as bs ⟨rfl, hlength, hall⟩
      exact .pure ⟨rfl, congrArg Nat.succ hlength, .cons hfits hall⟩

theorem options_runs {ctx : Context} (hdry : ctx.dry = false) : ∀ (node : Node)
    (schema : List (String × ValueType)) (atLeastOne : Bool) (method : String),
    Runs env ctx.webview (options env ctx node schema atLeastOne method) (js env node)
      fun a v => v = a.js ∧ a.Fits env (.options schema atLeastOne)
  | .object properties, schema, atLeastOne, method => by
    rw [options, js]
    have hstart : FitFields env schema ([] : List (String × Value H)) :=
      ⟨fun f hf => absurd hf List.not_mem_nil, List.nodup_nil⟩
    refine (fields_runs hdry properties schema method [] hstart).bind ?_
    rintro out bs ⟨rfl, hall, hnodup⟩
    split
    · exact .refused _ _ _
    · rename_i hsome
      exact .pure ⟨rfl, _, rfl, hall, hnodup, fun hone hempty => hsome ⟨hone, hempty⟩⟩
  | .identifier _, _, _, _ => .refused _ _ _
  | .this, _, _, _ => .refused _ _ _
  | .super, _, _, _ => .refused _ _ _
  | .member _ _ _, _, _, _ => .refused _ _ _
  | .call _ _ _, _, _, _ => .refused _ _ _
  | .literal _, _, _, _ => .refused _ _ _
  | .template _ _, _, _, _ => .refused _ _ _
  | .unary _ _, _, _, _ => .refused _ _ _
  | .other _, _, _, _ => .refused _ _ _

theorem fields_runs {ctx : Context} (hdry : ctx.dry = false) : ∀ (properties : Properties)
    (schema : List (String × ValueType)) (method : String) (out : List (String × Value H)),
    FitFields env schema out →
    Runs env ctx.webview (fields env ctx properties schema method out) (jsFields env properties)
      fun all new => all = out ++ new ∧ FitFields env schema all
  | .nil, schema, method, out, hout => by
    rw [fields, jsFields]
    exact .pure ⟨(List.append_nil _).symm, hout⟩
  | .spread rest, schema, method, out, hout => by
    rw [fields]
    exact .refused _ _ _
  | .property computed kind isMethod key shorthand v rest, schema, method, out, hout => by
    rw [fields, jsFields]
    split
    · exact .refused _ _ _
    · split
      · exact .refused _ _ _
      · split
        · exact .refused _ _ _
        · rename_i name hname
          split
          · exact .refused _ _ _
          · split
            · exact .refused _ _ _
            · rename_i hnew
              split
              · exact .refused _ _ _
              · rename_i type htype
                split
                · exact .refused _ _ _
                · refine (value_runs hdry (build_runs hdry v) type _).bind ?_
                  rintro a _ ⟨rfl, ha⟩
                  rw [Value.arg_js, hname]
                  show Runs env ctx.webview _
                    ((jsFields env rest).bind fun new => Plain.pure ((name, a) :: new)) _
                  refine (fields_runs hdry rest schema method _ (hout.snoc hnew htype ha)).map ?_
                  rintro all new ⟨rfl, hall⟩
                  exact ⟨by rw [List.append_assoc]; rfl, hall⟩

end

/-! ### The two passes -/

def EvaluatedLocator.built : EvaluatedLocator H L → Built H L
  | .native handle => .native handle
  | .webview locator => .webview locator

theorem pass_quiet (source : String) (e : Node) :
    Quiet (webviewRooted e) (pass env (dryContext source) e) fun _ => True :=
  (build_quiet rfl e).bind fun b _ => by
    cases b with
    | native => exact .pure trivial
    | webview => exact .pure trivial
    | _ => exact .refused _ _

theorem pass_runs (source : String) (e : Node) :
    Runs env webview (pass env (realContext source webview) e) (js env e)
      fun r v => v = .object r.built := by
  rw [← Plain.bind_pure (js env e)]
  have hdry : (realContext source webview).dry = false := rfl
  refine (build_runs hdry e).bind ?_
  rintro b v ⟨rfl, -⟩
  cases b with
  | native => exact .pure rfl
  | webview => exact .pure rfl
  | _ => exact .refused _ _ _

theorem parseLocator_error {source : String} {err : Error} (h : parseLocator env source = .error err) :
    ∃ message, err = .locator message := by
  unfold parseLocator at h
  dsimp only at h
  repeat' split at h
  all_goals first
    | exact ⟨_, (Except.error.inj h).symm⟩
    | cases h

/-- **How an evaluation goes**: it ends before any call, or is a building pass over an expression
    that the check let through. -/
inductive Evaluation (env : Env H L S) (source : String) :
    Except Error (EvaluatedLocator H L) × State H L → Prop
  | refused (message : String) (w : State H L) (hcalls : w.calls = []) (hconn : w.connected = false) :
      Evaluation env source (.error (.locator message), w)
  | unconnected (message : String) (w : State H L) (hcalls : w.calls = []) :
      Evaluation env source (.error (.sdk message), w)
  | built (e : Node) (w : State H L) (hparse : parseLocator env source = .ok e)
      (hcheck : ∃ s a s', pass env (dryContext source) e s = (.ok a, s')) (hcalls : w.calls = [])
      (hconn : w.connected = webviewRooted e) :
      Evaluation env source (pass env (realContext source (webviewRooted e)) e w)

theorem evaluation_evaluateLocator (source : String) :
    Evaluation env source (evaluateLocator env source) := by
  unfold evaluateLocator
  split
  · rename_i err hparse
    obtain ⟨message, rfl⟩ := parseLocator_error hparse
    exact .refused message _ rfl rfl
  · rename_i e hparse
    have hquiet := @pass_quiet H L S env source e
    have hcalls := hquiet.calls State.init
    have hconn := hquiet.connected State.init
    cases hpass : pass env (dryContext source) e State.init with
    | mk r s =>
      rw [hpass] at hcalls hconn
      cases r with
      | error err =>
        obtain ⟨message, rfl⟩ := hquiet.error _ _ _ hpass
        rw [bind_of_error hpass]
        exact .refused message s hcalls hconn
      | ok a =>
        have huses : s.usesWebview = webviewRooted e := (hquiet.ok _ _ _ hpass).1
        rw [bind_of_ok hpass, huses]
        cases hweb : webviewRooted e with
        | false =>
          have hbuilt := Evaluation.built e s hparse ⟨_, _, _, hpass⟩ hcalls (hconn.trans hweb.symm)
          rw [hweb] at hbuilt
          exact hbuilt
        | true =>
          cases hconnect : env.connect with
          | error message =>
            have hfail : connectWebview env s
                = ((.error (.sdk message) : Except Error Unit), { s with connected := true }) := by
              rw [connectWebview, hconnect]
              rfl
            rw [if_pos rfl, bind_of_error hfail]
            exact .unconnected message _ hcalls
          | ok u =>
            have hdone : connectWebview env s = (.ok u, { s with connected := true }) := by
              rw [connectWebview, hconnect]
              rfl
            rw [if_pos rfl, bind_of_ok hdone]
            have hbuilt := Evaluation.built e { s with connected := true } hparse
              ⟨_, _, _, hpass⟩ hcalls hweb.symm
            rw [hweb] at hbuilt
            exact hbuilt

/-- A builder that numbers its handles, for one locator and one action. -/
def rowEnv : Env ℕ ℕ Unit where
  native calls _ := .ok calls.length
  webview calls _ := .ok calls.length
  plainSelector h := if h = 0 then some () else none
  connect := .ok ()
  parse source :=
    if source = "device.getByRole(\"list\").getByText(\"Row 2\")" then
      .ok [.expression (.call (.member (.call (.member (.identifier "device") false
        (.identifier "getByRole")) false (.cons (.literal (.string "list")) .nil)) false
        (.identifier "getByText")) false (.cons (.literal (.string "Row 2")) .nil))]
    else if source = "device.tap()" then
      .ok [.expression (.call (.member (.identifier "device") false (.identifier "tap")) false .nil)]
    else .error "Unexpected token"
  trim := id
  regexError _ _ := none

/-- **The allowlist.**  However an evaluation ends, every call it has made is one of the allowlist,
    on a receiver that is there, with arguments of the listed types; and none is made on a WebView
    that is not connected. -/
theorem calls_allowed (source : String) :
    ∀ c ∈ (evaluateLocator env source).2.calls,
      Allowed env (evaluateLocator env source).2.connected c := by
  have heval := @evaluation_evaluateLocator H L S env source
  generalize evaluateLocator env source = r at heval
  have hnone : ∀ {w : State H L}, w.calls = [] → ∀ c ∈ w.calls, Allowed env w.connected c := by
    intro w hcalls c hc
    rw [hcalls] at hc
    exact absurd hc List.not_mem_nil
  cases heval with
  | refused message w hcalls hconn => exact hnone hcalls
  | unconnected message w hcalls => exact hnone hcalls
  | built e w hparse hcheck hcalls hconn =>
    have hruns := @pass_runs H L S env (webviewRooted e) source e
    obtain ⟨cs, hcs, hallowed⟩ := hruns.calls w
    rw [hcs, hcalls, List.nil_append, hruns.connected w, hconn]
    exact hallowed

/-- The second call for a row of a list is made on what the first one returned. -/
theorem calls_allowed_row : Allowed rowEnv false
    { target := .native (some 0), method := "getByText", args := [.primitive (.string "Row 2")] } := by
  have hcalls : (evaluateLocator rowEnv "device.getByRole(\"list\").getByText(\"Row 2\")").2.calls
      = [_, { target := .native (some 0), method := "getByText"
              args := [.primitive (.string "Row 2")] }] := rfl
  exact calls_allowed _ _ (hcalls ▸ List.mem_cons_of_mem _ List.mem_cons_self)

/-- **What is built.**  A locator that is returned, and the calls that were made for it, are those
    of the plain evaluation of the expression in the string. -/
theorem agrees_with_js {source : String} {r : EvaluatedLocator H L} {w : State H L}
    (h : evaluateLocator env source = (.ok r, w)) :
    ∃ e, parseLocator env source = .ok e ∧ js env e [] = some (.object r.built, w.calls) := by
  have heval := @evaluation_evaluateLocator H L S env source
  generalize evaluateLocator env source = res at heval h
  cases heval with
  | refused message w hcalls hconn => cases h
  | unconnected message w hcalls => cases h
  | built e s hparse hcheck hcalls hconn =>
    obtain ⟨v, hv, rfl⟩ := (@pass_runs H L S env (webviewRooted e) source e).ok s r w h
    rw [hcalls] at hv
    exact ⟨e, hparse, hv⟩

/-- Two calls for a row of a list. -/
theorem agrees_with_js_row : ∃ e, parseLocator rowEnv
    "device.getByRole(\"list\").getByText(\"Row 2\")" = .ok e ∧
    js rowEnv e [] = some (.object (.native (some 1)),
      [{ target := .device, method := "getByRole", args := [.primitive (.string "list")] },
        { target := .native (some 0), method := "getByText", args := [.primitive (.string "Row 2")] }]) := by
  have heval : evaluateLocator rowEnv "device.getByRole(\"list\").getByText(\"Row 2\")"
      = (.ok (.native (some 1)), _) := rfl
  exact agrees_with_js heval

end

end Tapsmith.Mcp.LocatorEval
