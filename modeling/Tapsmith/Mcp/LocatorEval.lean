import Mathlib.Data.List.Basic
import Mathlib.Data.Int.Notation
import Mathlib.Data.Nat.Notation

namespace Tapsmith.Mcp.LocatorEval

/-!
# Locator strings

`locator-eval.ts`: a locator string of an MCP client is parsed as JavaScript and interpreted over
an allowlist, first without any call (`dry`), then on the SDK's own builder.

* `Node` — what the interpreter looks at of the parsed string;
* `build`, `buildArgs`, `options` — the interpreter, for both passes;
* `evaluateLocator` — the two passes, with the connection to the WebView between them.

The parser is a parameter, as is the SDK: what a builder call gives may depend on all calls before
it, and a call may throw.
-/

/-! ### The parsed string -/

/-- A number literal; only the integers are told apart. -/
inductive Number where
  | integer (n : ℤ)
  | other
  deriving DecidableEq

def Number.neg : Number → Number
  | .integer n => .integer (-n)
  | .other => .other

inductive Literal where
  | string (s : String)
  | number (n : Number)
  | boolean (b : Bool)
  | null
  | bigint
  | regex (pattern flags : String)
  deriving DecidableEq

mutual

/-- An expression as acorn returns it; `other` has the types that are refused as such. -/
inductive Node where
  | identifier (name : String)
  | this
  | super
  | member (object : Node) (computed : Bool) (property : Node)
  | call (callee : Node) (optional : Bool) (args : Nodes)
  | object (properties : Properties)
  | literal (v : Literal)
  | template (cooked : String) (expressions : Nodes)
  | unary (operator : String) (argument : Node)
  | other (type : String)

inductive Nodes where
  | nil
  | cons (head : Node) (tail : Nodes)

inductive Properties where
  | nil
  | spread (tail : Properties)
  | property (computed : Bool) (kind : String) (method : Bool) (key : Node) (shorthand : Bool)
      (value : Node) (tail : Properties)

end

def Nodes.length : Nodes → ℕ
  | .nil => 0
  | .cons _ tail => tail.length + 1

def identifierName : Node → Option String
  | .identifier name => some name
  | _ => none

def Node.isSuper : Node → Bool
  | .super => true
  | _ => false

/-- A statement of the program. -/
inductive Statement where
  | empty
  | expression (e : Node)
  | other

/-! ### What may be called -/

inductive ValueType where
  | string
  | textOrRegex
  | integer
  | boolean
  | nativeLocator
  | plainNativeLocator
  deriving DecidableEq

inductive ParamType where
  | value (type : ValueType)
  | options (schema : List (String × ValueType)) (atLeastOne : Bool)
  deriving DecidableEq

structure Param where
  type : ParamType
  optional : Bool
  deriving DecidableEq

def text : Param := { type := .value .string, optional := false }
def textOrRegex : Param := { type := .value .textOrRegex, optional := false }

abbrev Table := List (String × List Param)

/-- `NATIVE_GETTERS`. -/
def nativeGetters : Table :=
  [("getByText", [textOrRegex, { type := .options [("exact", .boolean)] false, optional := true }]),
    ("getByRole", [text, {
      type := .options [("name", .textOrRegex), ("exact", .boolean), ("checked", .boolean),
        ("disabled", .boolean), ("selected", .boolean), ("expanded", .boolean)] false
      optional := true }]),
    ("getByDescription", [text]),
    ("getByPlaceholder", [text]),
    ("getByTestId", [text]),
    ("getByLabel", [textOrRegex]),
    ("locator", [{
      type := .options [("id", .string), ("xpath", .string), ("className", .string)] true
      optional := false }])]

/-- `POSITIONS`. -/
def positions : Table :=
  [("first", []), ("last", []), ("nth", [{ type := .value .integer, optional := false }])]

/-- `NATIVE_LOCATOR_METHODS`. -/
def nativeLocatorMethods : Table :=
  nativeGetters ++ positions ++
  [("filter", [{
      type := .options [("hasText", .textOrRegex), ("has", .plainNativeLocator),
        ("hasNot", .plainNativeLocator), ("hasNotText", .textOrRegex)] true
      optional := false }]),
    ("and", [{ type := .value .nativeLocator, optional := false }]),
    ("or", [{ type := .value .nativeLocator, optional := false }])]

/-- `WEBVIEW_GETTERS`. -/
def webviewGetters : Table :=
  [("getByText", [text, { type := .options [("exact", .boolean)] false, optional := true }]),
    ("getByRole", [text, { type := .options [("name", .string)] false, optional := true }]),
    ("getByPlaceholder", [text]),
    ("getByTestId", [text]),
    ("getByLabel", [text]),
    ("locator", [text])]

/-- `ACTIONS`. -/
def actions : List String :=
  ["tap", "doubleTap", "longPress", "type", "fill", "clear", "clearAndType", "press", "check",
    "uncheck", "setChecked", "swipe", "scrollIntoView", "focus", "blur", "selectOption", "dragTo",
    "count", "all", "textContent", "getText", "isVisible", "isHidden", "isEnabled", "isChecked",
    "boundingBox", "screenshot", "waitFor", "highlight"]

/-! ### Values, calls and errors -/

/-- The value of a literal. -/
inductive Primitive where
  | string (s : String)
  | number (n : Number)
  | boolean (b : Bool)
  | regex (pattern flags : String)
  deriving DecidableEq

/-- An argument of a builder call. A handle is `none` where the code has `undefined`. -/
inductive Value (H : Type) where
  | primitive (p : Primitive)
  | handle (h : Option H)
  | options (fields : List (String × Value H))

/-- What a call is made on. -/
inductive Built (H L : Type) where
  | device
  | webviewRoot
  | native (handle : Option H)
  | webview (locator : Option L)

structure Call (H L : Type) where
  target : Built H L
  method : String
  args : List (Value H)

/-- What ends an evaluation early; the messages of the SDK and of `JavaScript` are its own. -/
inductive Error where
  | locator (message : String)
  | sdk (message : String)
  | internal (message : String)
  | typeError

/-- What an evaluation has done. -/
structure State (H L : Type) where
  calls : List (Call H L)
  usesWebview : Bool
  connected : Bool

/-- A computation of the interpreter. -/
abbrev M (H L α : Type) := State H L → Except Error α × State H L

/-- The SDK: what a builder call gives after the calls made before it. -/
structure Sdk (H L S : Type) where
  native : List (Call H L) → Call H L → Except String H
  webview : List (Call H L) → Call H L → Except String L
  plainSelector : H → Option S
  connect : Except String Unit

/-- What stands outside the file: the parser, the check of a pattern, the SDK. -/
structure Env (H L S : Type) extends Sdk H L S where
  parse : String → Except String (List Statement)
  trim : String → String
  regexError : String → String → Option String

structure Context where
  source : String
  webview : Bool
  dry : Bool

/-- The context of the check. -/
def dryContext (source : String) : Context := { source, webview := false, dry := true }

/-- The context of the building pass. -/
def realContext (source : String) (webview : Bool) : Context := { source, webview, dry := false }

section Interpreter

variable {H L α β : Type}

namespace M

def pure (a : α) : M H L α := fun s => (.ok a, s)

def throw (e : Error) : M H L α := fun s => (.error e, s)

def bind (x : M H L α) (f : α → M H L β) : M H L β := fun s =>
  match x s with
  | (.ok a, s') => f a s'
  | (.error e, s') => (.error e, s')

end M

/-- The message of a refusal. -/
def refusal (source reason : String) : String :=
  "Invalid locator: \"" ++ source ++ "\": " ++ reason ++ "."

def refuse (source reason : String) : M H L α := .throw (.locator (refusal source reason))

/-! ### The interpreter -/

variable {S : Type} (env : Env H L S) (ctx : Context)

inductive Root where
  | device
  | webview
  deriving DecidableEq

def rootNamed (name : String) : Option Root :=
  if name = "device" ∨ name = "page" then some .device
  else if name = "webview" then some .webview
  else none

def rootOf : Node → Option Root
  | .identifier name => rootNamed name
  | .member .this false (.identifier name) => rootNamed name
  | _ => none

/-- The root that `build` returns for a receiver that names one. -/
def buildRoot : Root → M H L (Built H L)
  | .device => .pure .device
  | .webview => fun s => (.ok .webviewRoot, { s with usesWebview := true })

def methodsOf : Built H L → Table
  | .device => nativeGetters
  | .native _ => nativeLocatorMethods
  | .webviewRoot => webviewGetters
  | .webview _ => positions

/-- The names in a message, with what stands around each of them. -/
def listed (before after : String) (names : List String) : String :=
  ", ".intercalate (names.map fun n => before ++ n ++ after)

/-- The refusal of a method that the table of its receiver does not have. -/
def refuseMethod (source : String) (target : Built H L) (method : String) : M H L α :=
  if method ∈ actions then
    refuse source ("`." ++ method ++
      "()` is an action or query, not part of a locator — pass the locator alone")
  else match target with
    | .webview _ | .webviewRoot => refuse source ("`." ++ method ++
        "()` is not available on webview locators (supported: " ++
        listed "." "()" ((methodsOf target).map Prod.fst) ++ ")")
    | _ => refuse source ("`." ++ method ++ "()` is not a locator method")

/-- `invoke` on a receiver that gives a native handle. -/
def invokeNative (c : Call H L) : M H L (Built H L) := fun s =>
  (((env.native s.calls c).map fun h => .native (some h)).mapError .sdk,
    { s with calls := s.calls ++ [c] })

/-- `invoke` on a receiver that gives a locator of the WebView. -/
def invokeWebview (c : Call H L) : M H L (Built H L) := fun s =>
  (((env.webview s.calls c).map fun l => .webview (some l)).mapError .sdk,
    { s with calls := s.calls ++ [c] })

/-- The end of `call`, with the arguments built. -/
def perform (target : Built H L) (method : String) (args : List (Value H)) : M H L (Built H L) :=
  if ctx.dry then
    match target with
    | .device | .native _ => .pure (.native none)
    | .webviewRoot | .webview _ => .pure (.webview none)
  else match target with
    | .device | .native _ => invokeNative env { target, method, args }
    | .webviewRoot =>
      if ctx.webview then invokeWebview env { target, method, args }
      else .throw (.internal "the WebView was not connected for a webview locator")
    | .webview _ => invokeWebview env { target, method, args }

/-- `literalOf`. -/
def literalOf (source : String) : Node → M H L Primitive
  | .literal (.regex pattern flags) =>
    match env.regexError pattern flags with
    | some message =>
      refuse source ("invalid RegExp /" ++ pattern ++ "/" ++ flags ++ " (" ++ message ++ ")")
    | none => .pure (.regex pattern flags)
  | .literal .null | .literal .bigint =>
    refuse source "argument values must be strings, numbers, booleans or RegExp literals"
  | .literal (.string s) => .pure (.string s)
  | .literal (.number n) => .pure (.number n)
  | .literal (.boolean b) => .pure (.boolean b)
  | .template cooked expressions =>
    if 0 < expressions.length then
      refuse source
        "template literals with `$\x7b…\x7d` are not part of a locator; write the text out"
    else .pure (.string cooked)
  | .unary operator (.literal (.number n)) =>
    if operator = "-" then .pure (.number n.neg) else
    refuse source
      "each argument must be a literal value (a string, number, boolean or RegExp), not an expression"
  | _ => refuse source
    "each argument must be a literal value (a string, number, boolean or RegExp), not an expression"

/-- Whether the value of a literal is of the type. -/
def Primitive.ok : Primitive → ValueType → Bool
  | .string _, .string => true
  | .string _, .textOrRegex => true
  | .regex _ _, .textOrRegex => true
  | .number (.integer _), .integer => true
  | .boolean _, .boolean => true
  | _, _ => false

/-- What a value of the type is called. -/
def ValueType.expected : ValueType → String
  | .textOrRegex => "a string or a RegExp literal"
  | .integer => "an integer"
  | .string => "a string"
  | .boolean => "a boolean"
  | .nativeLocator => "a nativeLocator"
  | .plainNativeLocator => "a plainNativeLocator"

/-- The reason for the refusal of an operand of `filter`. -/
def needsSingleGetter (what : String) : String :=
  what ++ " must be a single getter such as device.getByText(\"…\"): .filter(\x7b has \x7d) does " ++
    "not apply a position, filter, scope, .and() or .or() on it"

/-- `value`, with `build` of the node. -/
def value (built : M H L (Built H L)) (node : Node) (type : ValueType) (what : String) :
    M H L (Value H) :=
  if type = .nativeLocator ∨ type = .plainNativeLocator then
    built.bind fun b =>
      match b with
      | .native handle =>
        if type = .plainNativeLocator ∧ ctx.dry = false then
          match handle with
          | none => .throw .typeError
          | some h =>
            if (env.plainSelector h).isSome then .pure (.handle handle)
            else refuse ctx.source (needsSingleGetter what)
        else .pure (.handle handle)
      | _ => refuse ctx.source (what ++ " must be a native locator (device.…)")
  else
    (literalOf env ctx.source node).bind fun p =>
      if p.ok type then .pure (.primitive p)
      else refuse ctx.source (what ++ " must be " ++ type.expected)

def startsWithRoot : String :=
  "a locator must start with `device.` or `webview.`, e.g. " ++
    "device.getByRole(\"button\", \x7b name: \"Save\" \x7d)"

def computedAccess : String := "computed member access (`x[…]`) is not part of a locator"

/-- The number of arguments a method needs. -/
def required (params : List Param) : ℕ := (params.filter fun p => !p.optional).length

/-- The number of arguments in a message. -/
def expectedCount (params : List Param) : String :=
  if required params = params.length then toString (required params)
  else toString (required params) ++ "–" ++ toString params.length

/-- `buildArgs`, with the loop over the arguments. -/
def buildArgs (source : String) (nodes : Nodes) (params : List Param) (method : String)
    (loop : M H L (List (Value H))) : M H L (List (Value H)) :=
  if nodes.length < required params ∨ params.length < nodes.length then
    refuse source ("`." ++ method ++ "()` expects " ++ expectedCount params ++
      " argument(s), got " ++ toString nodes.length)
  else loop

/-- `call`, with the loop over the arguments. -/
def call (target : Built H L) (method : String) (args : Nodes)
    (loop : List Param → M H L (List (Value H))) : M H L (Built H L) :=
  match (methodsOf target).lookup method with
  | some params =>
    (buildArgs ctx.source args params method (loop params)).bind fun as =>
      perform env ctx target method as
  | none => refuseMethod ctx.source target method

/-- The name of an option, if its key is plain. -/
def optionName : Node → Option String
  | .identifier name => some name
  | .literal (.string s) => some s
  | _ => none

mutual

def build : Node → M H L (Built H L)
  | .identifier name =>
    match rootNamed name with
    | some root => buildRoot root
    | none => refuse ctx.source startsWithRoot
  | .member object computed property =>
    match rootOf (.member object computed property) with
    | some root => buildRoot root
    | none =>
      if computed then refuse ctx.source computedAccess
      else refuse ctx.source ("`." ++ (identifierName property).getD "?" ++
        "` is not a locator method — call one, e.g. .getByText(\"…\")")
  | .call (.identifier name) optional args =>
    if optional = false ∧ (nativeGetters.lookup name).isSome then
      call env ctx .device name args fun params => argsFrom args params name 1
    else refuse ctx.source startsWithRoot
  | .call (.member object computed property) optional args =>
    if optional then refuse ctx.source startsWithRoot
    else if computed then refuse ctx.source computedAccess
    else if object.isSuper then
      refuse ctx.source "a locator must start with `device.` or `webview.`"
    else match identifierName property with
      | none => refuse ctx.source "a locator must start with `device.` or `webview.`"
      | some method => (build object).bind fun target =>
          call env ctx target method args fun params => argsFrom args params method 1
  | _ => refuse ctx.source startsWithRoot

/-- The loop of `buildArgs`, from the argument with that number. -/
def argsFrom : Nodes → List Param → String → ℕ → M H L (List (Value H))
  | .nil, _, _, _ => .pure []
  | .cons _ _, [], _, _ => .throw .typeError
  | .cons node rest, param :: params, method, i =>
    M.bind (match param.type with
      | .value type =>
        value env ctx (build node) node type
          ("argument " ++ toString i ++ " of ." ++ method ++ "()")
      | .options schema atLeastOne => options node schema atLeastOne method) fun a =>
    (argsFrom rest params method (i + 1)).bind fun as => .pure (a :: as)

def options : Node → List (String × ValueType) → Bool → String → M H L (Value H)
  | .object properties, schema, atLeastOne, method =>
    (fields properties schema method []).bind fun out =>
      if atLeastOne ∧ out = [] then
        refuse ctx.source ("." ++ method ++ "() needs one of: " ++
          listed "" "" (schema.map Prod.fst))
      else .pure (.options out)
  | _, _, _, method =>
    refuse ctx.source ("the options argument of ." ++ method ++ "() must be an object literal")

/-- The loop of `options`, with the options so far. -/
def fields : Properties → List (String × ValueType) → String → List (String × Value H) →
    M H L (List (String × Value H))
  | .nil, _, _, out => .pure out
  | .spread _, _, _, _ => refuse ctx.source "spread (`...`) is not part of a locator"
  | .property computed kind isMethod key shorthand v rest, schema, method, out =>
    if computed then refuse ctx.source "computed option names (`[…]`) are not part of a locator"
    else if kind ≠ "init" ∨ isMethod then
      refuse ctx.source ("." ++ method ++ "() options are plain values, not getters or methods")
    else match optionName key with
      | none => refuse ctx.source ("." ++ method ++ "() option names must be plain names")
      | some name =>
        if name = "__proto__" then refuse ctx.source "`__proto__` is not a locator option"
        else if (out.lookup name).isSome then
          refuse ctx.source ("option \"" ++ name ++ "\" is given twice")
        else match schema.lookup name with
          | none => refuse ctx.source ("unsupported option \"" ++ name ++ "\" for ." ++ method ++
              "() (supported: " ++ listed "" "" (schema.map Prod.fst) ++ ")")
          | some type =>
            if shorthand then refuse ctx.source ("option \"" ++ name ++ "\" needs a literal value")
            else
              (value env ctx (build v) v type ("`" ++ name ++ "`")).bind fun a =>
              fields rest schema method (out ++ [(name, a)])

end

/-! ### The two passes -/

/-- `EXAMPLE`. -/
def exampleText : String :=
  "Write a locator as in a test: device.getByRole(\"button\", \x7b name: \"Login\" \x7d), " ++
    "device.getByText(), getByDescription(), getByPlaceholder(), getByLabel(), getByTestId(), " ++
    "or webview.getByText() and friends, chained as in a test"

def isAwait : Node → Bool
  | .other type => type = "AwaitExpression"
  | _ => false

def Statement.isEmpty : Statement → Bool
  | .empty => true
  | _ => false

/-- `parseLocator`: the message of the refusal, or the expression. -/
def parseLocator (source : String) : Except Error Node :=
  let refuse := fun reason => .error (.locator (refusal source reason))
  if env.trim source = "" then refuse "the locator is empty"
  else match env.parse (env.trim source) with
    | .error message => refuse ("Invalid locator syntax (" ++ message ++ "). " ++ exampleText)
    | .ok body => match body.filter fun s => !s.isEmpty with
      | [.expression e] =>
        if isAwait e then
          refuse "a locator string is the locator alone: drop `await`, and any action such as `.tap()`"
        else .ok e
      | _ => refuse ("a locator string is one locator expression, " ++
          "e.g. device.getByRole(\"button\", \x7b name: \"Save\" \x7d)")

/-- What a locator string is evaluated to. -/
inductive EvaluatedLocator (H L : Type) where
  | native (handle : Option H)
  | webview (locator : Option L)

def located (source : String) : Built H L → M H L (EvaluatedLocator H L)
  | .native handle => .pure (.native handle)
  | .webview locator => .pure (.webview locator)
  | _ => refuse source "it names no element — add a getter such as .getByText(\"…\")"

/-- One pass over an expression. -/
def pass (e : Node) : M H L (EvaluatedLocator H L) :=
  (build env ctx e).bind (located ctx.source)

/-- The connection to the WebView. -/
def connectWebview : M H L Unit := fun s =>
  (env.connect.mapError .sdk, { s with connected := true })

def State.init : State H L where
  calls := []
  usesWebview := false
  connected := false

def evaluateLocator (source : String) : Except Error (EvaluatedLocator H L) × State H L :=
  match parseLocator env source with
  | .error e => (.error e, State.init)
  | .ok expression =>
    ((pass env (dryContext source) expression).bind fun _ => fun s =>
      ((if s.usesWebview then connectWebview env else .pure ()).bind fun _ =>
        pass env (realContext source s.usesWebview) expression) s) State.init

/-- `nativeSelectorOf`. -/
def nativeSelectorOf (source : String) : Except Error (Option S) × State H L :=
  match parseLocator env source with
  | .error e => (.error e, State.init)
  | .ok expression =>
    ((pass env (dryContext source) expression).bind fun _ => fun s =>
      if s.usesWebview then (.ok none, s)
      else ((pass env (realContext source false) expression).bind fun
        | .native (some h) => .pure (env.plainSelector h)
        | .native none => .throw .typeError
        | .webview _ => .pure none) s) State.init

end Interpreter

end Tapsmith.Mcp.LocatorEval
