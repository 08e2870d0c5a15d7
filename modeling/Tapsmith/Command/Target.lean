import Tapsmith.Lib.Json

namespace Tapsmith.Command

/-!
# Targets of element commands

How a selector travels to the Android agent with the command it is for: `selector_to_json`
(`grpc_server.rs`) and `AgentCommand::to_json` (`agent_comms.rs`) write it and the command's own
parameters into one JSON object, and `CommandHandler.kt` reads them out of it again.

* `Selector`, `selectorToJson` — the selector message, and its fields in the command;
* `AgentCommand.toJson` — the commands that address an element;
* `parseSelectorParams`, `dispatch` — the selector the agent acts on.
-/

open Lib (Json)
open Lib.Json (Object Coercions)

/-! ### The daemon -/

structure TextRegex where
  pattern : String
  ignoreCase : Bool
  display : String
deriving DecidableEq

structure RoleSelector where
  role : String
  name : String
  checked : Option Bool := none
  disabled : Option Bool := none
  selected : Option Bool := none
  expanded : Option Bool := none
  exact : Bool := false
  nameRegex : Option TextRegex := none
deriving DecidableEq

inductive Criterion
  | role (role : RoleSelector)
  | text (t : String)
  | textContains (t : String)
  | contentDesc (t : String)
  | hint (t : String)
  | className (t : String)
  | testId (t : String)
  | resourceId (t : String)
  | xpath (t : String)
  | label (t : String)
  | textRegex (re : TextRegex)
  | labelRegex (re : TextRegex)
deriving DecidableEq

/-- The `Selector` message; the criterion is its `oneof`. -/
inductive Selector
  | mk (selector : Option Criterion) (parent : Option Selector)

def Selector.criterion : Selector → Option Criterion
  | .mk selector _ => selector

def Selector.parent : Selector → Option Selector
  | .mk _ parent => parent

def textRegexToJson (re : TextRegex) : Json :=
  .obj [("pattern", .str re.pattern), ("ignoreCase", .bool re.ignoreCase),
    ("display", .str re.display)]

def roleToJson (role : RoleSelector) : Object :=
  let inner : Object := [("role", .str role.role), ("name", .str role.name)]
  let inner := if role.exact then inner.put "exact" (.bool true) else inner
  let inner := inner.putSome "nameRegex" (role.nameRegex.map textRegexToJson)
  (((Object.put "role" (.obj inner) []).putSome "checked" (role.checked.map .bool)).putSome
    "enabled" (role.disabled.map fun disabled => .bool !disabled)).putSome
    "selected" (role.selected.map .bool) |>.putSome "expanded" (role.expanded.map .bool)

def criterionToJson : Criterion → Object
  | .role role => roleToJson role
  | .text t => [("text", .str t)]
  | .textContains t => [("textContains", .str t)]
  | .contentDesc t => [("contentDesc", .str t)]
  | .hint t => [("hint", .str t)]
  | .className t => [("className", .str t)]
  | .testId t => [("testId", .str t)]
  | .resourceId t => [("resourceId", .str t)]
  | .xpath t => [("xpath", .str t)]
  | .label t => [("label", .str t)]
  | .textRegex re => [("textRegex", textRegexToJson re)]
  | .labelRegex re => [("labelRegex", textRegexToJson re)]

def selectorToJson : Selector → Object
  | .mk selector parent =>
    let obj : Object := selector.elim [] criterionToJson
    match parent with
    | none => obj
    | some parent => Object.put "parent" (.obj (selectorToJson parent)) obj

/-- What is done to the element, with the parameters it takes; `scale` is the JSON value of a
    floating point number. -/
inductive ElementAction
  | tap
  | longPress (durationMs : Option ℕ)
  | doubleTap (intervalMs : Option ℕ)
  | typeText (text : String) (typingDelayMs : Option ℕ)
  | clearText
  | focus
  | blur
  | highlight (durationMs : Option ℕ)
  | selectOption (option : Option String) (index : Option ℤ)
  | pinchZoom (scale : Json)
  | elementScreenshot

/-- The commands with a selector, and where it says so an element id, of their own. -/
inductive AgentCommand
  | findElement (selector : Object) (timeoutMs : Option ℕ)
  | element (action : ElementAction) (selector : Object) (timeoutMs : Option ℕ)
      (elementId : Option String)

/-- The method names of these commands. -/
inductive Method
  | findElement
  | tap
  | longPress
  | doubleTap
  | typeText
  | clearText
  | focus
  | blur
  | highlight
  | selectOption
  | pinchZoom
  | elementScreenshot
deriving DecidableEq

def ms (t : ℕ) : Json := .num t

def ElementAction.toJson (p : Object) : ElementAction → Method × Object
  | .tap => (.tap, p)
  | .longPress durationMs => (.longPress, p.putSome "duration" (durationMs.map ms))
  | .doubleTap intervalMs => (.doubleTap, p.putSome "intervalMs" (intervalMs.map ms))
  | .typeText text typingDelayMs =>
    (.typeText, (p.put "text" (.str text)).putSome "typingDelayMs" (typingDelayMs.map ms))
  | .clearText => (.clearText, p)
  | .focus => (.focus, p)
  | .blur => (.blur, p)
  | .highlight durationMs => (.highlight, p.putSome "duration" (durationMs.map ms))
  | .selectOption option index =>
    (.selectOption, (p.putSome "option" (option.map .str)).putSome "index" (index.map .num))
  | .pinchZoom scale => (.pinchZoom, p.put "scale" scale)
  | .elementScreenshot => (.elementScreenshot, p)

/-- The method and the parameters of a command. -/
def AgentCommand.toJson : AgentCommand → Method × Object
  | .findElement selector timeoutMs => (.findElement, selector.putSome "timeout" (timeoutMs.map ms))
  | .element action selector timeoutMs elementId =>
    let sent := action.toJson selector
    (sent.1, (sent.2.putSome "timeout" (timeoutMs.map ms)).putSome "elementId" (elementId.map .str))

/-- What `action_target` makes of a request: nothing when it has neither selector nor element id. -/
def actionTarget (selector : Option Selector) (elementId : String) :
    Option (Object × Option String) :=
  let elementId := if elementId = "" then none else some elementId
  match selector, elementId with
  | some selector, id => some (selectorToJson selector, id)
  | none, some id => some ([], some id)
  | none, none => none

def stampReadTimeout (readTimeoutMs : ℕ) (params : Object) : Object :=
  params.put "readTimeoutMs" (ms readTimeoutMs)

/-! ### The agent -/

structure ElementSelector where
  role : Option String
  name : Option String
  nameExact : Bool
  nameRegex : Option TextRegex
  text : Option String
  textContains : Option String
  textRegex : Option TextRegex
  contentDesc : Option String
  hint : Option String
  className : Option String
  testId : Option String
  id : Option String
  xpath : Option String
  label : Option String
  labelRegex : Option TextRegex
  enabled : Option Bool
  checked : Option Bool
  focused : Option Bool
  selected : Option Bool
  expanded : Option Bool
deriving DecidableEq

/-- `compiles` says whether the pattern, with its flag, is one for the regular expressions of the
    device. -/
structure Agent where
  coercions : Coercions
  compiles : String → Bool → Bool

variable (agent : Agent)

/-- A regular expression; nothing when it does not compile, and the selector is refused. -/
def parseTextRegex (obj : Option Object) : Option (Option TextRegex) :=
  match obj with
  | none => some none
  | some obj =>
    let pattern := (obj.optString agent.coercions "pattern").getD ""
    let re : TextRegex :=
      { pattern, ignoreCase := obj.optBoolean agent.coercions "ignoreCase" false,
        display := (obj.optString agent.coercions "display").getD ("/" ++ pattern ++ "/") }
    if agent.compiles re.pattern re.ignoreCase then some (some re) else none

/-- A flag of an element; nothing when the field is there but is no boolean. -/
def parseFlag (params : Object) (name : String) : Option (Option Bool) :=
  if params.has name then (params.getBoolean agent.coercions name).map some else some none

def notEmpty (s : String) : Option String := if s = "" then none else some s

/-- The selector in the parameters; nothing when the parser throws. -/
def parseSelectorParams (params : Object) : Option ElementSelector := do
  let string := fun name => params.optString agent.coercions name
  let roleObj := params.optJSONObject "role"
  let source := roleObj.getD params
  let nameRegex ← parseTextRegex agent (roleObj.bind (·.optJSONObject "nameRegex"))
  let textRegex ← parseTextRegex agent (params.optJSONObject "textRegex")
  let labelRegex ← parseTextRegex agent (params.optJSONObject "labelRegex")
  let enabled ← parseFlag agent params "enabled"
  let checked ← parseFlag agent params "checked"
  let focused ← parseFlag agent params "focused"
  let selected ← parseFlag agent params "selected"
  let expanded ← parseFlag agent params "expanded"
  return {
    role := (source.optString agent.coercions "role").bind notEmpty
    name := if nameRegex.isSome then none
      else (source.optString agent.coercions "name").bind notEmpty
    nameExact := roleObj.any (·.optBoolean agent.coercions "exact" false)
    nameRegex
    text := string "text"
    textContains := string "textContains"
    textRegex
    contentDesc := string "contentDesc"
    hint := string "hint"
    className := string "className"
    testId := string "testId"
    id := (string "resourceId").or (string "id")
    xpath := string "xpath"
    label := string "label"
    labelRegex
    enabled
    checked
    focused
    selected
    expanded }

/-- What a command is carried out on. -/
inductive Effect
  | finds (target : ElementSelector) (parentId : Option String)
  | acts (target : ElementSelector)
  | actsOnId (id : String)
  | atPoint (x y : ℤ)
  | typesWithoutFocus (text : String)
  | refused
deriving DecidableEq

def resolveElement (params : Object) : Effect :=
  match (params.optString agent.coercions "elementId").bind notEmpty with
  | some id => .actsOnId id
  | none => (parseSelectorParams agent params).elim .refused .acts

/-- At a point when there is one, else on the element. -/
def atPointOrElement (params : Object) : Effect :=
  let x := params.optInt agent.coercions "x" (-1)
  let y := params.optInt agent.coercions "y" (-1)
  if x ≥ 0 ∧ y ≥ 0 then .atPoint x y else resolveElement agent params

def selectorKeys : List String :=
  ["role", "id", "resourceId", "contentDesc", "className", "testId", "hint", "label", "labelRegex",
    "textContains", "textRegex", "xpath", "parent", "elementId"]

def typeText (params : Object) : Effect :=
  match params.optString agent.coercions "text" with
  | none => .refused
  | some text =>
    if selectorKeys.any params.has then resolveElement agent (params.remove "text")
    else .typesWithoutFocus text

def selectOption (params : Object) : Effect :=
  let option := params.optString agent.coercions "option"
  let index := if params.has "index" then params.getInt agent.coercions "index" else some (-1)
  match index with
  | none => .refused
  | some index => if option = none ∧ index < 0 then .refused else resolveElement agent params

def dispatch (params : Object) : Method → Effect
  | .findElement =>
    (parseSelectorParams agent params).elim .refused
      (.finds · (params.optString agent.coercions "parentId"))
  | .tap => atPointOrElement agent params
  | .longPress => atPointOrElement agent params
  | .typeText => typeText agent params
  | .selectOption => selectOption agent params
  | .doubleTap => resolveElement agent params
  | .clearText => resolveElement agent params
  | .focus => resolveElement agent params
  | .blur => resolveElement agent params
  | .highlight => resolveElement agent params
  | .pinchZoom => resolveElement agent params
  | .elementScreenshot => resolveElement agent params

/-- A command on its way from the daemon to what the agent does. -/
def AgentCommand.effect (command : AgentCommand) (readTimeoutMs : ℕ) : Effect :=
  dispatch agent (stampReadTimeout readTimeoutMs command.toJson.2) command.toJson.1

end Tapsmith.Command
