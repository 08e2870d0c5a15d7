import Tapsmith.Lib.Channel
import Tapsmith.Lib.Machine
import Tapsmith.Route.Glob

namespace Tapsmith.Route.Registry

open Lib.Channel Lib.Machine

/-!
# Routes on both sides of the stream

The routes of a session are held twice.  The manager of the SDK (`NetworkRouteManager` in
`network.ts`) has the handlers; the daemon (`route_handler.rs`) has, on the handler of each
`NetworkRoute` stream, the patterns that decide what is intercepted.  The two talk through the
stream, which may drop at any time and is then opened again from what the manager has.

* `NetworkRouteManager`, `World.addRoute`, `World.unregisterAndAwait`, `World.ensureStream`,
  `World.onStreamDropped` — the side of the SDK;
* `registerRoute`, `unregisterRoute`, `matchRoute`, `applyMessage`, `answer` — the side of the daemon;
* `World.step` — both, and the messages on their way, in any order of steps.

Ids (`crypto.randomUUID`) are counted.  Handlers and scopes are the numbers of objects.
-/

/-! ### Messages -/

/-- The pattern of `device.route()`: a string, a `RegExp`, or the identity of a predicate. -/
inductive UrlPattern
  | glob (text : List Char)
  | regExp (source flags : List Char)
  | predicate (object : ℕ)
deriving DecidableEq

/-- What the daemon is sent. -/
def patternToGlob : UrlPattern → List Char
  | .glob text => text
  -- filtered in the SDK
  | _ => "**".toList

def UrlPattern.isString : UrlPattern → Bool
  | .glob _ => true
  | _ => false

/-- From the SDK. -/
inductive ClientMessage
  | subscribeEvents
  | unsubscribeEvents
  | registerRoute (routeId : ℕ) (urlPattern : List Char)
  | unregisterRoute (routeId : ℕ)
  | routeDecision (interceptId : ℕ)

/-- A request that waits for the decision of the route. -/
structure InterceptedRequest where
  interceptId : ℕ
  routeId : ℕ

/-- From the daemon. -/
inductive ServerMessage
  | registerRouteResponse (routeId : ℕ) (success : Bool)
  | unregisterRouteResponse (routeId : ℕ)
  | interceptedRequest (request : InterceptedRequest)

/-! ### The daemon -/

/-- A compiled registration. -/
structure RegisteredRoute where
  routeId : ℕ
  isMatch : List Char → Bool

/-- `glob_to_regex`: the expression, where the crate takes it. -/
def compile (crate : RegexCrate) (urlPattern : List Char) : Option (List Char → Bool) :=
  crate.new (globToRegex crate urlPattern)

/-- `register_route`: the routes, and whether it is `Ok`. -/
def registerRoute (crate : RegexCrate) (routes : List RegisteredRoute) (routeId : ℕ)
    (urlPattern : List Char) : List RegisteredRoute × Bool :=
  match compile crate urlPattern with
  | some isMatch => (routes ++ [{ routeId, isMatch }], true)
  | none => (routes, false)

def unregisterRoute (routes : List RegisteredRoute) (routeId : ℕ) : List RegisteredRoute :=
  routes.filter (·.routeId ≠ routeId)

/-- `match_route`: the last one that matches. -/
def matchRoute (routes : List RegisteredRoute) (url : List Char) : Option ℕ :=
  (routes.reverse.find? (·.isMatch url)).map (·.routeId)

/-- What a message does to the routes of the handler. -/
def applyMessage (crate : RegexCrate) (routes : List RegisteredRoute) :
    ClientMessage → List RegisteredRoute
  | .registerRoute routeId urlPattern => (registerRoute crate routes routeId urlPattern).1
  | .unregisterRoute routeId => unregisterRoute routes routeId
  | _ => routes

/-- What is answered. -/
def answer (crate : RegexCrate) (routes : List RegisteredRoute) :
    ClientMessage → List ServerMessage
  | .registerRoute routeId urlPattern =>
    [.registerRouteResponse routeId (registerRoute crate routes routeId urlPattern).2]
  | .unregisterRoute routeId => [.unregisterRouteResponse routeId]
  | _ => []

/-! ### The SDK -/

structure RegisteredRouteInfo where
  routeId : ℕ
  urlPattern : List Char
  originalPattern : UrlPattern
  handler : ℕ
  timesRemaining : Option ℤ
  scope : Option ℕ
  confirmed : Bool

/-- The fields of the manager that routes depend on; `routes` in the order of the `Map`. -/
structure NetworkRouteManager where
  stream : Option ℕ
  routes : List RegisteredRouteInfo
  eventsWanted : Bool
  subscribedStream : Option ℕ
  reopenTimer : Bool

/-- A `NetworkRoute` stream: what is on its way to the handler of the daemon and the routes it
    has, what the handler has sent and a task of its own is to forward (`to_sdk`), what is on its
    way to the SDK (`out`), and the calls whose listeners are on the stream. -/
structure Stream where
  link : Link ClientMessage (List RegisteredRoute)
  toSdk : List InterceptedRequest
  out : List ServerMessage
  registering : List ℕ
  removing : List ℕ

def Stream.fresh : Stream :=
  { link := { queue := [], copy := [] }, toSdk := [], out := [], registering := [], removing := [] }

/-- Both sides.  Streams are numbered as the SDK opens them; the daemon has accepted those below
    `accepted`, but for the ones that were lost before they came that far.  A request in the proxy
    has taken the handler of a stream (`arrived`), and is then matched (`matched`). -/
structure World where
  sdk : NetworkRouteManager
  streams : ℕ → Stream
  opened : ℕ
  accepted : ℕ
  activeHandler : Option ℕ
  arrived : List (ℕ × List Char)
  matched : List (ℕ × InterceptedRequest)
  nextRoute : ℕ
  nextIntercept : ℕ

def World.init : World where
  sdk :=
    { stream := none, routes := [], eventsWanted := false, subscribedStream := none
      reopenTimer := false }
  streams := fun _ => .fresh
  opened := 0
  accepted := 0
  activeHandler := none
  arrived := []
  matched := []
  nextRoute := 0
  nextIntercept := 0

def World.setStream (w : World) (s : ℕ) (stream : Stream) : World :=
  { w with streams := Function.update w.streams s stream }

/-- `stream.write`. -/
def World.write (w : World) (s : ℕ) (m : ClientMessage) : World :=
  w.setStream s { w.streams s with link := (w.streams s).link.send m }

/-- Writes to the stream that is open, if one is. -/
def World.safeWrite (w : World) (m : ClientMessage) : World :=
  match w.sdk.stream with
  | some s => w.write s m
  | none => w

/-- `_replayState`: what is written first on a new stream. -/
def NetworkRouteManager.replayed (sdk : NetworkRouteManager) : List ClientMessage :=
  (if sdk.eventsWanted then [.subscribeEvents] else []) ++
    (sdk.routes.filter (·.confirmed)).map fun info => .registerRoute info.routeId info.urlPattern

/-- A new stream, with the state of the manager replayed onto it. -/
def World.openStream (w : World) : World :=
  { w with
    sdk :=
      { w.sdk with
        stream := some w.opened
        subscribedStream := if w.sdk.eventsWanted then some w.opened else w.sdk.subscribedStream
        reopenTimer := false }
    streams := Function.update w.streams w.opened
      { Stream.fresh with link := { queue := w.sdk.replayed, copy := [] } }
    opened := w.opened + 1 }

/-- `_ensureStream`: the stream, and the world with it. -/
def World.ensureStream (w : World) : ℕ × World :=
  match w.sdk.stream with
  | some s => (s, w)
  | none => (w.opened, w.openStream)

def World.setRoutes (w : World) (routes : List RegisteredRouteInfo) : World :=
  { w with sdk := { w.sdk with routes } }

/-- `_routes.delete`. -/
def World.deleteRoute (w : World) (routeId : ℕ) : World :=
  w.setRoutes (w.sdk.routes.filter (·.routeId ≠ routeId))

/-- What is noted of a route before the daemon knows of it. -/
def RegisteredRouteInfo.unconfirmed (routeId : ℕ) (originalPattern : UrlPattern) (handler : ℕ)
    (times : Option ℤ) (scope : Option ℕ) : RegisteredRouteInfo :=
  { routeId, urlPattern := patternToGlob originalPattern, originalPattern, handler
    timesRemaining := times, scope, confirmed := false }

/-- `addRoute` listens for the answer, and writes. -/
def World.awaitRegistration (w : World) (s : ℕ) (info : RegisteredRouteInfo) : World :=
  w.setStream s
    { w.streams s with
      link := (w.streams s).link.send (.registerRoute info.routeId info.urlPattern)
      registering := (w.streams s).registering ++ [info.routeId] }

/-- `addRoute`, up to the wait for the answer. -/
def World.addRoute (w : World) (originalPattern : UrlPattern) (handler : ℕ) (times : Option ℤ)
    (scope : Option ℕ) : World :=
  let info := RegisteredRouteInfo.unconfirmed w.nextRoute originalPattern handler times scope
  -- a stream that is opened here is written the confirmed routes first
  let r := World.ensureStream
    { w.setRoutes (w.sdk.routes ++ [info]) with nextRoute := w.nextRoute + 1 }
  r.2.awaitRegistration r.1 info

/-- `_unregisterAndAwait` listens for the answer, and writes. -/
def World.awaitRemoval (w : World) (s routeId : ℕ) : World :=
  w.setStream s
    { w.streams s with
      link := (w.streams s).link.send (.unregisterRoute routeId)
      removing := (w.streams s).removing ++ [routeId] }

/-- `_unregisterAndAwait`, up to the wait for the answer. -/
def World.unregisterAndAwait (w : World) (routeId : ℕ) : World :=
  let r := w.ensureStream
  r.2.awaitRemoval r.1 routeId

/-- `_removeWhere`. -/
def World.removeWhere (w : World) (selects : RegisteredRouteInfo → Bool) : World :=
  ((w.sdk.routes.filter selects).map (·.routeId)).foldl World.unregisterAndAwait w

/-- `removeRoute`: those of the pattern, and of the handler if one is given. -/
def World.removeRoute (w : World) (pattern : UrlPattern) (handler : Option ℕ) : World :=
  w.removeWhere fun info =>
    info.originalPattern = pattern ∧ (handler = none ∨ handler = some info.handler)

def World.removeAllRoutes (w : World) : World := w.removeWhere fun _ => true

def World.removeTestRoutes (w : World) : World := w.removeWhere fun info => info.scope = none

def World.removeScopeRoutes (w : World) (scope : ℕ) : World :=
  w.removeWhere fun info => info.scope = some scope

/-- `ensureEventsSubscribed`. -/
def World.ensureEventsSubscribed (w : World) : World :=
  let (s, w) := World.ensureStream { w with sdk := { w.sdk with eventsWanted := true } }
  if w.sdk.subscribedStream = some s then w
  else World.write { w with sdk := { w.sdk with subscribedStream := some s } } s .subscribeEvents

/-- `_unsubscribeIfUnused`, where no listener is left. -/
def World.unsubscribeIfUnused (w : World) : World :=
  if w.sdk.eventsWanted then
    let wanted := { w with sdk := { w.sdk with eventsWanted := false } }
    if w.sdk.stream.isSome ∧ w.sdk.subscribedStream = w.sdk.stream then
      World.safeWrite { wanted with sdk := { wanted.sdk with subscribedStream := none } }
        .unsubscribeEvents
    else wanted
  else w

def NetworkRouteManager.hasStateToRestore (sdk : NetworkRouteManager) : Bool :=
  sdk.eventsWanted || sdk.routes.any (·.confirmed)

/-- The timer of `_scheduleReopen` has expired. -/
def World.reopen (w : World) : World :=
  let fired := { w with sdk := { w.sdk with reopenTimer := false } }
  if w.sdk.stream = none ∧ w.sdk.hasStateToRestore then fired.ensureStream.2 else fired

/-- What a run shows: a route is added, or removed (answered on a stream, or for want of one), a
    request is given to the handler of a stream, which finds a route for it, and a handler of the
    user is called. -/
inductive Event
  | added (routeId : ℕ) (times : Option ℤ)
  | removed (routeId : ℕ) (answeredOn : Option ℕ)
  | given (s : ℕ)
  | matched (s routeId : ℕ)
  | called (routeId : ℕ)
deriving DecidableEq

/-- `_onStreamDropped`, and after it the listeners of the calls that wait on the stream. -/
def World.onStreamDropped (w : World) (s : ℕ) : World × List Event :=
  let stream := w.streams s
  let sdk :=
    if w.sdk.stream = some s then
      { w.sdk with stream := none, subscribedStream := none, reopenTimer := true }
    else w.sdk
  let waiting := stream.registering ++ stream.removing
  let w := { w with sdk := { sdk with routes := sdk.routes.filter (·.routeId ∉ waiting) } }
  (w.setStream s { stream with registering := [], removing := [] },
    stream.removing.map fun routeId => .removed routeId none)

/-- The answer to `registerRoute`, for the listener of `addRoute`. -/
def World.onRegistered (w : World) (s routeId : ℕ) (success : Bool) : World :=
  let stream := w.streams s
  if routeId ∈ stream.registering then
    let w := w.setStream s { stream with registering := stream.registering.filter (· ≠ routeId) }
    if success then
      w.setRoutes (w.sdk.routes.map fun info =>
        if info.routeId = routeId then { info with confirmed := true } else info)
    else w.deleteRoute routeId
  -- the listener of `_replayState` only warns
  else w

/-- The answer to `unregisterRoute`, for the listeners of `_unregisterAndAwait`. -/
def World.onUnregistered (w : World) (s routeId : ℕ) : World × List Event :=
  let stream := w.streams s
  if routeId ∈ stream.removing then
    ((w.setStream s { stream with removing := stream.removing.filter (· ≠ routeId) }).deleteRoute
      routeId, [.removed routeId (some s)])
  else (w, [])

/-- The `times` of a route that is called. -/
def World.countDown (w : World) (info : RegisteredRouteInfo) : World :=
  match info.timesRemaining with
  | none => w
  | some remaining =>
    if remaining - 1 ≤ 0 then
      (w.deleteRoute info.routeId).safeWrite (.unregisterRoute info.routeId)
    else
      w.setRoutes (w.sdk.routes.map fun i =>
        if i.routeId = info.routeId then { i with timesRemaining := some (remaining - 1) } else i)

/-- `_handleInterceptedRequest`, as far as the call of the handler; `accepts` is what a `RegExp`
    or a predicate says of the URL. -/
def World.handleInterceptedRequest (w : World) (request : InterceptedRequest) (accepts : Bool) :
    World × List Event :=
  match w.sdk.routes.find? (·.routeId = request.routeId) with
  | none => (w.safeWrite (.routeDecision request.interceptId), [])
  | some info =>
    if info.originalPattern.isString = false ∧ accepts = false then
      (w.safeWrite (.routeDecision request.interceptId), [])
    else (w.countDown info, [.called request.routeId])

/-- A message is delivered to the listeners of its stream. -/
def World.onMessage (w : World) (s : ℕ) (accepts : Bool) : ServerMessage → World × List Event
  | .registerRouteResponse routeId success => (w.onRegistered s routeId success, [])
  | .unregisterRouteResponse routeId => w.onUnregistered s routeId
  | .interceptedRequest request => w.handleInterceptedRequest request accepts

/-! ### Steps -/

/-- What happens next: a call of the SDK, a callback in it, or something in the daemon. -/
inductive Op
  | addRoute (pattern : UrlPattern) (handler : ℕ) (times : Option ℤ) (scope : Option ℕ)
  | removeRoute (pattern : UrlPattern) (handler : Option ℕ)
  | removeAllRoutes
  | removeTestRoutes
  | removeScopeRoutes (scope : ℕ)
  | ensureEventsSubscribed
  | unsubscribe
  | decide (interceptId : ℕ)
  | reopen
  | drop (s : ℕ)
  | deliver (s : ℕ) (accepts : Bool)
  | accept (s : ℕ)
  | read (s : ℕ)
  | close (s : ℕ)
  | request (url : List Char)
  | matchRoute (i : ℕ)
  | intercept (i : ℕ)
  | forward (s : ℕ)

/-- The daemon takes up a stream: its handler is the one that requests are given to. -/
def World.networkRoute (w : World) (s : ℕ) : World :=
  { w with accepted := s + 1, activeHandler := some s }

/-- The read loop of a stream has ended; a newer handler stays. -/
def World.closeHandler (w : World) (s : ℕ) : World :=
  { w with activeHandler := if w.activeHandler = some s then none else w.activeHandler }

/-- `intercept` finds the route of the `i`-th request that has arrived. -/
def World.matchRequest (w : World) (i s : ℕ) (url : List Char) : World × List Event :=
  let w := { w with arrived := w.arrived.eraseIdx i }
  match matchRoute (w.streams s).link.copy url with
  | none => (w, [])
  | some routeId =>
    ({ w with
        matched := w.matched ++ [(s, { interceptId := w.nextIntercept, routeId })]
        nextIntercept := w.nextIntercept + 1 },
      [.matched s routeId])

/-- The rest of `intercept`: the `i`-th request that is matched is sent. -/
def World.intercept (w : World) (i s : ℕ) (request : InterceptedRequest) : World :=
  World.setStream { w with matched := w.matched.eraseIdx i } s
    { w.streams s with toSdk := (w.streams s).toSdk ++ [request] }

/-- The task of a stream forwards what its handler has sent. -/
def World.forward (w : World) (s : ℕ) (request : InterceptedRequest)
    (rest : List InterceptedRequest) : World :=
  w.setStream s
    { w.streams s with
      toSdk := rest, out := (w.streams s).out ++ [.interceptedRequest request] }

def World.step (crate : RegexCrate) (w : World) : Op → Option (World × List Event)
  | .addRoute pattern handler times scope =>
    some (w.addRoute pattern handler times scope, [.added w.nextRoute times])
  | .removeRoute pattern handler => some (w.removeRoute pattern handler, [])
  | .removeAllRoutes => some (w.removeAllRoutes, [])
  | .removeTestRoutes => some (w.removeTestRoutes, [])
  | .removeScopeRoutes scope => some (w.removeScopeRoutes scope, [])
  | .ensureEventsSubscribed => some (w.ensureEventsSubscribed, [])
  | .unsubscribe => some (w.unsubscribeIfUnused, [])
  | .decide interceptId => some (w.safeWrite (.routeDecision interceptId), [])
  | .reopen => if w.sdk.reopenTimer then some (w.reopen, []) else none
  | .drop s => if s < w.opened then some (w.onStreamDropped s) else none
  | .deliver s accepts =>
    match (w.streams s).out with
    | [] => none
    | m :: rest => some ((w.setStream s { w.streams s with out := rest }).onMessage s accepts m)
  | .accept s =>
    if w.accepted ≤ s ∧ s < w.opened then some (w.networkRoute s, []) else none
  | .read s =>
    if s < w.accepted then
      ((w.streams s).link.receive (applyMessage crate)).map fun (m, link) =>
        (w.setStream s
          { w.streams s with
            link, out := (w.streams s).out ++ answer crate (w.streams s).link.copy m }, [])
    else none
  | .close s => if s < w.accepted then some (w.closeHandler s, []) else none
  | .request url =>
    match w.activeHandler with
    | none => some (w, [])
    | some s => some ({ w with arrived := w.arrived ++ [(s, url)] }, [.given s])
  | .matchRoute i => w.arrived[i]?.map fun (s, url) => w.matchRequest i s url
  | .intercept i => w.matched[i]?.map fun (s, request) => (w.intercept i s request, [])
  | .forward s =>
    match (w.streams s).toSdk with
    | [] => none
    | request :: rest => some (w.forward s request rest, [])

end Tapsmith.Route.Registry
