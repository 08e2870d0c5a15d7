import Mathlib.Logic.Function.Basic
import Tapsmith.Lib.Machine

namespace Tapsmith.Command.Connection

/-!
# Commands over a kept connection

`send_with_persistent_cache` (`agent_comms.rs`) and the agent's `CommandConnection.kt` together: the
daemon sends one command after the other over a connection that it keeps, and tries a command once
more over a new one; the agent reads each connection on a thread of its own, and runs every command
on another thread, with a token that is cancelled when the connection is closed.

* `Conn`, `agentStep` — one connection, and the agent's two threads at it;
* `System`, `daemonStep` — the calls of the daemon;
* `step` — one action of anybody, the network included.
-/

variable {C R : Type}

/-- One copy of a command, sent by a call. -/
structure Request (C : Type) where
  id : ℕ
  call : ℕ
  command : C
deriving DecidableEq

/-- The answer to a request.  It says which request it is to, unless the agent could not tell. -/
structure Answer (C R : Type) where
  request : Request C
  id : Option ℕ
  response : R
deriving DecidableEq

/-- A line on its way to the agent; not whole when the daemon went away while writing it. -/
structure Line (C : Type) where
  request : Request C
  whole : Bool
deriving DecidableEq

/-! ### The agent -/

/-- How far the thread of a command is: the command runs, it is done, the token was found not to be
    cancelled, the answer is written, the thread has returned. -/
inductive Phase
  | handling
  | handled
  | checked
  | written
  | returned
deriving DecidableEq

/-- One command, with its token and what it answers. -/
structure Run (C R : Type) where
  line : Line C
  phase : Phase := .handling
  cancelled : Bool := false
  answer : Option (Answer C R) := none
  wrote : Bool := false
deriving DecidableEq

/-- What the thread that reads a connection does: it reads, it waits with a line for the command
    before it, or it has ended. -/
inductive Serve (C : Type)
  | reading
  | waiting (line : Line C)
  | ended
deriving DecidableEq

def Serve.isEnded : Serve C → Bool
  | .ended => true
  | _ => false

/-- A connection.  `opened` says that the daemon holds its stream, `broken` that the network lost
    it; `sent`, `written` and `got` are all that the daemon sent, the agent wrote and the daemon
    read. -/
structure Conn (C R : Type) where
  opened : Bool := false
  broken : Bool := false
  toAgent : List (Line C) := []
  toDaemon : List (Answer C R) := []
  serve : Serve C := .reading
  runs : List (Run C R) := []
  sent : List (Request C) := []
  written : List (Answer C R) := []
  got : List (Answer C R) := []
deriving DecidableEq

inductive AgentAction (R : Type)
  | recv
  | start
  | eof
  | stop
  | finish (i : ℕ) (response : R) (withId : Bool)
  | check (i : ℕ)
  | write (i : ℕ)
  | done (i : ℕ)

namespace Conn

/-- What is written into a connection arrives, unless it broke or one side has closed it. -/
def carries (conn : Conn C R) : Bool := conn.opened && !conn.broken && !conn.serve.isEnded

/-- `inFlight` is the command that was started last. -/
def inFlightDone (conn : Conn C R) : Bool := conn.runs.getLast?.all (·.phase = .returned)

/-- `serve` returns, and cancels the token of the command that was started last. -/
def endServe (conn : Conn C R) : Conn C R :=
  { conn with
    serve := .ended
    runs := conn.runs.dropLast ++
      (conn.runs.getLast?.map fun run => { run with cancelled := true }).toList }

/-- One step of the thread of a command. -/
def updateRun (conn : Conn C R) (i : ℕ) (phase : Phase) (f : Run C R → Run C R) :
    Option (Conn C R) :=
  (conn.runs[i]?).bind fun run =>
    if run.phase = phase then some { conn with runs := conn.runs.set i (f run) } else none

end Conn

/-- The answer of a command; it has the id of the request when the line could be read. -/
def answerTo (line : Line C) (response : R) (withId : Bool) : Answer C R :=
  { request := line.request
    id := if line.whole ∧ withId then some line.request.id else none
    response }

def agentStep (conn : Conn C R) : AgentAction R → Option (Conn C R)
  | .recv =>
    match conn.serve, conn.toAgent with
    | .reading, line :: rest => some { conn with toAgent := rest, serve := .waiting line }
    | _, _ => none
  | .start =>
    match conn.serve with
    | .waiting line =>
      if conn.inFlightDone then
        some { conn with serve := .reading, runs := conn.runs ++ [{ line }] }
      else none
    | _ => none
  | .eof =>
    match conn.serve, conn.toAgent with
    | .reading, [] => if conn.opened = false ∨ conn.broken then some conn.endServe else none
    | _, _ => none
  | .stop => if conn.serve.isEnded then none else some conn.endServe
  | .finish i response withId =>
    conn.updateRun i .handling fun run =>
      { run with phase := .handled, answer := some (answerTo run.line response withId) }
  | .check i =>
    -- the answer to an abandoned command is dropped
    conn.updateRun i .handled fun run =>
      { run with phase := if run.cancelled then .returned else .checked }
  | .write i =>
    (conn.runs[i]?).bind fun run => run.answer.bind fun answer =>
      (conn.updateRun i .checked fun run => { run with phase := .written, wrote := true }).map
        fun conn =>
          { conn with
            written := conn.written ++ [answer]
            toDaemon := conn.toDaemon ++ if conn.carries then [answer] else [] }
  | .done i => conn.updateRun i .written fun run => { run with phase := .returned }

/-! ### The network and the daemon's side -/

inductive NetworkAction
  | broke
  | lost (toAgent toDaemon : ℕ)

/-- A connection that broke, or that one side has closed, may lose what is still on its way. -/
def networkStep (conn : Conn C R) : NetworkAction → Option (Conn C R)
  | .broke => some { conn with broken := true }
  | .lost n m =>
    if conn.broken ∨ conn.opened = false ∨ conn.serve.isEnded then
      some { conn with toAgent := conn.toAgent.take n, toDaemon := conn.toDaemon.take m }
    else none

def Conn.send (conn : Conn C R) (request : Request C) (whole : Bool) : Conn C R :=
  { conn with
    toAgent := conn.toAgent ++ if conn.carries then [{ request, whole }] else []
    sent := conn.sent ++ [request] }

def Conn.close (conn : Conn C R) : Conn C R := { conn with opened := false }

/-- The daemon reads the next answer. -/
def Conn.take (conn : Conn C R) : Option (Answer C R × Conn C R) :=
  match conn.toDaemon with
  | [] => none
  | answer :: rest =>
    some (answer, { conn with toDaemon := rest, got := conn.got ++ [answer] })

/-! ### The daemon -/

/-- How far a call is; from `writing` on it holds a stream, and the cache is empty. -/
inductive CallPhase (C : Type)
  | head
  | connecting
  | writing (c : ℕ)
  | reading (c : ℕ) (request : Request C)
  | probing (c : ℕ)
deriving DecidableEq

structure Call (C : Type) where
  id : ℕ
  command : C
  retried : Bool := false
  phase : CallPhase C := .head
deriving DecidableEq

/-- An Ok response, and the call that returned it. -/
structure Returned (C R : Type) where
  call : ℕ
  command : C
  answer : Answer C R

/-- All connections there ever were, and the one call that has the lock of the cache.  The numbers
    below `nextConn`, `nextCall` and `nextRequest` are taken. -/
structure System (C R : Type) where
  conns : ℕ → Conn C R := fun _ => {}
  nextConn : ℕ := 0
  nextCall : ℕ := 0
  nextRequest : ℕ := 0
  cache : Option ℕ := none
  active : Option (Call C) := none
  returned : List (Returned C R) := []

inductive DaemonAction (C : Type)
  | begin (command : C) (portChanged : Bool)
  | takeStream
  | connected
  | connectFailed
  | wrote
  | writeFailed (sent : Option Bool)
  | flushFailed
  | readLine
  | readFailed
  | connectionLost
  | probed (alive : Bool)
  | cancel (sent : Option Bool)
  | clearCache

namespace System

def update (s : System C R) (c : ℕ) (conn : Conn C R) : System C R :=
  { s with conns := Function.update s.conns c conn }

/-- The stream is dropped. -/
def drop (s : System C R) (c : ℕ) : System C R :=
  s.update c (s.conns c).close

def dropCached (s : System C R) : System C R :=
  s.cache.elim s fun c => { s.drop c with cache := none }

/-- The stream that a call has taken out of the cache. -/
def CallPhase.stream : CallPhase C → Option ℕ
  | .head => none
  | .connecting => none
  | .writing c => some c
  | .reading c _ => some c
  | .probing c => some c

/-- The call returns an error, or its future is dropped; with it goes the stream it holds. -/
def fail (s : System C R) (call : Call C) : System C R :=
  { (CallPhase.stream call.phase).elim s s.drop with active := none }

/-- An error of the class `Connect`: the loop is run once more. -/
def retryOrFail (s : System C R) (call : Call C) : System C R :=
  if call.retried then s.fail call
  else { s.fail call with active := some { call with retried := true, phase := .head } }

/-- The request of a call, when it is sent now. -/
def request (s : System C R) (call : Call C) : Request C :=
  { id := s.nextRequest, call := call.id, command := call.command }

def send (s : System C R) (c : ℕ) (call : Call C) (whole : Bool) : System C R :=
  { s.update c ((s.conns c).send (s.request call) whole) with nextRequest := s.nextRequest + 1 }

end System

/-- One line of answer: the call returns it, and the stream goes back into the cache, unless the line
    is an answer to another request. -/
def readLine (s : System C R) (call : Call C) (c : ℕ) (request : Request C) :
    Option (System C R) :=
  (s.conns c).take.map fun (answer, conn) =>
    let s := s.update c conn
    if answer.id.all (· = request.id) then
      { s with
        cache := some c
        active := none
        returned := s.returned ++ [{ call := call.id, command := call.command, answer }] }
    else s.fail call

def callStep (s : System C R) (call : Call C) : DaemonAction C → Option (System C R)
  | .takeStream =>
    match call.phase with
    | .head =>
      some { s with
        cache := none
        active := some { call with phase := s.cache.elim .connecting .writing } }
    | _ => none
  | .connected =>
    match call.phase with
    | .connecting =>
      some { s.update s.nextConn { opened := true } with
        nextConn := s.nextConn + 1
        active := some { call with phase := .writing s.nextConn } }
    | _ => none
  | .connectFailed =>
    match call.phase with
    | .connecting => some (s.retryOrFail call)
    | _ => none
  | .wrote =>
    match call.phase with
    | .writing c =>
      some { s.send c call true with
        active := some { call with phase := .reading c (s.request call) } }
    | _ => none
  | .writeFailed sent =>
    match call.phase with
    | .writing c => some ((sent.elim s (s.send c call)).retryOrFail call)
    | _ => none
  | .flushFailed =>
    match call.phase with
    | .writing c => some ((s.send c call true).fail call)
    | _ => none
  | .readLine =>
    match call.phase with
    | .reading c request => readLine s call c request
    | _ => none
  | .readFailed =>
    match call.phase with
    | .reading _ _ => some (s.fail call)
    | _ => none
  | .connectionLost =>
    match call.phase with
    | .reading c _ =>
      if (s.conns c).serve.isEnded ∨ (s.conns c).broken then
        some { s with active := some { call with phase := .probing c } }
      else none
    | _ => none
  | .probed alive =>
    match call.phase with
    | .probing _ => some (if alive then s.retryOrFail call else s.fail call)
    | _ => none
  | .cancel sent =>
    match call.phase with
    | .writing c => some ((sent.elim s (s.send c call)).fail call)
    | _ => some (s.fail call)
  | .begin _ _ => none
  | .clearCache => none

def daemonStep (s : System C R) (action : DaemonAction C) : Option (System C R) :=
  match s.active with
  | some call => callStep s call action
  | none =>
    match action with
    | .begin command portChanged =>
      let s := if portChanged then s.dropCached else s
      some { s with active := some { id := s.nextCall, command }, nextCall := s.nextCall + 1 }
    | .clearCache => some s.dropCached
    | _ => none

/-! ### The system -/

inductive Action (C R : Type)
  | daemon (action : DaemonAction C)
  | agent (c : ℕ) (action : AgentAction R)
  | network (c : ℕ) (action : NetworkAction)

/-- An action at a connection that the agent has accepted. -/
def step (s : System C R) : Action C R → Option (System C R)
  | .daemon action => daemonStep s action
  | .agent c action =>
    if c < s.nextConn then (agentStep (s.conns c) action).map (s.update c) else none
  | .network c action =>
    if c < s.nextConn then (networkStep (s.conns c) action).map (s.update c) else none

/-- The states that some order of actions leads to. -/
def Reachable (s : System C R) : Prop :=
  ∃ actions : List (Action C R), Lib.Machine.Run (fun s a s' => step s a = some s') {} actions s

end Tapsmith.Command.Connection
