import Supergraph.Request
import Supergraph.Response
import Supergraph.Http.Status

/-!
Transport: how a request to a service ends, and the connections to all services of a gateway.

A connection answers requests one after the other. Once closed it refuses every request. An open one
passes the request on, unless its service cannot be reached, and the answer then races the limits of
the request. `Connections` keeps a record of what the services received and which were closed.

Correspondence (gateway ↔ Lean):
  `Transport.execute`        ↔ `Connections.execute`, `Connection.result`
  `Transport.close`          ↔ `Connections.close`, `Connection.close`
  `RequestContext.guard`     ↔ `RequestContext.guard`
  `ServiceRegistry.shutdown` ↔ `Connections.close`
-/

namespace Supergraph

/-- Why a request has no response. -/
inductive TransportError where
  | network
  | unexpectedStatus (code : Nat)
  | invalidBody
  | cancelled
  | deadlineExceeded (milliseconds : Nat)
  | closed
  deriving DecidableEq, Repr

/-- A duration in the largest unit that leaves no zero in front: seconds with the milliseconds as a
fraction, milliseconds, or nanoseconds for none at all. -/
def durationText (milliseconds : Nat) : String :=
  let seconds := milliseconds / 1000
  let rest := milliseconds % 1000
  if milliseconds = 0 then "0ns"
  else if seconds = 0 then toString milliseconds ++ "ms"
  else if rest = 0 then toString seconds ++ "s"
  else
    let digits := Nat.toDigits 10 rest
    let padded := List.replicate (3 - digits.length) '0' ++ digits
    let fraction := (padded.reverse.dropWhile (· = '0')).reverse
    toString seconds ++ "." ++ String.ofList fraction ++ "s"

def TransportError.message : TransportError → String
  | network => "network error: "
  | unexpectedStatus code => "unexpected HTTP status: " ++ Http.statusText code
  | invalidBody => "invalid response body: "
  | cancelled => "request cancelled"
  | deadlineExceeded milliseconds => "deadline of " ++ durationText milliseconds ++ " exceeded"
  | closed => "transport is closed"

/-- What a service does with a request. -/
inductive Reply where
  | response (raw : Option RawJson)
  | status (code : Nat)
  | failure (error : TransportError)
  | silence

/-- How a reply ends the request, if it does. -/
def Reply.outcome? : Reply → Option (Except TransportError Response)
  | response raw =>
    match raw.bind Response.ofRaw? with
    | some answer => some (.ok answer)
    | none => some (.error .invalidBody)
  | status code => some (.error (.unexpectedStatus code))
  | failure error => some (.error error)
  | silence => none

namespace RequestContext

/-- How a request ends that nothing else ends: by the first of its limits. Without a limit it would wait
forever; it is taken to be given up by its caller, and so cancelled. -/
def expiry (context : RequestContext) : TransportError :=
  match context.timeout, context.cancellation with
  | some timeout, some cancellation =>
    if cancellation ≤ timeout then .cancelled else .deadlineExceeded timeout
  | some timeout, none => .deadlineExceeded timeout
  | none, _ => .cancelled

/-- How a request ends when its outcome races its limits. A request that is cancelled from the start
has lost; an outcome comes before any later limit. -/
def guard (context : RequestContext) (outcome : Option (Except TransportError Response)) :
    Except TransportError Response :=
  if context.cancellation = some 0 then .error .cancelled
  else outcome.getD (.error context.expiry)

end RequestContext

/-- A connection to a service: whether it is open, whether the service can be reached, and the
replies that the service has in store. -/
structure Connection where
  service : String
  isOpen : Bool
  reachable : Bool
  replies : List Reply

namespace Connection

/-- An open connection to a service that replies as told. -/
def scripted (service : String) (replies : List Reply) : Connection :=
  ⟨service, true, true, replies⟩

def unreachable (service : String) : Connection := ⟨service, true, false, []⟩

def close (connection : Connection) : Connection := { connection with isOpen := false }

/-- Whether a request would get to the service. -/
def passes (connection : Connection) : Bool := connection.isOpen && connection.reachable

/-- What the next request meets. A service without replies left is unavailable. -/
def nextReply (connection : Connection) : Reply :=
  if connection.reachable then connection.replies.headD (.status 503) else .failure .network

/-- How the next request ends. One without limits to a silent service does not: here it is cancelled
(`RequestContext.expiry`). -/
def result (connection : Connection) (context : RequestContext) : Except TransportError Response :=
  if connection.isOpen then context.guard connection.nextReply.outcome? else .error .closed

def advance (connection : Connection) : Connection :=
  if connection.passes then { connection with replies := connection.replies.tail } else connection

end Connection

/-- What happens on the connections of a gateway. -/
inductive Event where
  | received (service : String) (request : Request)
  | closed (service : String)

/-- The connections of a gateway, and what happened on them. -/
structure Connections where
  links : List Connection
  events : List Event

def updateLast {α : Type} (condition : α → Bool) (change : α → α) (items : List α) : List α :=
  match items with
  | [] => []
  | item :: rest =>
    if !rest.any condition && condition item then change item :: rest
    else item :: updateLast condition change rest

namespace Connections

/-- The connection to a service; of several the last. -/
def find? (connections : Connections) (service : String) : Option Connection :=
  connections.links.reverse.find? fun link => link.service = service

/-- Sends a request to a service. A service without connection is like a closed one. -/
def execute (connections : Connections) (service : String) (request : Request)
    (context : RequestContext) : Except TransportError Response × Connections :=
  match connections.find? service with
  | none => (.error .closed, connections)
  | some link =>
    let events := if link.passes then [.received service request] else []
    (link.result context,
      ⟨updateLast (fun link => link.service = service) Connection.advance connections.links,
        connections.events ++ events⟩)

def close (connections : Connections) : Connections :=
  ⟨connections.links.map Connection.close,
    connections.events ++ connections.links.map fun link => .closed link.service⟩

end Connections

end Supergraph
