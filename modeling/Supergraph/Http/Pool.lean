import Supergraph.Transport
import Supergraph.Service.Config

/-!
The socket pool of one service, as a machine that takes one step at a time.

A call waits for a socket, posts its request over it, and ends; it may be interrupted at any point,
and gives its socket back however it ends. Closing the pool ends every call that has not posted yet
as soon as it is its turn.

Correspondence (gateway ↔ Lean):
  `HttpTransport.new`                        ↔ `Pool.ofConfig`
  `HttpTransport.send`, waiting and posting  ↔ `Step.post`
  `HttpTransport.send`, to its end           ↔ `Step.finish`
  `RequestContext.guard`, where a limit wins ↔ `Step.interrupt`
  `HttpTransport.close`                      ↔ `Step.close`
-/

namespace Supergraph.Http

/-- How an exchange over a socket ends: without a complete answer, or with a status and a body. -/
inductive Exchange where
  | broken
  | answered (status : Nat) (body : Option RawJson)

/-- What an exchange means for the call: only status 200 counts, and its body has to be a
response. -/
def Exchange.outcome : Exchange → Except TransportError Response
  | broken => .error .network
  | answered status body =>
    if status = 200 then
      match body.bind Response.ofRaw? with
      | some response => .ok response
      | none => .error .invalidBody
    else .error (.unexpectedStatus status)

inductive Call where
  | waiting
  | posting
  | ended (result : Except TransportError Response)

def Call.result? : Call → Option (Except TransportError Response)
  | ended result => some result
  | _ => none

/-- The pool: whether it is open, how many sockets are free if their number is bounded, and the
calls in the order of their start. -/
structure Pool where
  isOpen : Bool
  free : Option Nat
  calls : List Call

/-- One step of a call or of the pool. -/
inductive Step where
  | start
  | post (call : Nat)
  | finish (call : Nat) (exchange : Exchange)
  | interrupt (call : Nat) (error : TransportError)
  | close

namespace Pool

/-- The open pool of a service. A bound of zero is no bound. -/
def ofConfig (config : ServiceConfig) : Pool :=
  ⟨true, config.maxSockets.filter (0 < ·), []⟩

def finishWith (pool : Pool) (call : Nat) (result : Except TransportError Response) : Pool :=
  { pool with calls := pool.calls.set call (.ended result) }

def release (pool : Pool) : Pool := { pool with free := pool.free.map (· + 1) }

/-- Takes one step. A step that does not apply changes nothing. -/
def step (pool : Pool) : Step → Pool
  | .start =>
    { pool with calls := pool.calls ++ [if pool.isOpen then .waiting else .ended (.error .closed)] }
  | .post call =>
    match pool.calls[call]? with
    | some .waiting =>
      if !pool.isOpen then pool.finishWith call (.error .closed)
      else if pool.free = some 0 then pool
      else { pool with free := pool.free.map (· - 1), calls := pool.calls.set call .posting }
    | _ => pool
  | .finish call exchange =>
    match pool.calls[call]? with
    | some .posting => (pool.finishWith call exchange.outcome).release
    | _ => pool
  | .interrupt call error =>
    match pool.calls[call]? with
    | some .waiting => pool.finishWith call (.error error)
    | some .posting => (pool.finishWith call (.error error)).release
    | _ => pool
  | .close => { pool with isOpen := false }

def run (pool : Pool) (steps : List Step) : Pool := steps.foldl step pool

/-- The step that ends a call under its limits, given the exchange that it would have. -/
def conclusion (call : Nat) (exchange : Option Exchange) (context : RequestContext) : Step :=
  if context.cancellation = some 0 then .interrupt call .cancelled
  else
    match exchange with
    | some exchange => .finish call exchange
    | none => .interrupt call context.expiry

/-- Starts calls with the given exchanges at once, and lets each in turn post and end. -/
def executeAll (pool : Pool) (exchanges : List (Option Exchange)) (context : RequestContext) :
    Pool :=
  let first := pool.calls.length
  let turns := exchanges.mapIdx fun i exchange =>
    [.post (first + i), conclusion (first + i) exchange context]
  pool.run (exchanges.map (fun _ => .start) ++ turns.flatten)

/-- How the calls from a given one on ended. -/
def resultsFrom (pool : Pool) (first : Nat) : List (Except TransportError Response) :=
  (pool.calls.drop first).filterMap Call.result?

end Pool

end Supergraph.Http
