import Supergraph.Configuration
import Supergraph.Http.Pool

/-!
The calls of one service as they are scheduled: each goes on by itself, from one of its waits to the next.

A call enters, unless the service is closed. It queues for a permit, and is granted one; at its next turn it
posts its request, unless the service was closed meanwhile. The reply comes in two parts, first its status and
then its body. A call can be cancelled or reach its deadline wherever it waits.

Permits are a semaphore. There is a fixed number of them; a call that ends drops the one that it holds; once
the semaphore is closed, whoever queues is turned away. In which order those that queue are granted permits is
left open. Where a call need not wait it may take several of these turns in one go. That others come in
between adds runs and takes none away.

Correspondence (gateway ↔ Lean):
  `HttpTransport.execute`, first poll        ↔ `Step.enter`
  `HttpTransport.send`, between two waits    ↔ `Turn`
  `RequestContext.guard`, where a limit wins ↔ `Interrupts`
  `HttpTransport.close`                      ↔ `Step.close`
-/

namespace Supergraph.Http

/-- Where a call stands between two of its turns. -/
inductive Stage where
  | queued
  | granted
  | sending
  | receiving
  | ended (result : Except TransportError Response)

namespace Stage

def isEnded : Stage → Bool
  | ended _ => true
  | _ => false

def holds : Stage → Bool
  | granted | sending | receiving => true
  | queued | ended _ => false

/-- Whether the call is between posting its request and the end of the body. -/
def inFlight : Stage → Bool
  | sending | receiving => true
  | queued | granted | ended _ => false

def permits (stage : Stage) : Nat := if stage.holds then 1 else 0

end Stage

/-- A call: its deadline in milliseconds, if it has one, where it stands, and whether it ever posted. -/
structure Caller where
  deadline : Option Nat
  stage : Stage
  posted : Bool

def Caller.endWith (caller : Caller) (result : Except TransportError Response) : Caller :=
  { caller with stage := .ended result }

/-- How a call with a deadline or without one may be interrupted. -/
inductive Interrupts (deadline : Option Nat) : TransportError → Prop
  | cancelled : Interrupts deadline .cancelled
  | exceeded {milliseconds : Nat} :
    deadline = some milliseconds → Interrupts deadline (.deadlineExceeded milliseconds)

/-- How a call may end in its next turn. -/
inductive Ends (isOpen : Bool) (caller : Caller) : Except TransportError Response → Prop
  -- A closed semaphore grants nothing, and a permit that was granted before does not help any more.
  | turnedAway : isOpen = false → caller.stage = .queued → Ends isOpen caller (.error .closed)
  | refused : isOpen = false → caller.stage = .granted → Ends isOpen caller (.error .closed)
  | rejected {status : Nat} : status ≠ 200 → caller.stage = .sending →
    Ends isOpen caller (.error (.unexpectedStatus status))
  | answered (body : Option RawJson) : caller.stage = .receiving →
    Ends isOpen caller (Exchange.answered 200 body).outcome
  -- Either part of the reply may fail to come.
  | broken : caller.stage.inFlight = true → Ends isOpen caller (.error .network)
  -- The call races its limits wherever it waits, also where it holds no permit yet.
  | interrupted {error : TransportError} : caller.stage.isEnded = false →
    Interrupts caller.deadline error → Ends isOpen caller (.error error)

/-- The next turn of a call, with the number of free permits before it and after it. -/
inductive Turn (isOpen : Bool) : Nat → Caller → Nat → Caller → Prop
  | granted {free : Nat} {caller : Caller} : isOpen = true → caller.stage = .queued →
    Turn isOpen (free + 1) caller free { caller with stage := .granted }
  | posted {free : Nat} {caller : Caller} : isOpen = true → caller.stage = .granted →
    Turn isOpen free caller free { caller with stage := .sending, posted := true }
  | accepted {free : Nat} {caller : Caller} : caller.stage = .sending →
    Turn isOpen free caller free { caller with stage := .receiving }
  -- The permit is dropped with the call, whatever ended it.
  | ended {free : Nat} {caller : Caller} {result : Except TransportError Response} :
    Ends isOpen caller result →
    Turn isOpen free caller (free + caller.stage.permits) (caller.endWith result)

/-- Whether the service is open, the number of free permits, and the calls in the order in which they
entered. -/
structure Traffic where
  isOpen : Bool
  free : Nat
  callers : List Caller

namespace Traffic

/-- The start of a service with a bounded number of sockets. -/
def start (sockets : Nat) : Traffic := ⟨true, min sockets socketLimit, []⟩

def entrant (traffic : Traffic) (deadline : Option Nat) : Caller :=
  ⟨deadline, if traffic.isOpen then .queued else .ended (.error .closed), false⟩

/-- What may happen next. -/
inductive Step : Traffic → Traffic → Prop
  | enter {traffic : Traffic} (deadline : Option Nat) :
    Step traffic { traffic with callers := traffic.callers ++ [traffic.entrant deadline] }
  | turn {traffic : Traffic} {before after : List Caller} {caller next : Caller} {free : Nat} :
    traffic.callers = before ++ caller :: after → Turn traffic.isOpen traffic.free caller free next →
    Step traffic { traffic with free, callers := before ++ next :: after }
  | close {traffic : Traffic} : Step traffic { traffic with isOpen := false }

/-- What may have happened after a number of steps. -/
inductive Run : Traffic → Traffic → Prop
  | here {traffic : Traffic} : Run traffic traffic
  | step {traffic between next : Traffic} : Run traffic between → Step between next → Run traffic next

end Traffic

end Supergraph.Http
