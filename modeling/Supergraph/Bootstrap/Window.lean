import Supergraph.Bootstrap

/-!
Bootstrap as it runs: several services are asked at a time, and their replies come in any order.

Services are taken up in the order of the configuration, and stand in a window from then on. The slots of
the window go on independently of each other. What a service has come to is held back until everything
before it is handed on, and the first failure that is handed on ends the bootstrap.

A window that takes up less, for example because it counts what is held back, has some of these runs.

Correspondence (gateway ↔ Lean):
  `initialize_with`, its checks                  ↔ `Progress.start`
  the stream, where a service is taken from it   ↔ `Step.takeUp`
  `ServiceRuntime.introspect`, between two waits ↔ `Slot.next?`, `Step.advance`
  the window, where it yields in order           ↔ `Step.deliver`, `Step.fail`
-/

namespace Supergraph.Bootstrap

/-- How the connection to a service is made. -/
abbrev Connect := ServiceConfig → Except TransportError Connection

/-- How far asking a service is. -/
inductive Stage where
  | connected (connection : Except TransportError Connection)
  | asked (link : Connection)
  | settled (outcome : Except BootstrapError Service)

structure Slot where
  config : ServiceConfig
  stage : Stage

namespace Slot

/-- Whether the service has not come to anything yet. -/
def isRunning : Slot → Bool
  | ⟨_, .settled _⟩ => false
  | _ => true

/-- The slot after its next turn: a service without connection has failed, one with a connection is sent the
request for its schema, and one that was asked replies. -/
def next? : Slot → Option Slot
  | ⟨config, .connected (.error error)⟩ =>
    some ⟨config, .settled (.error (.transport config.name error))⟩
  | ⟨config, .connected (.ok link)⟩ => some ⟨config, .asked link⟩
  | ⟨config, .asked link⟩ =>
    some ⟨config, .settled (Service.ofIntrospection config (link.result .unlimited))⟩
  | ⟨_, .settled _⟩ => none

/-- Who is sent a request in the next turn. -/
def requests : Slot → List ServiceConfig
  | ⟨config, .connected (.ok _)⟩ => [config]
  | _ => []

end Slot

/-- How far a bootstrap is: the services that are not taken up yet, the window, what was handed on of it, and
the failure that ended the bootstrap. It keeps a record of the connections that were made and of the
services that were asked. -/
structure Progress where
  waiting : List ServiceConfig
  window : List Slot
  services : List Service
  failure? : Option BootstrapError
  connected : List ServiceConfig
  asked : List ServiceConfig

namespace Progress

/-- The number of services that are taken up and have not come to anything. -/
def running (progress : Progress) : Nat := progress.window.countP Slot.isRunning

def result? (progress : Progress) : Option (Except BootstrapError Registry) :=
  match progress.failure? with
  | some error => some (.error error)
  | none =>
    if progress.waiting.isEmpty ∧ progress.window.isEmpty then some (.ok ⟨progress.services⟩) else none

/-- A bootstrap that ended before it took up a service. -/
def refused (error : ConfigError) : Progress := ⟨[], [], [], some (.config error), [], []⟩

/-- A bootstrap that may take up all services. -/
def ready (configs : List ServiceConfig) : Progress := ⟨configs, [], [], none, [], []⟩

/-- The start of a bootstrap that asks at most `limit` services at a time. -/
def start (limit : Nat) (configs : List ServiceConfig) : Progress :=
  if limit = 0 then .refused .invalidConcurrency
  else
    match repeated? [] (configs.map ServiceConfig.name) with
    | some name => .refused (.duplicateService name)
    | none => .ready configs

end Progress

/-- What may happen next. -/
inductive Step (limit : Nat) (connect : Connect) : Progress → Progress → Prop
  | takeUp {progress : Progress} {config : ServiceConfig} {waiting : List ServiceConfig} :
    progress.waiting = config :: waiting → progress.running < limit →
    Step limit connect progress { progress with
      waiting
      window := progress.window ++ [⟨config, .connected (connect config)⟩]
      connected := progress.connected ++ [config] }
  | advance {progress : Progress} {before after : List Slot} {slot next : Slot} :
    progress.window = before ++ slot :: after → slot.next? = some next →
    Step limit connect progress { progress with
      window := before ++ next :: after
      asked := progress.asked ++ slot.requests }
  | deliver {progress : Progress} {config : ServiceConfig} {service : Service} {window : List Slot} :
    progress.window = ⟨config, .settled (.ok service)⟩ :: window →
    Step limit connect progress { progress with
      window
      services := progress.services ++ [service] }
  | fail {progress : Progress} {config : ServiceConfig} {error : BootstrapError} {window : List Slot} :
    progress.window = ⟨config, .settled (.error error)⟩ :: window →
    Step limit connect progress { progress with
      waiting := []
      window := []
      failure? := some error }

/-- What a bootstrap may have come to after a number of steps. -/
inductive Run (limit : Nat) (connect : Connect) (configs : List ServiceConfig) :
    Nat → Progress → Prop
  | start : Run limit connect configs 0 (.start limit configs)
  | step {steps : Nat} {progress next : Progress} : Run limit connect configs steps progress →
    Step limit connect progress next → Run limit connect configs (steps + 1) next

end Supergraph.Bootstrap
