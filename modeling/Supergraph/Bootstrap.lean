import Supergraph.Configuration
import Supergraph.Composition
import Supergraph.Transport

/-!
Bootstrap: asking every configured service for its schema.

The first service in the order of the configuration that cannot be used decides about the error; the
number of requests in flight at a time does not. `introspectAll` therefore asks one service after
the other.

Correspondence (gateway ↔ Lean):
  `ServiceRuntime.introspect`       ↔ `Service.ofIntrospection`, `Bootstrapped.introspect`
  `ServiceRuntime.from_sdl`         ↔ `Service.ofSdl`
  `ServiceRegistry.initialize_with` ↔ `bootstrap`
-/

namespace Supergraph

/-- Why a gateway cannot be built. -/
inductive BootstrapError where
  | config (error : ConfigError)
  | transport (service : String) (error : TransportError)
  | introspection (service : String) (error : TransportError)
  | missingSdl (service : String) (errors : List ResponseError)
  | invalidSdl (service : String)
  | ownership (error : OwnershipError)
  | composition (error : CompositionError)

def BootstrapError.message : BootstrapError → String
  | config error => error.message
  | transport service error =>
    "failed to create transport for service '" ++ service ++ "': " ++ error.message
  | introspection service error =>
    "introspection of service '" ++ service ++ "' failed: " ++ error.message
  | missingSdl service errors =>
    "service '" ++ service ++ "' did not return `_service.sdl`" ++
      if errors.isEmpty then "" else ": " ++ ResponseError.joinMessages errors
  | invalidSdl service => "service '" ++ service ++ "' returned an invalid SDL: "
  | ownership error => error.message
  | composition error => error.message

def introspectionRequest : Request :=
  ⟨"query ServiceInfo \x7b _service \x7b sdl \x7d \x7d", .empty, some "ServiceInfo"⟩

namespace Service

def ofSdl (config : ServiceConfig) (sdl : String) : Except BootstrapError Service :=
  match ofSdl? config sdl with
  | some service => .ok service
  | none => .error (.invalidSdl config.name)

/-- The service that answered the request for its schema. -/
def ofIntrospection (config : ServiceConfig) :
    Except TransportError Response → Except BootstrapError Service
  | .error error => .error (.introspection config.name error)
  | .ok response =>
    match response.dataAt? ["_service", "sdl"] with
    | some (.string sdl) => ofSdl config sdl
    | _ => .error (.missingSdl config.name response.errors)

end Service

/-- A service to be asked, with the connection to it or the reason why there is none. -/
structure Candidate where
  config : ServiceConfig
  connection : Except TransportError Connection

/-- Services that were asked, and what happened on their connections. -/
structure Bootstrapped where
  services : List Service
  connections : Connections

namespace Bootstrapped

def introspect (done : Bootstrapped) (candidate : Candidate) :
    Except BootstrapError Bootstrapped := do
  match candidate.connection with
  | .error error => throw (.transport candidate.config.name error)
  | .ok link =>
    let service ← Service.ofIntrospection candidate.config (link.result .unlimited)
    let events := if link.passes then [.received link.service introspectionRequest] else []
    return ⟨done.services ++ [service],
      ⟨done.connections.links ++ [link.advance], done.connections.events ++ events⟩⟩

def introspectAll (candidates : List Candidate) : Except BootstrapError Bootstrapped :=
  candidates.foldlM introspect ⟨[], ⟨[], []⟩⟩

end Bootstrapped

/-- The first name that occurs twice, at its second place. -/
def repeated? (seen : List String) : List String → Option String
  | [] => none
  | name :: rest => if seen.contains name then some name else repeated? (name :: seen) rest

/-- Asks all services, at most `concurrency` at a time. Nothing is asked if that is none, or if two
services have one name. -/
def bootstrap (concurrency : Nat) (candidates : List Candidate) :
    Except BootstrapError Bootstrapped :=
  if concurrency = 0 then .error (.config .invalidConcurrency)
  else
    match repeated? [] (candidates.map fun candidate => candidate.config.name) with
    | some name => .error (.config (.duplicateService name))
    | none => Bootstrapped.introspectAll candidates

end Supergraph
