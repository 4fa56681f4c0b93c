import Supergraph.Service.Config
import Supergraph.Ownership

/-!
The configuration of a gateway, and what makes one unusable.

Correspondence (gateway ↔ Lean):
  `GatewayConfig.new`, `validate` ↔ `GatewayConfig.ofServices`, `validate`
-/

namespace Supergraph

inductive ConfigError where
  | unreadable (path : String)
  | malformed
  | duplicateService (name : String)
  | invalidConcurrency
  | tooManySockets (service : String)
  deriving DecidableEq, Repr

def socketLimit : Nat := 2305843009213693951

def ConfigError.message : ConfigError → String
  | unreadable path => "failed to read config file " ++ path ++ ": "
  | malformed => "failed to parse config file: "
  | duplicateService name => "duplicate service name '" ++ name ++ "'"
  | invalidConcurrency => "bootstrap concurrency must be at least 1"
  | tooManySockets service =>
    "maxSockets of service '" ++ service ++ "' exceeds " ++ toString socketLimit

/-- The configuration of a gateway. The timeout applies to every delegated request, in
milliseconds. -/
structure GatewayConfig where
  services : List ServiceConfig
  bootstrapConcurrency : Nat
  collisions : CollisionPolicy
  requestTimeout : Option Nat
  deriving DecidableEq, Inhabited, Repr

namespace GatewayConfig

/-- The configuration of a gateway of which only the services are given. -/
def ofServices (services : List ServiceConfig) : GatewayConfig := ⟨services, 8, .failFast, none⟩

/-- Checks services against the names seen before them: first that the name is new, then the number
of sockets. -/
def checkServices (seen : List String) : List ServiceConfig → Except ConfigError Unit
  | [] => .ok ()
  | service :: rest =>
    if seen.contains service.name then .error (.duplicateService service.name)
    else if service.maxSockets.any fun sockets => socketLimit < sockets then
      .error (.tooManySockets service.name)
    else checkServices (service.name :: seen) rest

def validate (config : GatewayConfig) : Except ConfigError Unit :=
  if config.bootstrapConcurrency = 0 then .error .invalidConcurrency
  else checkServices [] config.services

end GatewayConfig

end Supergraph
