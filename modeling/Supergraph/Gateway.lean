import Supergraph.Bootstrap
import Supergraph.Resolution

/-!
The gateway: built from services, it resolves fields until it is shut down.

`Gateway.assemble` builds it, or gives the first error: the composer is asked once ownership is settled.
`Session` adds the connections. Opening a session either keeps all of them open or closes every one.

Correspondence (gateway ↔ Lean):
  `FederationGateway.from_registry` ↔ `Gateway.assemble`, `Session.launch`
  `FederationGateway.bootstrap`     ↔ `Session.bootstrap`
  `SchemaComposer`                  ↔ `Composer`
  `resolve_field`, `shutdown`       ↔ `Session.resolve`, `Session.shutdown`
  `request_context`                 ↔ `Gateway.requestContext`
-/

namespace Supergraph

/-- How schemas are composed. A composer may have a state, which its answer depends on and which being asked
may change. It reads the services and leaves their connections alone. -/
abbrev Composer (σ : Type) := List Service → σ → Except CompositionError Schema × σ

/-- A composer without a state. -/
abbrev CompositionRule := List Service → Except CompositionError Schema

def CompositionRule.composer (compose : CompositionRule) : Composer Unit :=
  fun services state => (compose services, state)

/-- A gateway: its configuration, what resolution looks at, and the report of the wiring. -/
structure Gateway where
  config : GatewayConfig
  topology : Topology
  wiring : List Crossing

namespace Gateway

variable {σ : Type}

/-- The gateway over services with an ownership and a composed schema, which it wires. -/
def ofParts (config : GatewayConfig) (services : List Service) (index : Ownership) (schema : Schema) :
    Gateway :=
  let topology : Topology := ⟨schema, index, ⟨services⟩⟩
  ⟨config, { topology with schema := topology.wiredSchema }, topology.wiring⟩

/-- Builds a gateway with a composer in a state, and gives the state that it is left in. -/
def assemble (config : GatewayConfig) (composer : Composer σ) (services : List Service) (state : σ) :
    Except BootstrapError Gateway × σ :=
  match Ownership.ofServices config.collisions services with
  | .error error => (.error (.ownership error), state)
  | .ok index =>
    match composer services state with
    | (.error error, next) => (.error (.composition error), next)
    | (.ok schema, next) => (.ok (ofParts config services index schema), next)

/-- Builds a gateway with a composer without a state. -/
def ofServices (config : GatewayConfig) (compose : CompositionRule) (services : List Service) :
    Except BootstrapError Gateway :=
  (assemble config compose.composer services ()).1

def requestContext (gateway : Gateway) : RequestContext := ⟨gateway.config.requestTimeout, none⟩

end Gateway

/-- A gateway with its connections. -/
structure Session where
  gateway : Gateway
  connections : Connections

namespace Session

variable {σ : Type}

/-- Opens a session over services that are connected, with a composer in a state. If the gateway cannot be
built, the connections are closed and given back. -/
def launch (config : GatewayConfig) (composer : Composer σ) (services : List Service)
    (connections : Connections) (state : σ) : Except (BootstrapError × Connections) Session × σ :=
  match Gateway.assemble config composer services state with
  | (.ok gateway, next) => (.ok ⟨gateway, connections⟩, next)
  | (.error error, next) => (.error (error, connections.close), next)

/-- Opens a session with a composer without a state. -/
def start (config : GatewayConfig) (compose : CompositionRule) (services : List Service)
    (connections : Connections) : Except (BootstrapError × Connections) Session :=
  (launch config compose.composer services connections ()).1

def resolve (session : Session) (context : RequestContext) (site : FieldSite) (parent : Json) :
    Except ResolutionError Json × Session :=
  match session.gateway.topology.resolve site parent with
  | .settled result => (result, session)
  | .request service request finish =>
    let (outcome, connections) := session.connections.execute service request context
    (finish outcome, { session with connections })

def shutdown (session : Session) : Session :=
  { session with connections := session.connections.close }

/-- Asks the configured services for their schemas, and opens a session over them. -/
def bootstrap (config : GatewayConfig) (compose : CompositionRule)
    (connect : ServiceConfig → Except TransportError Connection) :
    Except BootstrapError Session := do
  match config.validate with
  | .error error => throw (.config error)
  | .ok () => pure ()
  let candidates := config.services.map fun service => ⟨service, connect service⟩
  let done ← Supergraph.bootstrap config.bootstrapConcurrency candidates
  match start config compose done.services done.connections with
  | .ok session => return session
  | .error (error, _) => throw error

end Session

end Supergraph
