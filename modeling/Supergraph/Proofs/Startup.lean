import Supergraph.Proofs.Bootstrap
import Supergraph.Proofs.CollisionPolicies
import Supergraph.Proofs.Sessions

/-!
Opening a session over services that are connected: with every connection as it was, or with none left open.

1. `serve_introspectAll`: services that were asked for their schemas have one connection each, in their order.
2. `shut_close`: closing the connections closes that of each service once, and nothing passes them later.
3. `all_or_nothing`: a session that cannot be opened has done this and nothing else. Ownership comes first:
   where it fails, the composer is not asked, whatever state it keeps.
-/

namespace Supergraph

open GraphQL

namespace Connections

/-- There is one connection for each of the services, in their order. -/
def Serve (connections : Connections) (services : List Service) : Prop :=
  connections.links.map Connection.service = services.map Service.name

/-- Between two states of the connections, that of each service was closed once, in the order of the services,
and nothing else happened. Every later request is refused. -/
structure Shut (before : Connections) (services : List Service) (after : Connections) : Prop where
  events : after.events = before.events ++ services.map fun service => .closed service.name
  serve : after.Serve services
  refuses : ∀ service request context,
    after.execute service request context = (.error .closed, after)

theorem shut_close {connections : Connections} {services : List Service} (h : connections.Serve services) :
    connections.Shut services connections.close where
  events := by
    have hclosings := congrArg (List.map Event.closed) h
    rw [List.map_map, List.map_map] at hclosings
    exact congrArg (connections.events ++ ·) hclosings
  serve := by
    rw [Serve, close, List.map_map]
    exact h
  refuses := (closed_close connections).execute_eq

end Connections

/-! ## Services that were asked -/

namespace Bootstrapped

variable {connect : Bootstrap.Connect} {done next : Bootstrapped}

theorem serve_introspect {config : ServiceConfig}
    (hconnect : ∀ link, connect config = .ok link → link.service = config.name)
    (hdone : done.connections.Serve done.services)
    (h : done.introspect ⟨config, connect config⟩ = .ok next) : next.connections.Serve next.services := by
  rw [introspect] at h
  cases hlink : connect config with
  | error error =>
    rw [hlink] at h
    cases h
  | ok link =>
    rw [hlink] at h
    obtain ⟨service, hservice, h⟩ := Outcome.bind_eq_ok.mp h
    cases h
    have hintrospected : Bootstrap.introspected (fun _ => .ok link) config = .ok service := hservice
    have hconfig : service.config = config :=
      (hintrospected ▸ Bootstrap.introspects_introspected (fun _ => .ok link) config).config_eq
    have hadvance : link.advance.service = config.name := by
      rw [← hconnect link hlink, Connection.advance]
      split <;> rfl
    rw [Connections.Serve, List.map_append, List.map_append, hdone]
    simp [hadvance, Service.name, hconfig]

/-- Services that were asked, each over a connection to it, have these connections in their order. -/
theorem serve_introspectAll {configs : List ServiceConfig}
    (hconnect : ∀ config link, connect config = .ok link → link.service = config.name)
    (h : introspectAll (configs.map fun config => ⟨config, connect config⟩) = .ok done) :
    done.connections.Serve done.services := by
  rw [introspectAll, List.foldlM_map] at h
  refine Outcome.foldlM_induction (fun done => done.connections.Serve done.services) ?_ configs _ _ rfl h
  intro done config next hdone hnext
  exact serve_introspect (hconnect config) hdone hnext

end Bootstrapped

/-! ## Sessions -/

namespace Session

variable {σ : Type} {config : GatewayConfig} {composer : Composer σ} {services : List Service}
  {connections : Connections} {state : σ}

/-- What opening a session over services comes to. It opens if their ownership and their composition do not
fail, over the connections as they are. Otherwise the connection of each service was closed. Where ownership
fails, the composer is not asked: it stays in the state that it was in. Elsewhere it is left in the state of
having been asked about the services once. -/
structure AllOrNothing (config : GatewayConfig) (composer : Composer σ) (services : List Service)
    (connections : Connections) (state : σ) : Prop where
  opens_iff : (∃ session, (launch config composer services connections state).1 = .ok session) ↔
    (∃ index, Ownership.ofServices config.collisions services = .ok index) ∧
      ∃ schema, (composer services state).1 = .ok schema
  opened : ∀ session, (launch config composer services connections state).1 = .ok session →
    session.connections = connections ∧ session.gateway.config = config ∧
      session.gateway.topology.registry = ⟨services⟩
  failed : ∀ error after, (launch config composer services connections state).1 = .error (error, after) →
    connections.Shut services after
  ownership : ∀ error, Ownership.ofServices config.collisions services = .error error →
    launch config composer services connections state =
      (.error (.ownership error, connections.close), state)
  composition : ∀ index error, Ownership.ofServices config.collisions services = .ok index →
    (composer services state).1 = .error error →
    (launch config composer services connections state).1 =
      .error (.composition error, connections.close)
  asked : ∀ index, Ownership.ofServices config.collisions services = .ok index →
    (launch config composer services connections state).2 = (composer services state).2

theorem launch_of_conflict {error : OwnershipError}
    (h : Ownership.ofServices config.collisions services = .error error) :
    launch config composer services connections state =
      (.error (.ownership error, connections.close), state) := by
  rw [launch, Gateway.assemble_of_conflict h]

/-- Once ownership is settled, the session is that of what the composer answers. -/
theorem launch_of_owned {index : Ownership}
    (h : Ownership.ofServices config.collisions services = .ok index) :
    launch config composer services connections state =
      (match (composer services state).1 with
        | .ok schema => .ok ⟨Gateway.ofParts config services index schema, connections⟩
        | .error error => .error (.composition error, connections.close),
      (composer services state).2) := by
  rw [launch, Gateway.assemble_of_owned h]
  cases (composer services state).1 <;> rfl

theorem all_or_nothing (config : GatewayConfig) (composer : Composer σ) (state : σ)
    (h : connections.Serve services) : AllOrNothing config composer services connections state where
  opens_iff := by
    cases hindex : Ownership.ofServices config.collisions services with
    | error error => simp [launch_of_conflict hindex]
    | ok index =>
      rw [launch_of_owned hindex]
      cases (composer services state).1 <;> simp
  opened session hlaunch := by
    cases hindex : Ownership.ofServices config.collisions services with
    | error error =>
      rw [launch_of_conflict hindex] at hlaunch
      cases hlaunch
    | ok index =>
      rw [launch_of_owned hindex] at hlaunch
      dsimp only at hlaunch
      split at hlaunch
      · cases hlaunch
        exact ⟨rfl, rfl, rfl⟩
      · cases hlaunch
  failed error after hlaunch := by
    have hafter : after = connections.close := by
      rw [launch] at hlaunch
      split at hlaunch <;> cases hlaunch
      rfl
    subst hafter
    exact Connections.shut_close h
  ownership error herror := launch_of_conflict herror
  composition index error hindex herror := by rw [launch_of_owned hindex, herror]
  asked index hindex := by rw [launch_of_owned hindex]

end Session

/-- A composer that keeps what it was asked, and cannot read the schema of users. -/
def Sample.illiterate : Composer (List (List String)) := fun services asked =>
  (.error (.parse "users"), asked ++ [services.map Service.name])

/-- Two services have the users: the session does not open, the three connections are closed in the order of the
services, and the composer was asked nothing. Without the third service it is the composer that fails. -/
theorem all_or_nothing_members :
    let members : Service := { Sample.users with config := .ofAddress "members" "" }
    let services := Sample.services ++ [members]
    let links : List Connection := [.scripted "reviews" [], .scripted "users" []]
    let connections : Connections := ⟨links ++ [.scripted "members" []], []⟩
    (connections.Serve services ∧
      ∃ after, Session.launch (.ofServices []) Sample.illiterate services connections [] =
          (.error (.ownership (.conflict "User" "users" "members"), after), []) ∧
        after.events = [.closed "reviews", .closed "users", .closed "members"]) ∧
    Connections.Serve ⟨links, []⟩ Sample.services ∧
      ∃ after, Session.launch (.ofServices []) Sample.illiterate Sample.services ⟨links, []⟩ [] =
          (.error (.composition (.parse "users"), after), [["reviews", "users"]]) ∧
        after.events = [.closed "reviews", .closed "users"] := by
  intro members services links connections
  have hserve : connections.Serve services := rfl
  have hownership : Ownership.ofServices .failFast services =
      .error (.conflict "User" "users" "members") := by rfl
  have hall := Session.all_or_nothing (.ofServices []) Sample.illiterate [] hserve
  have hconflict := hall.ownership _ hownership
  have hserveTwo : Connections.Serve ⟨links, []⟩ Sample.services := rfl
  have hok : (Ownership.ofServices .failFast Sample.services).isOk = true := by rfl
  obtain ⟨index, hindex⟩ := Outcome.exists_of_isOk hok
  have hallTwo := Session.all_or_nothing (.ofServices []) Sample.illiterate [] hserveTwo
  have herror := hallTwo.composition index (.parse "users") hindex rfl
  exact ⟨⟨hserve, _, hconflict, (hall.failed _ _ (congrArg Prod.fst hconflict)).events⟩, hserveTwo, _,
    Prod.ext herror (hallTwo.asked index hindex), (hallTwo.failed _ _ herror).events⟩

end Supergraph
