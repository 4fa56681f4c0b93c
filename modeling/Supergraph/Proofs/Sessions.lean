import Supergraph.Proofs.Resolution
import Supergraph.Proofs.Gateway

/-!
Sessions: what resolutions and shutdowns send over the connections of a gateway.

1. A resolution settles and leaves the session as it is (`resolve_of_settled`), or it executes one request of
   the service that the field is delegated to (`resolve_of_request`).
2. `roundTrip`: so a resolution sends at most one request, and none where it fails before sending.
3. `Connections.Closed` is absorbing (`closed_run`): nothing passes a closed connection, and nothing opens
   one. So after a shutdown the record of events grows by closings alone (`Silent`).

The connections are any that answer one request after the other. Socket pools are among them
(`Http.Pool.Serves`).
-/

namespace Supergraph

/-! ## Closed connections -/

theorem updateLast_eq_self {α : Type} {condition : α → Bool} {change : α → α} :
    ∀ {items : List α}, (∀ item ∈ items, change item = item) → updateLast condition change items = items
  | [], _ => rfl
  | item :: rest, h => by
    obtain ⟨hitem, hrest⟩ := List.forall_mem_cons.mp h
    rw [updateLast]
    split
    · rw [hitem]
    · rw [updateLast_eq_self hrest]

namespace Connections

/-- No connection is open. -/
def Closed (connections : Connections) : Prop := ∀ link ∈ connections.links, link.isOpen = false

theorem closed_close (connections : Connections) : connections.close.Closed := by
  intro link hmem
  obtain ⟨_, _, rfl⟩ := List.mem_map.mp hmem
  rfl

theorem Closed.execute_eq {connections : Connections} (h : connections.Closed) (service : String)
    (request : Request) (context : RequestContext) :
    connections.execute service request context = (.error .closed, connections) := by
  have hadvance : ∀ link ∈ connections.links, link.advance = link := by
    intro link hmem
    simp [Connection.advance, Connection.passes, h link hmem]
  rw [execute]
  split
  · rfl
  · next link hfind =>
    have hmem : link ∈ connections.links := List.mem_reverse.mp (List.mem_of_find?_eq_some hfind)
    simp [Connection.result, Connection.passes, h link hmem, updateLast_eq_self hadvance]

/-- A request is received by its service, or by nobody. -/
theorem execute_events (connections : Connections) (service : String) (request : Request)
    (context : RequestContext) : ∃ sent : List Event,
    (connections.execute service request context).2.events = connections.events ++ sent ∧
      (sent = [] ∨ sent = [.received service request]) := by
  rw [execute]
  split
  · exact ⟨[], (List.append_nil _).symm, .inl rfl⟩
  · next link _ =>
    refine ⟨_, rfl, ?_⟩
    split
    · exact .inr rfl
    · exact .inl rfl

end Connections

/-! ## One resolution -/

/-- An error that comes before a request is sent. -/
inductive ResolutionError.BeforeSending : ResolutionError → Prop
  | unwritten (error : SynthesisError) : BeforeSending (.synthesis error)
  | unrepresented (type field : String) : BeforeSending (.missingRepresentation type field)
  | unknown (name : String) : BeforeSending (.unknownService name)

theorem Answers.not_beforeSending {service : String} {error : ResolutionError}
    {finish : Except TransportError Response → Except ResolutionError Json} (h : Answers service finish)
    {outcome : Except TransportError Response} (hfinish : finish outcome = .error error) :
    ¬ error.BeforeSending := by
  intro hbefore
  cases outcome with
  | error first =>
    cases (h.failed first).symm.trans hfinish
    cases hbefore
  | ok response =>
    have hresponse := h.responded response error hfinish
    cases hresponse with
    | application => cases hbefore
    | malformed => cases hbefore

namespace Session

section Resolve

variable {session : Session} {site : FieldSite} {parent : Json}

theorem resolve_of_settled {result : Except ResolutionError Json}
    (h : session.gateway.topology.resolve site parent = .settled result) (context : RequestContext) :
    session.resolve context site parent = (result, session) := by
  rw [resolve, h]

theorem resolve_of_request {target : String} {request : Request}
    {finish : Except TransportError Response → Except ResolutionError Json}
    (h : session.gateway.topology.resolve site parent = .request target request finish)
    (context : RequestContext) : session.resolve context site parent =
      (finish (session.connections.execute target request context).1,
        { session with connections := (session.connections.execute target request context).2 }) := by
  rw [resolve, h]

end Resolve

/-- What a resolution sends: at most one request, to the service that the field is delegated to, and none
if it can do without or fails before. -/
structure RoundTrip (session : Session) (context : RequestContext) (site : FieldSite) (parent : Json) :
    Prop where
  sent : ∃ sent : List Event, sent.length ≤ 1 ∧
    (session.resolve context site parent).2.connections.events = session.connections.events ++ sent ∧
    ∀ event ∈ sent, ∃ delegation request, event = .received delegation.service request ∧
      session.gateway.topology.schema.delegation? site.parentType site.fieldName = some delegation
  undelegated : session.gateway.topology.schema.delegation? site.parentType site.fieldName = none →
    (session.resolve context site parent).2 = session
  unreferenced : ∀ service, session.gateway.topology.schema.delegation? site.parentType site.fieldName =
      some ⟨.entityReference, service⟩ →
    (∀ stub ∈ site.stubs parent, stub.isNull = true) → (session.resolve context site parent).2 = session
  failed : ∀ error, (session.resolve context site parent).1 = .error error → error.BeforeSending →
    (session.resolve context site parent).2 = session

theorem roundTrip (session : Session) (context : RequestContext) (site : FieldSite) (parent : Json) :
    session.RoundTrip context site parent := by
  cases hresolve : session.gateway.topology.resolve site parent with
  | settled result =>
    have hsettled := resolve_of_settled hresolve context
    constructor
    case sent => exact ⟨[], Nat.zero_le 1, by rw [hsettled, List.append_nil], by simp⟩
    all_goals intros; rw [hsettled]
  | request target request finish =>
    obtain ⟨delegation, hdelegated, rfl, hanswers⟩ := Topology.exists_delegation_of_request hresolve
    have hrequest := resolve_of_request hresolve context
    constructor
    case sent =>
      obtain ⟨sent, hevents, hsent⟩ :=
        session.connections.execute_events delegation.service request context
      rw [hrequest]
      rcases hsent with rfl | rfl
      · exact ⟨[], Nat.zero_le 1, hevents, by simp⟩
      · refine ⟨[.received delegation.service request], Nat.le_refl 1, hevents, ?_⟩
        intro event hmem
        exact ⟨delegation, request, List.mem_singleton.mp hmem, hdelegated⟩
    case undelegated =>
      intro hnone
      cases hnone.symm.trans hdelegated
    case unreferenced =>
      intro service hreference hnull
      cases hdelegated.symm.trans hreference
      exfalso
      simp only [Topology.resolve, hdelegated] at hresolve
      split at hresolve
      · cases hresolve
      · obtain ⟨value, hvalue⟩ := Topology.resolveEntity_of_null hnull
        cases hvalue.symm.trans hresolve
    case failed =>
      intro error herror hbefore
      rw [hrequest] at herror
      exact absurd hbefore (hanswers.not_beforeSending herror)

/-! ## Runs -/

/-- What a session is asked to do. -/
inductive Call where
  | resolve (context : RequestContext) (site : FieldSite) (parent : Json)
  | shutdown

def after (session : Session) : Call → Session
  | .resolve context site parent => (session.resolve context site parent).2
  | .shutdown => session.shutdown

def run (session : Session) (calls : List Call) : Session := calls.foldl after session

theorem run_append (session : Session) (calls further : List Call) :
    session.run (calls ++ further) = (session.run calls).run further :=
  List.foldl_append

theorem gateway_after (session : Session) (call : Call) : (session.after call).gateway = session.gateway := by
  cases call with
  | shutdown => rfl
  | resolve context site parent =>
    rw [after, resolve]
    split <;> rfl

theorem gateway_run (calls : List Call) : ∀ session : Session,
    (session.run calls).gateway = session.gateway := by
  induction calls with
  | nil => exact fun _ => rfl
  | cons call calls ih => exact fun session => (ih (session.after call)).trans (session.gateway_after call)

/-- Over closed connections a call closes them again, or it does nothing. -/
theorem after_of_closed {session : Session} (h : session.connections.Closed) (call : Call) :
    session.after call = session ∨ session.after call = session.shutdown := by
  cases call with
  | shutdown => exact .inr rfl
  | resolve context site parent =>
    refine .inl ?_
    rw [after]
    cases hresolve : session.gateway.topology.resolve site parent with
    | settled result => rw [resolve_of_settled hresolve]
    | request target request finish => rw [resolve_of_request hresolve, h.execute_eq]

/-- Closed connections stay closed, and all that happens on them is that they are closed again. -/
theorem closed_run (calls : List Call) : ∀ session : Session, session.connections.Closed →
    (session.run calls).connections.Closed ∧ ∃ closings : List String,
      (session.run calls).connections.events = session.connections.events ++ closings.map .closed := by
  induction calls with
  | nil => exact fun _ h => ⟨h, [], (List.append_nil _).symm⟩
  | cons call calls ih =>
    intro session h
    rw [run, List.foldl_cons]
    rcases after_of_closed h call with heq | heq
    · rw [heq]
      exact ih session h
    · rw [heq]
      obtain ⟨hclosed, closings, hevents⟩ := ih session.shutdown (Connections.closed_close _)
      refine ⟨hclosed, session.connections.links.map Connection.service ++ closings, hevents.trans ?_⟩
      simp [shutdown, Connections.close]

theorem closed_of_shutdown {calls : List Call} (h : .shutdown ∈ calls) (session : Session) :
    (session.run calls).connections.Closed := by
  obtain ⟨before, further, rfl⟩ := List.append_of_mem h
  rw [run_append]
  exact (closed_run further (session.run before).shutdown (Connections.closed_close _)).1

/-- What holds of a session from a shutdown on: nothing is received, what takes a request is refused, and
what takes none comes to what it would have come to before. -/
structure Silent (session : Session) (calls : List Call) : Prop where
  quiet : ∀ further, ∃ closings : List String, (session.run (calls ++ further)).connections.events =
    (session.run calls).connections.events ++ closings.map .closed
  refused : ∀ context site parent target request finish,
    session.gateway.topology.resolve site parent = .request target request finish →
      ((session.run calls).resolve context site parent).1 = .error (.protocol target .closed) ∧
      (session.gateway.topology.schema.delegation? site.parentType site.fieldName).map
        Delegation.service = some target
  unaffected : ∀ context site parent result,
    session.gateway.topology.resolve site parent = .settled result → ∀ earlier,
      ((session.run calls).resolve context site parent).1 =
        ((session.run earlier).resolve context site parent).1

theorem silent_of_shutdown {calls : List Call} (h : .shutdown ∈ calls) (session : Session) :
    session.Silent calls := by
  have hclosed := closed_of_shutdown h session
  constructor
  case quiet =>
    intro further
    rw [run_append]
    exact (closed_run further _ hclosed).2
  case refused =>
    intro context site parent target request finish hresolve
    obtain ⟨delegation, hdelegated, rfl, hanswers⟩ := Topology.exists_delegation_of_request hresolve
    rw [← session.gateway_run calls] at hresolve
    rw [resolve_of_request hresolve, hclosed.execute_eq, hdelegated]
    exact ⟨hanswers.failed .closed, rfl⟩
  case unaffected =>
    intro context site parent result hresolve earlier
    have hcalls := hresolve
    rw [← session.gateway_run calls] at hcalls
    rw [← session.gateway_run earlier] at hresolve
    rw [resolve_of_settled hcalls, resolve_of_settled hresolve]

/-- Every resolution of every run takes one round trip at most, and after a shutdown none. -/
theorem round_trips (session : Session) (calls : List Call) :
    (∀ context site parent, (session.run calls).RoundTrip context site parent) ∧
      (.shutdown ∈ calls → session.Silent calls) :=
  ⟨(session.run calls).roundTrip, fun h => silent_of_shutdown h session⟩

end Session

namespace Sample

/-- A session over both services; the service of reviews has one reply in store. -/
def session : Session :=
  ⟨gateway, ⟨[.scripted "reviews" [.status 503], .scripted "users" []], []⟩⟩

def reviewer : FieldSite := ⟨"Query", ⟨.bare "reviewer", []⟩, client⟩

/-- The reviewer is asked for, before the session is shut down and after it. -/
def calls : List Session.Call :=
  [.resolve .unlimited reviewer .null, .shutdown, .resolve .unlimited reviewer .null]

end Sample

/-- One request before the shutdown, none after it. -/
theorem round_trips_sample : .shutdown ∈ Sample.calls ∧ Sample.session.Silent Sample.calls ∧
    (Sample.session.run Sample.calls).RoundTrip .unlimited Sample.reviewer .null ∧
    ∃ request, (Sample.session.run Sample.calls).connections.events =
      [.received "reviews" request, .closed "reviews", .closed "users"] := by
  have hshutdown : .shutdown ∈ Sample.calls := List.mem_cons_of_mem _ List.mem_cons_self
  obtain ⟨htrip, hsilent⟩ := Session.round_trips Sample.session Sample.calls
  exact ⟨hshutdown, hsilent hshutdown, htrip .unlimited Sample.reviewer .null, _, rfl⟩

end Supergraph
