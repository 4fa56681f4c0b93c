import Supergraph.Resolution
import Supergraph.Proofs.Outcome

/-!
What the resolution of a field can come to. Once the service of a delegation is found, a field has a value
without asking, or fails for want of a representation or of an operation, or it asks that service
(`by_resolve`). What comes back is then made into a value or into an error of the same service (`Answers`).
-/

namespace Supergraph

open GraphQL

/-- What a field that is a reference finds at its parent. -/
def FieldSite.stubs (site : FieldSite) (parent : Json) : List Json :=
  match (parent.member? site.responseKey).getD .null with
  | .array items => items
  | stub => [stub]

/-- The objects that the entities of a field are found by: what its parent refers to, or the parent itself. -/
def FieldSite.represented (site : FieldSite) (parent : Json) : DelegationKind → List Json
  | .rootDelegate => []
  | .entityReference => (site.stubs parent).filter fun stub => !stub.isNull
  | .fieldResolver => [parent]

/-- The type of an object that names none, for each kind of delegation. -/
def Topology.presumedType (topology : Topology) (site : FieldSite) : DelegationKind → String
  | .rootDelegate | .entityReference =>
    ((topology.schema.field? site.parentType site.fieldName).map SchemaField.returnType).getD ""
  | .fieldResolver => site.parentType

/-! ## From a field to its request -/

variable {service : String} {request : Request} {make : Response → Except ResolutionError Json}
  {finish : Except TransportError Response → Except ResolutionError Json}

theorem ofOperation_eq_request {name : String} {synthesized : Except SynthesisError ServiceOperation}
    (h : Resolution.ofOperation service synthesized make = .request name request finish) :
    ∃ operation, synthesized = .ok operation ∧ name = service ∧ request = operation.toRequest := by
  cases synthesized with
  | error => cases h
  | ok operation =>
    cases h
    exact ⟨operation, rfl, rfl, rfl⟩

/-- A value is made of a response, and of no failure to get one. -/
theorem answered_bind_eq_ok {outcome : Except TransportError Response} {value : Json} :
    (answered service outcome).bind make = .ok value ↔
      ∃ response, outcome = .ok response ∧ make response = .ok value := by
  cases outcome with
  | error error => simp [answered, Except.bind]
  | ok response => simp [answered, Except.bind]

theorem after_eq_request {α : Type} {value : Except ResolutionError α} {next : α → Resolution}
    (h : Resolution.after value next = .request service request finish) :
    ∃ found, value = .ok found ∧ next found = .request service request finish := by
  cases value with
  | error => cases h
  | ok found => exact ⟨found, rfl, h⟩

/-- References are resolved in one request for the entities of all that are not null. -/
theorem resolveEntity_eq_request {topology : Topology} {asked : Service} {site : FieldSite} {parent : Json}
    (h : topology.resolveEntity asked site parent = .request service request finish) :
    ∃ representations synthesized,
      ((site.represented parent .entityReference).mapM fun stub => site.representation
        ((typename? stub).getD (topology.presumedType site .entityReference)) stub) = .ok representations ∧
      (topology.pruner asked site).askEntities site.field (concreteTypes
        (topology.presumedType site .entityReference) (site.represented parent .entityReference))
        representations = .ok synthesized ∧
      service = asked.name ∧ request = synthesized.toRequest := by
  rw [Topology.resolveEntity] at h
  unfold FieldSite.represented FieldSite.stubs
  split at h
  · cases h
  · next items hitems =>
    rw [hitems]
    obtain ⟨representations, hrepresentations, h⟩ := after_eq_request h
    split at h
    · cases h
    · obtain ⟨synthesized, hasked, hname, hrequest⟩ := ofOperation_eq_request h
      exact ⟨representations, synthesized, hrepresentations, hasked, hname, hrequest⟩
  · next hnotNull hnotArray =>
    -- Neither null nor a list: a list of one reference is asked for in the same way.
    generalize (parent.member? site.responseKey).getD .null = stub at *
    have hpresent : (match stub with
        | .array items => items
        | stub => [stub]).filter (fun stub => !stub.isNull) = [stub] := by
      cases stub with
      | null => exact absurd rfl hnotNull
      | array items => exact absurd rfl (hnotArray items)
      | _ => rfl
    rw [hpresent]
    obtain ⟨representation, hrepresentation, h⟩ := after_eq_request h
    obtain ⟨synthesized, hasked, hname, hrequest⟩ := ofOperation_eq_request h
    have hfirst : site.representation
        ((typename? stub).getD (topology.presumedType site .entityReference)) stub = .ok representation :=
      hrepresentation
    refine ⟨[representation], synthesized, ?_, hasked, hname, hrequest⟩
    rw [List.mapM_cons, hfirst]
    rfl

/-! ## Errors -/

/-- An error that a service gave rise to with its response. -/
inductive ResolutionError.OfResponse (service : String) : ResolutionError → Prop
  | application (errors : List ResponseError) : OfResponse service (.application service errors)
  | malformed (path : String) : OfResponse service (.malformedResponse service path)

/-- A response is made into a value, or into an error of the service. -/
def Reads (service : String) (make : Response → Except ResolutionError Json) : Prop :=
  ∀ response error, make response = .error error → error.OfResponse service

theorem valueAt_reads (service : String) (path : List String) : Reads service (valueAt service path) := by
  intro response error h
  rw [valueAt] at h
  split at h
  · split at h
    · cases h
    · split at h
      · cases h
      · cases h
        exact .application _
  · split at h
    · cases h
      exact .malformed _
    · cases h
      exact .application _

theorem entities_error {count : Nat} {response : Response} {error : ResolutionError}
    (h : entities service count response = .error error) : error.OfResponse service := by
  rcases Outcome.bind_eq_error.mp h with h | ⟨value, _, h⟩
  · exact valueAt_reads service _ response error h
  · split at h
    · split at h
      · cases h
      · cases h
        exact .malformed _
    · cases h
      exact .malformed _

/-- An error of the transport becomes one of the service, and a response is read. -/
structure Answers (service : String)
    (finish : Except TransportError Response → Except ResolutionError Json) : Prop where
  failed : ∀ error, finish (.error error) = .error (.protocol service error)
  responded : Reads service fun response => finish (.ok response)

/-- What a field comes to once its service is found. -/
inductive Resolution.By (service : String) : Resolution → Prop
  | value (value : Json) : By service (.settled (.ok value))
  | missing (type field : String) : By service (.settled (.error (.missingRepresentation type field)))
  | unwritten (error : SynthesisError) : By service (.settled (.error (.synthesis error)))
  | request {request : Request} {finish : Except TransportError Response → Except ResolutionError Json} :
      Answers service finish → By service (.request service request finish)

namespace Resolution.By

theorem ofOperation (hmake : Reads service make) (synthesized : Except SynthesisError ServiceOperation) :
    By service (.ofOperation service synthesized make) := by
  cases synthesized with
  | error error => exact .unwritten error
  | ok operation =>
    refine .request ⟨fun error => rfl, ?_⟩
    intro response error h
    exact hmake response error h

theorem after {α : Type} {value : Except ResolutionError α} {next : α → Resolution}
    (hvalue : ∀ error, value = .error error → ∃ type field, error = .missingRepresentation type field)
    (hnext : ∀ found, By service (next found)) : By service (.after value next) := by
  cases value with
  | error error =>
    obtain ⟨type, field, rfl⟩ := hvalue error rfl
    exact .missing type field
  | ok found => exact hnext found

theorem settled_ne_unknownService {result : Except ResolutionError Json}
    (h : By service (.settled result)) (name : String) : result ≠ .error (.unknownService name) := by
  rintro rfl
  cases h

end Resolution.By

theorem Answers.ne_unknownService (h : Answers service finish)
    (outcome : Except TransportError Response) (name : String) :
    finish outcome ≠ .error (.unknownService name) := by
  intro hunknown
  cases outcome with
  | error error => cases (h.failed error).symm.trans hunknown
  | ok response => cases h.responded response _ hunknown

theorem FieldSite.representation_error {site : FieldSite} {type : String} {value : Json}
    {error : ResolutionError} (h : site.representation type value = .error error) :
    ∃ type field, error = .missingRepresentation type field := by
  rw [representation] at h
  split at h
  · cases h
  · cases h
    exact ⟨_, _, rfl⟩

namespace Topology

variable (topology : Topology) (service : Service) (site : FieldSite)

theorem by_resolveReferences (returnType : String) (items : List Json) :
    Resolution.By service.name (topology.resolveReferences service site returnType items) := by
  apply Resolution.By.after
  · intro error herror
    obtain ⟨item, _, hitem⟩ := Outcome.exists_of_mapM_error herror
    exact FieldSite.representation_error hitem
  · intro representations
    split
    · exact .value _
    · apply Resolution.By.ofOperation
      intro response error herror
      rcases Outcome.bind_eq_error.mp herror with herror | ⟨found, _, herror⟩
      · exact entities_error herror
      · cases herror

theorem by_resolveReference (returnType : String) (stub : Json) :
    Resolution.By service.name (topology.resolveReference service site returnType stub) :=
  .after (fun _ => FieldSite.representation_error) fun _ => .ofOperation (valueAt_reads _ _) _

theorem by_resolveEntity (parent : Json) :
    Resolution.By service.name (topology.resolveEntity service site parent) := by
  rw [resolveEntity]
  split
  · exact .value _
  · exact topology.by_resolveReferences service site _ _
  · exact topology.by_resolveReference service site _ _

theorem by_resolveContributed (parent : Json) :
    Resolution.By service.name (topology.resolveContributed service site parent) :=
  .after (fun _ => FieldSite.representation_error) fun _ => .ofOperation (valueAt_reads _ _) _

end Topology

theorem Registry.name_of_find? {registry : Registry} {name : String} {service : Service}
    (h : registry.find? name = some service) : service.name = name := by
  simpa using List.find?_some h

namespace Topology

variable {topology : Topology} {site : FieldSite} {parent : Json} {delegation : Delegation}

theorem resolve_of_undelegated
    (h : topology.schema.delegation? site.parentType site.fieldName = none) :
    topology.resolve site parent = .settled (.ok ((parent.member? site.responseKey).getD .null)) := by
  rw [resolve, h]

theorem resolve_of_unknown
    (hdelegated : topology.schema.delegation? site.parentType site.fieldName = some delegation)
    (hnone : topology.registry.find? delegation.service = none) :
    topology.resolve site parent = .settled (.error (.unknownService delegation.service)) := by
  simp only [resolve, hdelegated, hnone]

/-- A field whose service is found is a matter of that service alone. -/
theorem by_resolve {service : Service}
    (hdelegated : topology.schema.delegation? site.parentType site.fieldName = some delegation)
    (hservice : topology.registry.find? delegation.service = some service) :
    Resolution.By delegation.service (topology.resolve site parent) := by
  rw [← Registry.name_of_find? hservice]
  obtain ⟨kind, target⟩ := delegation
  simp only [resolve, hdelegated, hservice]
  cases kind with
  | rootDelegate => exact .ofOperation (valueAt_reads _ _) _
  | entityReference => exact topology.by_resolveEntity service site parent
  | fieldResolver => exact topology.by_resolveContributed service site parent

theorem exists_delegation_of_request {target : String} {request : Request}
    {finish : Except TransportError Response → Except ResolutionError Json}
    (h : topology.resolve site parent = .request target request finish) : ∃ delegation,
    topology.schema.delegation? site.parentType site.fieldName = some delegation ∧
      delegation.service = target ∧ Answers target finish := by
  cases hdelegated : topology.schema.delegation? site.parentType site.fieldName with
  | none => cases (resolve_of_undelegated hdelegated).symm.trans h
  | some delegation =>
    cases hservice : topology.registry.find? delegation.service with
    | none => cases (resolve_of_unknown hdelegated hservice).symm.trans h
    | some service =>
      have hby : Resolution.By delegation.service (topology.resolve site parent) :=
        by_resolve hdelegated hservice
      rw [h] at hby
      cases hby with
      | request hanswers => exact ⟨delegation, rfl, rfl, hanswers⟩

theorem resolveEntity_of_null {service : Service}
    (hnull : ∀ stub ∈ site.stubs parent, stub.isNull = true) :
    ∃ value, topology.resolveEntity service site parent = .settled (.ok value) := by
  unfold FieldSite.stubs at hnull
  rw [resolveEntity]
  split
  · exact ⟨_, rfl⟩
  · next items hitems =>
    rw [hitems] at hnull
    have hpresent : items.filter (fun item => !item.isNull) = [] := by
      simpa using hnull
    rw [resolveReferences, hpresent]
    exact ⟨_, rfl⟩
  · next stub hstub hitems =>
    split at hnull
    · next items heq => exact absurd heq (hitems items)
    · have hisNull := hnull _ (List.mem_singleton_self _)
      generalize (parent.member? site.responseKey).getD .null = found at *
      cases found with
      | null => exact absurd rfl hstub
      | _ => cases hisNull

end Topology

end Supergraph
