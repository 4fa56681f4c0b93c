import Supergraph.Proofs.ReferenceLists
import Supergraph.Proofs.Sessions

/-!
A lone reference: by itself, or as the only item of a list.

The two are resolved by separate definitions. They ask for the same entity in the same words, and differ in
where they look for it in the response: the list takes all entities and counts them, the lone reference takes
the first one at its path.

1. `resolveReferences_singleton` brings the list to the form that the lone reference has.
2. `itemOf_answers`: of a response with one entity the list is made of what the lone reference is made into,
   but where the entity is `null` and comes with errors: there the list has `null` in it, and the lone
   reference fails.
3. `lone_reference_parallel` says so of resolutions in a session.
-/

namespace Supergraph

open GraphQL

/-! ## Paths into a response -/

theorem Json.at?_append (path further : List String) (value : Json) :
    value.at? (path ++ further) = (value.at? path).bind fun next => next.at? further := by
  induction path generalizing value with
  | nil => rfl
  | cons segment path ih =>
    have hwalk : ∀ next : Json, walk? Text.count? next (path ++ further) =
        (walk? Text.count? next path).bind fun last => last.at? further := ih
    cases value with
    | object members => simp only [at?, List.cons_append, walk?, hwalk, Option.bind_assoc]
    | array items => simp only [at?, List.cons_append, walk?, hwalk, Option.bind_assoc]
    | _ => rfl

theorem Response.dataAt?_first {response : Response} {entity : Json} {others : List Json}
    (h : response.dataAt? [entitiesField] = some (.array (entity :: others))) :
    response.dataAt? [entitiesField, "0"] = some entity := by
  obtain ⟨data, hdata, hentities⟩ := Option.bind_eq_some_iff.mp h
  rw [dataAt?, hdata, Option.bind_some]
  have hpath : [entitiesField, "0"] = [entitiesField] ++ ["0"] := rfl
  rw [hpath, Json.at?_append, hentities, Option.bind_some]
  have hindex : Text.count? "0" = some 0 := by decide +kernel
  rw [Json.at?, Json.walk?, hindex]
  rfl

/-! ## A list and its item -/

/-- One request, and what its outcome is made into for a list and for the only item of the list. A failure is
the same for both. Of a response with one entity, the list comes to what the item comes to; both come to the
entity, unless it is `null` and there are errors. -/
structure ItemOf (service : String)
    (listed single : Except TransportError Response → Except ResolutionError Json) : Prop where
  failed : ∀ failure, listed (.error failure) = .error (.protocol service failure) ∧
    single (.error failure) = .error (.protocol service failure)
  replied : ∀ response entity, response.dataAt? [entitiesField] = some (.array [entity]) →
    entity ≠ .null ∨ response.errors = [] → single (.ok response) = .ok entity ∧
      ∀ result, listed (.ok response) = .ok (.array [result]) ↔ single (.ok response) = .ok result
  unfound : ∀ response, response.dataAt? [entitiesField] = some (.array [.null]) →
    response.errors ≠ [] → listed (.ok response) = .ok (.array [.null]) ∧
      single (.ok response) = .error (.application service response.errors)

/-- Two resolutions, of a list and of its only item. Both settle, with the same error or with the value in a
list and by itself; or both take the same request. -/
inductive Parallel : Resolution → Resolution → Prop
  | settled (result : Except ResolutionError Json) :
      Parallel (.settled (result.map fun value => .array [value])) (.settled result)
  | request {service : String} {request : Request}
      {listed single : Except TransportError Response → Except ResolutionError Json} :
      ItemOf service listed single →
      Parallel (.request service request listed) (.request service request single)

namespace Parallel

variable {service : String}

theorem error (error : ResolutionError) : Parallel (.settled (.error error)) (.settled (.error error)) :=
  .settled (.error error)

theorem after {α : Type} {value : Except ResolutionError α} {listed single : α → Resolution}
    (h : ∀ found, Parallel (listed found) (single found)) :
    Parallel (.after value listed) (.after value single) := by
  cases value with
  | error first => exact .error first
  | ok found => exact h found

theorem ofOperation {synthesized : Except SynthesisError ServiceOperation}
    {listed single : Response → Except ResolutionError Json}
    (h : ItemOf service (fun outcome => (answered service outcome).bind listed)
      fun outcome => (answered service outcome).bind single) :
    Parallel (.ofOperation service synthesized listed) (.ofOperation service synthesized single) := by
  cases synthesized with
  | error first => exact .error (.synthesis first)
  | ok operation => exact .request h

end Parallel

/-! ## Reading the entity -/

variable {service : String} {response : Response} {stub entity : Json}

theorem listed_entity (hstub : stub ≠ .null)
    (h : response.dataAt? [entitiesField] = some (.array [entity])) :
    (do
      let found ← entities service 1 response
      return Json.array (reassemble [stub] found)) = .ok (.array [entity]) := by
  have hfound : entities service 1 response = .ok [entity] := entities_eq_ok_iff.mpr ⟨h, rfl⟩
  rw [hfound]
  show Except.ok (Json.array (reassemble [stub] [entity])) = _
  rw [reassemble]
  · rfl
  · exact hstub

theorem itemOf_answers (service : String) (hstub : stub ≠ .null) :
    ItemOf service
      (fun outcome => (answered service outcome).bind fun response => do
        let found ← entities service 1 response
        return .array (reassemble [stub] found))
      fun outcome => (answered service outcome).bind (valueAt service [entitiesField, "0"]) where
  failed _ := ⟨rfl, rfl⟩
  replied response entity hentity hpresent := by
    have hsingle : valueAt service [entitiesField, "0"] response = .ok entity := by
      refine valueAt_eq_ok_iff.mpr ⟨Response.dataAt?_first hentity, fun hnull => ?_⟩
      exact hpresent.resolve_left fun hne => hne hnull
    refine ⟨hsingle, fun result => ?_⟩
    show (do
      let found ← entities service 1 response
      return Json.array (reassemble [stub] found)) = .ok (.array [result]) ↔
        valueAt service [entitiesField, "0"] response = .ok result
    rw [listed_entity hstub hentity, hsingle]
    simp
  unfound response hnull herrors := by
    refine ⟨listed_entity hstub hnull, ?_⟩
    show valueAt service [entitiesField, "0"] response = _
    rw [valueAt, Response.dataAt?_first hnull]
    simp [Json.isNull, herrors]

/-! ## Resolution -/

namespace Topology

variable {topology : Topology} {site : FieldSite}

/-- A list with one reference is resolved through the representation of this reference, on its type. -/
theorem resolveReferences_singleton (service : Service) (returnType : String) (hstub : stub ≠ .null) :
    topology.resolveReferences service site returnType [stub] =
      .after (site.representation ((typename? stub).getD returnType) stub) fun representation =>
        .ofOperation service.name
          ((topology.pruner service site).askEntities site.field [(typename? stub).getD returnType]
            [representation])
          fun response => do
            let found ← entities service.name 1 response
            return .array (reassemble [stub] found) := by
  have hpresent : [stub].filter (fun item => !item.isNull) = [stub] := by
    simpa [List.filter_cons] using mt Json.isNull_iff.mp hstub
  rw [resolveReferences, hpresent, List.mapM_cons, List.mapM_nil]
  cases site.representation ((typename? stub).getD returnType) stub with
  | error error => rfl
  | ok representation => rfl

theorem resolveEntity_of_list (service : Service) {parent : Json} {items : List Json}
    (h : parent.member? site.responseKey = some (.array items)) :
    topology.resolveEntity service site parent =
      topology.resolveReferences service site (topology.presumedType site .entityReference) items := by
  rw [resolveEntity, h]
  rfl

theorem resolveEntity_of_lone (service : Service) {parent : Json}
    (h : parent.member? site.responseKey = some stub) (hnull : stub ≠ .null)
    (harray : ∀ items, stub ≠ .array items) :
    topology.resolveEntity service site parent =
      topology.resolveReference service site (topology.presumedType site .entityReference) stub := by
  rw [resolveEntity, h]
  cases stub with
  | null => exact absurd rfl hnull
  | array items => exact absurd rfl (harray items)
  | _ => rfl

/-- One parent has a list with a single item, another has the item by itself. -/
theorem parallel_resolveEntity (service : Service) {listed single : Json}
    (harray : ∀ items, stub ≠ .array items)
    (hlisted : listed.member? site.responseKey = some (.array [stub]))
    (hsingle : single.member? site.responseKey = some stub) :
    Parallel (topology.resolveEntity service site listed) (topology.resolveEntity service site single) := by
  rw [resolveEntity_of_list service hlisted]
  by_cases hnull : stub = .null
  · -- Nothing is asked for: the list stays as it is, and `null` stays `null`.
    subst hnull
    rw [resolveEntity, hsingle]
    exact .settled (.ok .null)
  · rw [resolveEntity_of_lone service hsingle hnull harray, resolveReferences_singleton service _ hnull]
    exact .after fun representation => .ofOperation (itemOf_answers service.name hnull)

theorem parallel_resolve {target : String} {listed single : Json}
    (hdelegated : topology.schema.delegation? site.parentType site.fieldName =
      some ⟨.entityReference, target⟩)
    (harray : ∀ items, stub ≠ .array items)
    (hlisted : listed.member? site.responseKey = some (.array [stub]))
    (hsingle : single.member? site.responseKey = some stub) :
    Parallel (topology.resolve site listed) (topology.resolve site single) := by
  cases hservice : topology.registry.find? target with
  | none =>
    rw [resolve_of_unknown hdelegated hservice, resolve_of_unknown hdelegated hservice]
    exact .error (.unknownService target)
  | some service =>
    simp only [resolve, hdelegated, hservice]
    exact parallel_resolveEntity service harray hlisted hsingle

end Topology

/-! ## Sessions -/

namespace Session

variable {session : Session} {site : FieldSite} {listed single : Json}

/-- Parallel resolutions send the same, and fail in the same way before they send anything. -/
theorem resolve_of_parallel
    (h : Parallel (session.gateway.topology.resolve site listed)
      (session.gateway.topology.resolve site single)) (context : RequestContext) :
    (session.resolve context site listed).2 = (session.resolve context site single).2 ∧
    ∀ error : ResolutionError, error.BeforeSending →
      ((session.resolve context site listed).1 = .error error ↔
        (session.resolve context site single).1 = .error error) := by
  generalize hlisted : session.gateway.topology.resolve site listed = first at h
  generalize hsingle : session.gateway.topology.resolve site single = second at h
  cases h with
  | settled result =>
    rw [resolve_of_settled hlisted, resolve_of_settled hsingle]
    refine ⟨rfl, fun error _ => ?_⟩
    cases result with
    | ok value => exact iff_of_false nofun nofun
    | error found => exact Iff.rfl
  | request _ =>
    -- What comes of a request is no error from before it was sent.
    obtain ⟨_, _, _, hlistedAnswers⟩ := Topology.exists_delegation_of_request hlisted
    obtain ⟨_, _, _, hsingleAnswers⟩ := Topology.exists_delegation_of_request hsingle
    rw [resolve_of_request hlisted, resolve_of_request hsingle]
    exact ⟨rfl, fun error hbefore => iff_of_false
      (fun herror => hlistedAnswers.not_beforeSending herror hbefore)
      (fun herror => hsingleAnswers.not_beforeSending herror hbefore)⟩

/-- A reference that is no list is resolved in the same way by itself and as the only item of a list: with the
same request or none, after which the session is the same, and with the same errors before the request. -/
theorem lone_reference_parallel {target : String} {stub : Json}
    (hdelegated : session.gateway.topology.schema.delegation? site.parentType site.fieldName =
      some ⟨.entityReference, target⟩)
    (harray : ∀ items, stub ≠ .array items)
    (hlisted : listed.member? site.responseKey = some (.array [stub]))
    (hsingle : single.member? site.responseKey = some stub) :
    Parallel (session.gateway.topology.resolve site listed)
      (session.gateway.topology.resolve site single) ∧
    ∀ context, (session.resolve context site listed).2 = (session.resolve context site single).2 ∧
      ∀ error : ResolutionError, error.BeforeSending →
        ((session.resolve context site listed).1 = .error error ↔
          (session.resolve context site single).1 = .error error) := by
  have hparallel := Topology.parallel_resolve hdelegated harray hlisted hsingle
  exact ⟨hparallel, resolve_of_parallel hparallel⟩

end Session

/-! ## The author of a review -/

def authored (author : Json) : Json := .object [("author", author)]

/-- The author in a list and by itself: one request, and the same user from its response. -/
theorem lone_reference_author :
    Sample.session.gateway.topology.schema.delegation? "Review" "author" =
      some ⟨.entityReference, "users"⟩ ∧
    (∀ items, Json.object [("id", .string "1")] ≠ .array items) ∧
    ∃ request listed single,
      Sample.session.gateway.topology.resolve (siteBelow "Review" "author")
        (authored (.array [.object [("id", .string "1")]])) = .request "users" request listed ∧
      Sample.session.gateway.topology.resolve (siteBelow "Review" "author")
        (authored (.object [("id", .string "1")])) = .request "users" request single ∧
      ItemOf "users" listed single := by
  have hdelegated : Sample.session.gateway.topology.schema.delegation? "Review" "author" =
      some ⟨.entityReference, "users"⟩ := by decide +kernel
  have harray : ∀ items, Json.object [("id", .string "1")] ≠ .array items := nofun
  have hlisted : (authored (.array [.object [("id", .string "1")]])).member?
      (siteBelow "Review" "author").responseKey = some (.array [.object [("id", .string "1")]]) := rfl
  have hsingle : (authored (.object [("id", .string "1")])).member?
      (siteBelow "Review" "author").responseKey = some (.object [("id", .string "1")]) := rfl
  refine ⟨hdelegated, harray, ?_⟩
  obtain ⟨hparallel, _⟩ := Session.lone_reference_parallel hdelegated harray hlisted hsingle
  have hsent : ∃ request finish, Sample.session.gateway.topology.resolve (siteBelow "Review" "author")
      (authored (.object [("id", .string "1")])) = .request "users" request finish := ⟨_, _, rfl⟩
  obtain ⟨request, single, hsent⟩ := hsent
  rw [hsent] at hparallel
  generalize hresolve : Sample.session.gateway.topology.resolve (siteBelow "Review" "author")
    (authored (.array [.object [("id", .string "1")]])) = resolution at hparallel
  cases hparallel with
  | request hitem => exact ⟨request, _, single, rfl, hsent, hitem⟩

end Supergraph
