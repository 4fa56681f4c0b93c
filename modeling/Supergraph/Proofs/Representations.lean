import Supergraph.Proofs.Routing
import Supergraph.Proofs.UpstreamErrors

/-!
The representations of entities, and the fragments that are asked for on them.

The type of an object is put down twice: in its representation, and as the condition of a fragment in the
document. A service finds the entity by the one and applies the fragments by the other.

1. `Represents` relates an object to its representation, and `asksFor_askEntities` says what a document for
   entities consists of.
2. `asked_of_request` puts them together for both kinds of delegation that ask for entities.
3. `representations_match_iff` says when a representation meets exactly one fragment, on a type that the
   service knows: where the object names no type, or names it by a string, and the service knows that type.
   `unnamed_stub_sent` is an object that names its type by `null`.
-/

namespace Supergraph

open GraphQL

/-! ## Representations -/

/-- A representation has the members of its object, and `__typename` with the presumed type if that is not
among them. -/
inductive Represents (presumed : String) : Json → Json → Prop
  | intro {members others : List (String × Json)}
      (member : ∀ name, Entries.find? name others =
        (Entries.find? name members).or (if name = typenameField then some (.string presumed) else none))
      (sorted : Entries.Sorted members → Entries.Sorted others) :
      Represents presumed (.object members) (.object others)

/-- The object names no type, or names it by a string. -/
def NamedByString (object : Json) : Prop :=
  ∀ value, object.member? typenameField = some value → ∃ name, value = .string name

theorem represents_of_representation? {presumed : String} {object representation : Json}
    (h : representation? presumed object = some representation) :
    Represents presumed object representation := by
  cases object with
  | object members =>
    rw [representation?] at h
    split at h
    · next value hvalue =>
      cases h
      refine .intro (fun name => ?_) id
      split
      · next hname =>
        rw [hname, hvalue]
        rfl
      · rw [Option.or_none]
    · next hnone =>
      cases h
      refine .intro (fun name => ?_) (Entries.Sorted.insert _ _)
      rw [Entries.find?_insert]
      by_cases hname : name = typenameField
      · rw [if_pos hname.symm, if_pos hname, hname, hnone, Option.none_or]
      · rw [if_neg (Ne.symm hname), if_neg hname, Option.or_none]
  | _ => cases h

namespace Represents

variable {presumed : String} {object representation : Json}

/-- What is presumed matters only where the object names nothing. -/
theorem of_typename (h : Represents ((typename? object).getD presumed) object representation) :
    Represents presumed object representation := by
  cases h with
  | @intro members others member sorted =>
    refine .intro (fun name => ?_) sorted
    rw [member]
    cases hfound : Entries.find? name members with
    | some value => rfl
    | none =>
      rw [Option.none_or, Option.none_or]
      refine ite_congr rfl ?_ fun _ => rfl
      rintro rfl
      have hnone : typename? (.object members) = none := by
        rw [typename?, Json.member?, hfound, Option.bind_none]
      rw [hnone, Option.getD_none]

theorem member?_typename (h : Represents presumed object representation) :
    representation.member? typenameField =
      some ((object.member? typenameField).getD (.string presumed)) := by
  cases h with
  | @intro members others member sorted =>
    rw [Json.member?, member, if_pos rfl, Json.member?]
    cases Entries.find? typenameField members <;> rfl

/-- The representation names its type by a string if and only if the object does so, or names none; it is
the type that the fragments go by then. -/
theorem typename_iff (h : Represents presumed object representation) (name : String) :
    representation.member? typenameField = some (.string name) ↔
      NamedByString object ∧ (typename? object).getD presumed = name := by
  rw [h.member?_typename, NamedByString, typename?]
  cases object.member? typenameField with
  | none => simp
  | some value => cases value <;> simp [Json.string?]

end Represents

namespace FieldSite

variable {site : FieldSite} {presumed : String} {object representation : Json}

theorem represents_of_representation
    (h : site.representation ((typename? object).getD presumed) object = .ok representation) :
    Represents presumed object representation := by
  rw [FieldSite.representation] at h
  split at h
  · next found hfound =>
    cases h
    exact (represents_of_representation? hfound).of_typename
  · cases h

end FieldSite

/-! ## Documents for entities -/

/-- The conditions of the inline fragments that stand directly at a level. -/
def inlineConditions (level : List Selection) : List (Option String) :=
  level.filterMap fun
    | .inline condition _ _ => some condition
    | _ => none

/-- The operation is a query for the entities of representations, with one inline fragment for each of some
types at the level of the entities. -/
structure ServiceOperation.AsksFor (synthesized : ServiceOperation) (level : List Selection)
    (types : List String) (representations : List Json) : Prop where
  query : synthesized.operation.kind = .query
  asked : synthesized.operation.selections = [.field Pruner.entitiesHead level]
  conditions : inlineConditions level = types.map some
  sent : synthesized.values.find? representationsVariable = some (.array representations)

namespace Pruner

variable {pruner : Pruner} {field : Field} {representations : List Json} {synthesized : ServiceOperation}

theorem asksFor_askRepresentations {choices : List Selection} {types : List String}
    (hchoices : inlineConditions choices = types.map some)
    (h : pruner.askRepresentations choices representations = .ok synthesized) :
    synthesized.AsksFor (.bare typenameField :: choices) types representations := by
  obtain ⟨fragments, definitions, values, _, _, _, rfl⟩ := askRepresentations_eq_ok h
  exact ⟨rfl, rfl, hchoices, by rw [NameMap.find?_insert, if_pos rfl]⟩

theorem inlineConditions_choices {types : List String} {choices : List Selection}
    (h : List.Forall₂ (fun type choice => ∃ level,
      pruner.prune type field.selections = .ok level ∧ choice = .inline (some type) [] level)
      types choices) : inlineConditions choices = types.map some := by
  induction h with
  | nil => rfl
  | cons hchoice _ ih =>
    obtain ⟨level, _, rfl⟩ := hchoice
    exact congrArg (some _ :: ·) ih

theorem asksFor_askEntities {types : List String}
    (h : pruner.askEntities field types representations = .ok synthesized) :
    ∃ level, synthesized.AsksFor level types representations := by
  obtain ⟨choices, hchoices, h⟩ := askEntities_eq_ok h
  exact ⟨_, asksFor_askRepresentations (inlineConditions_choices hchoices) h⟩

theorem asksFor_askEntityField {parentType condition : String} {representation : Json}
    (h : pruner.askEntityField field parentType condition representation = .ok synthesized) :
    ∃ level, synthesized.AsksFor level [condition] [representation] := by
  obtain ⟨delegated, _, h⟩ := askEntityField_eq_ok h
  exact ⟨_, asksFor_askRepresentations rfl h⟩

end Pruner

/-! ## From a field to its representations -/

/-- What is put down of objects: their types, each once and in the order in which they first occur, and a
representation of every object. -/
structure Described (presumed : String) (objects : List Json) (types : List String)
    (representations : List Json) : Prop where
  types : Ownership.FirstMentions (objects.map fun object => (typename? object).getD presumed) types
  represents : List.Forall₂ (Represents presumed) objects representations

theorem described_of_mapM {site : FieldSite} {presumed : String} {objects representations : List Json}
    (h : (objects.mapM fun object => site.representation ((typename? object).getD presumed) object) =
      .ok representations) : Described presumed objects (concreteTypes presumed objects) representations where
  types := Ownership.firstMentions_foldl_appendNew _
  represents := (Outcome.mapM_eq_ok h).imp fun _ _ => FieldSite.represents_of_representation

section Request

variable {topology : Topology} {site : FieldSite} {parent : Json} {service : Service}
  {kind : DelegationKind} {target name : String} {request : Request}
  {finish : Except TransportError Response → Except ResolutionError Json}

/-- The request for references, or for a field of the parent's entity, describes the objects that it is
about. -/
theorem described_of_request
    (hdelegated : topology.schema.delegation? site.parentType site.fieldName = some ⟨kind, target⟩)
    (hservice : topology.registry.find? target = some service) (hkind : kind ≠ .rootDelegate)
    (h : topology.resolve site parent = .request name request finish) :
    ∃ synthesized level types representations, request = ServiceOperation.toRequest synthesized ∧
      Described (topology.presumedType site kind) (site.represented parent kind) types representations ∧
      synthesized.AsksFor level types representations := by
  simp only [Topology.resolve, hdelegated, hservice] at h
  cases kind with
  | rootDelegate => exact absurd rfl hkind
  | entityReference =>
    obtain ⟨representations, synthesized, hmapM, hasked, _, hrequest⟩ := resolveEntity_eq_request h
    obtain ⟨level, hasks⟩ := Pruner.asksFor_askEntities hasked
    exact ⟨synthesized, level, _, representations, hrequest, described_of_mapM hmapM, hasks⟩
  | fieldResolver =>
    obtain ⟨representation, hrepresentation, h⟩ := after_eq_request h
    obtain ⟨synthesized, hasked, _, hrequest⟩ := ofOperation_eq_request h
    obtain ⟨level, hasks⟩ := Pruner.asksFor_askEntityField hasked
    refine ⟨synthesized, level, _, [representation], hrequest, ?_, hasks⟩
    exact ⟨Ownership.firstMentions_foldl_appendNew [_],
      .cons (FieldSite.represents_of_representation hrepresentation) .nil⟩

end Request

/-! ## Representations and fragments -/

/-- The representation names its type by a string, exactly one inline fragment at the level is on that type,
and the service knows it. -/
def Matched (service : Service) (level : List Selection) (representation : Json) : Prop :=
  ∃ type, representation.member? typenameField = some (.string type) ∧
    (inlineConditions level).count (some type) = 1 ∧ service.shape.knows type = true

/-- Each of the types has exactly one fragment. -/
theorem ServiceOperation.AsksFor.count_conditions {synthesized : ServiceOperation}
    {level : List Selection} {types : List String} {representations : List Json}
    (h : synthesized.AsksFor level types representations) (hnodup : types.Nodup) {type : String}
    (hmem : type ∈ types) : (inlineConditions level).count (some type) = 1 := by
  rw [h.conditions]
  apply List.count_eq_one_of_mem
  · exact hnodup.map (Option.some_injective _)
  · exact List.mem_map_of_mem hmem

theorem Represents.matched_iff {presumed : String} {object representation : Json}
    (h : Represents presumed object representation) {level : List Selection}
    (hone : (inlineConditions level).count (some ((typename? object).getD presumed)) = 1)
    (service : Service) : Matched service level representation ↔
      NamedByString object ∧ service.shape.knows ((typename? object).getD presumed) = true := by
  constructor
  · rintro ⟨type, htype, _, hknows⟩
    obtain ⟨hnamed, rfl⟩ := (h.typename_iff type).mp htype
    exact ⟨hnamed, hknows⟩
  · rintro ⟨hnamed, hknows⟩
    exact ⟨_, (h.typename_iff _).mpr ⟨hnamed, rfl⟩, hone, hknows⟩

namespace Topology

/-- A request for entities sends the objects that it is about, with a type beside those that name none; and
the representation of an object meets exactly one fragment, on a type that the service knows, if and only if
the object does not name its type by anything but a string, and the service knows the type. -/
theorem representations_match_iff {topology : Topology} {site : FieldSite} {parent : Json}
    {kind : DelegationKind} {target name : String} {request : Request}
    {finish : Except TransportError Response → Except ResolutionError Json}
    (hdelegated : topology.schema.delegation? site.parentType site.fieldName = some ⟨kind, target⟩)
    (hkind : kind ≠ .rootDelegate)
    (hsent : topology.resolve site parent = .request name request finish) :
    ∃ (service : Service) (synthesized : ServiceOperation) (level : List Selection)
      (representations : List Json),
      topology.registry.find? target = some service ∧ name = target ∧
      request = synthesized.toRequest ∧
      synthesized.operation.selections = [.field Pruner.entitiesHead level] ∧
      synthesized.values.find? representationsVariable = some (.array representations) ∧
      List.Forall₂ (fun object representation =>
        Represents (topology.presumedType site kind) object representation ∧
        (Matched service level representation ↔ NamedByString object ∧
          service.shape.knows ((typename? object).getD (topology.presumedType site kind)) = true))
        (site.represented parent kind) representations := by
  cases hservice : topology.registry.find? target with
  | none => cases (resolve_of_unknown hdelegated hservice).symm.trans hsent
  | some service =>
    obtain ⟨delegation, hfound, hname, _⟩ := exists_delegation_of_request hsent
    cases hdelegated.symm.trans hfound
    obtain ⟨synthesized, level, types, representations, hrequest, hdescribed, hasks⟩ :=
      described_of_request hdelegated hservice hkind hsent
    refine ⟨service, synthesized, level, representations, rfl, hname.symm, hrequest, hasks.asked,
      hasks.sent, ?_⟩
    -- The type of every object is among those that there are fragments for.
    have hone : ∀ object ∈ site.represented parent kind, (inlineConditions level).count
        (some ((typename? object).getD (topology.presumedType site kind))) = 1 := by
      intro object hobject
      apply hasks.count_conditions hdescribed.types.nodup
      rw [hdescribed.types.mem_iff]
      exact List.mem_map_of_mem hobject
    refine ((List.forall₂_and_left _ _).mpr ⟨hone, hdescribed.represents⟩).imp ?_
    rintro object representation ⟨hcount, hrepresents⟩
    exact ⟨hrepresents, hrepresents.matched_iff hcount service⟩

end Topology

/-- A reference that names no type is presumed to be of one that its service declares. -/
theorem Gateway.Assembles.knows_presumedType {gateway : Gateway} {services : List Service}
    (h : gateway.Assembles services) (site : FieldSite) {target : String} {service : Service}
    (hdelegated : gateway.topology.schema.delegation? site.parentType site.fieldName =
      some ⟨.entityReference, target⟩)
    (hservice : gateway.topology.registry.find? target = some service) :
    service.shape.knows (gateway.topology.presumedType site .entityReference) = true := by
  obtain ⟨_, _, field, hfield, _, _, _, _, howner⟩ := h.delegations.reference _ _ _ hdelegated
  obtain ⟨topology, htopology, _, hcomposes⟩ := h.topology_eq
  rw [htopology] at howner
  obtain ⟨other, hmem, ⟨_, hdeclared⟩, hname⟩ :=
    hcomposes.exists_of_holder? (.type field.returnType) howner
  rw [h.registry_eq, (Registry.find?_eq_some_iff h.distinct).mpr ⟨hmem, hname⟩] at hservice
  cases hservice
  rw [Topology.presumedType, hfield, Option.map_some, Option.getD_some, ServiceShape.knows, hdeclared]
  rfl

/-! ## Stubs of authors -/

/-- Two authors, of whom the second one names its type, and a place without an author. -/
def authors : List Json :=
  [.object [("id", .string "1")], .null, .object [("__typename", .string "User"), ("id", .string "2")]]

def signed : Json := .object [("author", .array authors)]

/-- The representations of both authors meet the one fragment. -/
theorem authors_matched :
    Sample.gateway.topology.schema.delegation? "Review" "author" = some ⟨.entityReference, "users"⟩ ∧
    DelegationKind.entityReference ≠ .rootDelegate ∧
    ∃ name request finish, Sample.gateway.topology.resolve (siteBelow "Review" "author") signed =
        .request name request finish ∧
      ∃ service synthesized level representations, request = ServiceOperation.toRequest synthesized ∧
        synthesized.operation.selections = [.field Pruner.entitiesHead level] ∧
        synthesized.values.find? representationsVariable = some (.array representations) ∧
        representations.length = 2 ∧
        ∀ representation ∈ representations, Matched service level representation := by
  have hdelegated : Sample.gateway.topology.schema.delegation? "Review" "author" =
      some ⟨.entityReference, "users"⟩ := by decide +kernel
  have hsent : ∃ name request finish,
      Sample.gateway.topology.resolve (siteBelow "Review" "author") signed =
        .request name request finish := ⟨_, _, _, rfl⟩
  obtain ⟨name, request, finish, hsent⟩ := hsent
  have hkind : DelegationKind.entityReference ≠ .rootDelegate := by decide
  refine ⟨hdelegated, hkind, name, request, finish, hsent, ?_⟩
  obtain ⟨service, synthesized, level, representations, hservice, _, hrequest, hasked, hvalues, hmatch⟩ :=
    Topology.representations_match_iff hdelegated hkind hsent
  refine ⟨service, synthesized, level, representations, hrequest, hasked, hvalues,
    hmatch.length_eq.symm, ?_⟩
  intro representation hmem
  obtain ⟨object, hobject, _, hiff⟩ := exists_related hmatch hmem
  have hknows := Sample.assembles.knows_presumedType (siteBelow "Review" "author") hdelegated hservice
  refine hiff.mpr ?_
  have hauthors : (siteBelow "Review" "author").represented signed .entityReference =
      [.object [("id", .string "1")], .object [("__typename", .string "User"), ("id", .string "2")]] := rfl
  rw [hauthors, List.mem_cons, List.mem_singleton] at hobject
  rcases hobject with rfl | rfl
  · refine ⟨?_, hknows⟩
    intro value hvalue
    cases hvalue
  · refine ⟨?_, hknows⟩
    intro value hvalue
    cases hvalue
    exact ⟨_, rfl⟩

def unnamed : Json := .object [("__typename", .null), ("id", .string "1")]

/-- The document has the fragment that is right for the author, and the representation does not meet it,
since the `null` stays where it is. -/
theorem unnamed_stub_sent :
    Sample.gateway.topology.schema.delegation? "Review" "author" = some ⟨.entityReference, "users"⟩ ∧
    (siteBelow "Review" "author").represented (.object [("author", unnamed)]) .entityReference =
      [unnamed] ∧
    ∃ finish, ∃ synthesized : ServiceOperation, ∃ level,
      Sample.gateway.topology.resolve (siteBelow "Review" "author") (.object [("author", unnamed)]) =
        .request "users" synthesized.toRequest finish ∧
      synthesized.operation.selections = [.field Pruner.entitiesHead level] ∧
      inlineConditions level = [some "User"] ∧
      synthesized.values.find? representationsVariable = some (.array [unnamed]) ∧
      ∀ service, ¬ Matched service level unnamed := by
  have hsent : ∃ finish, Sample.gateway.topology.resolve (siteBelow "Review" "author")
      (.object [("author", unnamed)]) = .request "users" (ServiceOperation.toRequest
        ⟨⟨.query, some "EntitiesQuery", [Pruner.representationsDefinition], [],
          [.field Pruner.entitiesHead [.bare "__typename",
            .inline (some "User") [] [.bare "name", .bare "id", .bare "__typename"]]]⟩, [],
          .ofList [("representations", .array [unnamed])]⟩) finish := ⟨_, rfl⟩
  obtain ⟨finish, hsent⟩ := hsent
  refine ⟨by decide +kernel, rfl, finish, _, _, hsent, rfl, rfl, rfl, ?_⟩
  rintro service ⟨type, htype, _⟩
  cases htype

end Supergraph
