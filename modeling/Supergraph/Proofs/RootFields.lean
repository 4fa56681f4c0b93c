import Supergraph.Proofs.UpstreamErrors

/-!
Fields of root types that are delegated to a service.

The kind of the request and the type that its field belongs to are taken from the client's operation, not from
the type on which the client selects the field. They agree at the root of an operation. Below it, where some
object gives access to a root type again, they need not.

1. `AsksRoot` is what an operation for a field of the root type of some kind looks like.
2. `root_request_iff`: a request is of the kind of the field's type if and only if the client's operation is.
   `version_sent_as_mutation` is a query below a mutation.
-/

namespace Supergraph

open GraphQL

/-- The operation asks for a field of the root type of a kind, and for nothing else. The field is the
client's, with its alias, arguments and directives; its sub-selections are pruned on the return type that it
has on the root type. -/
structure AsksRoot (pruner : Pruner) (kind : OperationKind) (field : Field)
    (synthesized : ServiceOperation) : Prop where
  kind_eq : synthesized.operation.kind = kind
  name_eq : synthesized.operation.name = some (kind.rootType ++ "_" ++ field.name)
  selected : ∃ level, synthesized.operation.selections = [.field field.head level] ∧
    (field.selections = [] ∧ level = [] ∨ field.selections ≠ [] ∧ ∃ composed,
      pruner.schema.field? kind.rootType field.name = some composed ∧
      pruner.prune composed.returnType field.selections = .ok level)

theorem asksRoot_of_askRootField {pruner : Pruner} {kind : OperationKind} {field : Field}
    {synthesized : ServiceOperation} (h : pruner.askRootField kind field = .ok synthesized) :
    AsksRoot pruner kind field synthesized := by
  obtain ⟨delegated, fragments, definitions, values, hdelegated, _, _, rfl⟩ := Pruner.askRootField_eq_ok h
  refine ⟨rfl, rfl, ?_⟩
  obtain ⟨hnil, rfl⟩ | ⟨hne, composed, level, hfield, hlevel, rfl⟩ := Pruner.pruneField_eq_ok hdelegated
  · exact ⟨[], by rw [Field.toSelection, hnil], .inl ⟨hnil, rfl⟩⟩
  · exact ⟨level, rfl, .inr ⟨hne, composed, hfield, hlevel⟩⟩

namespace Topology

/-- A root field is asked for in an operation of the client's kind, and its value is what the response has
under its response key. So the request is for a field of the type that the client selects the field on if and
only if the client's operation starts from that type. -/
theorem root_request_iff {topology : Topology} {site : FieldSite} {parent : Json} {target name : String}
    {request : Request} {finish : Except TransportError Response → Except ResolutionError Json}
    (hdelegated : topology.schema.delegation? site.parentType site.fieldName =
      some ⟨.rootDelegate, target⟩)
    (hsent : topology.resolve site parent = .request name request finish) :
    ∃ (service : Service) (synthesized : ServiceOperation),
      topology.registry.find? target = some service ∧ name = target ∧
      request = synthesized.toRequest ∧
      AsksRoot (topology.pruner service site) site.client.kind site.field synthesized ∧
      ((∃ kind, kind.rootType = site.parentType ∧
          AsksRoot (topology.pruner service site) kind site.field synthesized) ↔
        site.client.kind.rootType = site.parentType) ∧
      ∀ outcome value, finish outcome = .ok value ↔ ∃ response, outcome = .ok response ∧
        response.dataAt? [site.responseKey] = some value ∧ (value = .null → response.errors = []) := by
  cases hservice : topology.registry.find? target with
  | none => cases (resolve_of_unknown hdelegated hservice).symm.trans hsent
  | some service =>
    simp only [resolve, hdelegated, hservice, resolveRoot] at hsent
    cases hasked : (topology.pruner service site).askRootField site.client.kind site.field with
    | error error =>
      rw [hasked] at hsent
      cases hsent
    | ok synthesized =>
      rw [hasked] at hsent
      cases hsent
      have hasks := asksRoot_of_askRootField hasked
      refine ⟨service, synthesized, rfl, Registry.name_of_find? hservice, rfl, hasks, ?_, ?_⟩
      · constructor
        · -- An operation has one kind.
          rintro ⟨kind, hroot, hkind⟩
          rwa [← hasks.kind_eq, hkind.kind_eq]
        · exact fun hroot => ⟨_, hroot, hasks⟩
      · intro outcome value
        rw [answered_bind_eq_ok]
        simp only [valueAt_eq_ok_iff]

end Topology

/-! ## A version below a mutation -/

namespace Catalog

/-- A catalog with a version. Who publishes to it gets a receipt, and with it access to the root again. -/
def text : String :=
  "type Query \x7b version: String \x7d type Mutation \x7b publish: Receipt \x7d type Receipt \x7b query: Query \x7d"

def schema : SchemaDocument :=
  [⟨false, .object, "Query", [], [⟨"version", .named "String", []⟩]⟩,
    ⟨false, .object, "Mutation", [], [⟨"publish", .named "Receipt", []⟩]⟩,
    ⟨false, .object, "Receipt", [], [⟨"query", .named "Query", []⟩]⟩]

def service : Service where
  config := .ofAddress "catalog" ""
  sdl := text
  schema := schema
  shape := .ofSchema schema
  parsed := by decide +kernel
  shaped := rfl

def gateway : Gateway :=
  match Gateway.ofServices (.ofServices []) Schema.ofServices [service] with
  | .ok gateway => gateway
  | .error _ => ⟨.ofServices [], ⟨.empty, .initial, ⟨[]⟩⟩, []⟩

theorem built : Gateway.ofServices (.ofServices []) Schema.ofServices [service] = .ok gateway := by
  have hok : (Gateway.ofServices (.ofServices []) Schema.ofServices [service]).isOk = true := by
    decide +kernel
  obtain ⟨built, hbuilt⟩ := Outcome.exists_of_isOk hok
  rw [gateway, hbuilt]

/-- The version as a field of `Query`, selected somewhere in an operation. -/
def version (operation : Operation) : FieldSite where
  parentType := "Query"
  field := ⟨.bare "version", []⟩
  client := ⟨operation, .empty, .empty⟩

def read : Operation := ⟨.query, none, [], [], [.bare "version"]⟩

def publish : Operation :=
  ⟨.mutation, none, [], [], [.field (.bare "publish") [.field (.bare "query") [.bare "version"]]]⟩

end Catalog

/-- A query for the version asks the catalog by a query for the version. -/
theorem version_sent_as_query :
    Catalog.gateway.topology.schema.delegation? "Query" "version" = some ⟨.rootDelegate, "catalog"⟩ ∧
    ∃ name request finish synthesized,
      Catalog.gateway.topology.resolve (Catalog.version Catalog.read) .null = .request name request finish ∧
      name = "catalog" ∧ request = ServiceOperation.toRequest synthesized ∧
      ∃ kind, kind.rootType = "Query" ∧ AsksRoot
        (Catalog.gateway.topology.pruner Catalog.service (Catalog.version Catalog.read)) kind
        (Catalog.version Catalog.read).field synthesized := by
  have hdelegated : Catalog.gateway.topology.schema.delegation? "Query" "version" =
      some ⟨.rootDelegate, "catalog"⟩ := by decide +kernel
  have hsent : ∃ name request finish, Catalog.gateway.topology.resolve (Catalog.version Catalog.read)
      .null = .request name request finish := ⟨_, _, _, rfl⟩
  obtain ⟨name, request, finish, hsent⟩ := hsent
  have hfind : Catalog.gateway.topology.registry.find? "catalog" = some Catalog.service := rfl
  obtain ⟨service, synthesized, hservice, hname, hrequest, _, hiff, _⟩ :=
    Topology.root_request_iff hdelegated hsent
  cases hfind.symm.trans hservice
  exact ⟨hdelegated, name, request, finish, synthesized, hsent, hname, hrequest, hiff.mpr rfl⟩

/-- Below a mutation the catalog is asked for the version by a mutation, and as a field of `Mutation`, where
there is none. -/
theorem version_sent_as_mutation :
    Gateway.ofServices (.ofServices []) Schema.ofServices [Catalog.service] = .ok Catalog.gateway ∧
    ClientOperation.ofDocument [.operation Catalog.publish] none .empty =
      .ok (Catalog.version Catalog.publish).client ∧
    Catalog.gateway.topology.schema.delegation? "Query" "version" = some ⟨.rootDelegate, "catalog"⟩ ∧
    Catalog.gateway.topology.schema.field? "Mutation" "version" = none ∧
    ∃ finish, ∃ synthesized : ServiceOperation,
      Catalog.gateway.topology.resolve (Catalog.version Catalog.publish) .null =
        .request "catalog" synthesized.toRequest finish ∧
      synthesized.operation.kind = .mutation ∧ synthesized.operation.name = some "Mutation_version" ∧
      ∀ kind : OperationKind, kind.rootType = "Query" → ¬ AsksRoot
        (Catalog.gateway.topology.pruner Catalog.service (Catalog.version Catalog.publish)) kind
        (Catalog.version Catalog.publish).field synthesized := by
  have hsent : ∃ finish, Catalog.gateway.topology.resolve (Catalog.version Catalog.publish) .null =
      .request "catalog" (ServiceOperation.toRequest ⟨⟨.mutation, some "Mutation_version", [], [],
        [.bare "version"]⟩, [], .empty⟩) finish := ⟨_, rfl⟩
  obtain ⟨finish, hsent⟩ := hsent
  have hmissing : (Catalog.gateway.topology.schema.field? "Mutation" "version").isSome = false := by
    decide +kernel
  refine ⟨Catalog.built, rfl, by decide +kernel, Option.not_isSome_iff_eq_none.mp (by simp [hmissing]),
    finish, _, hsent, rfl, rfl, ?_⟩
  intro kind hroot hasks
  have hkind : OperationKind.mutation = kind := hasks.kind_eq
  subst hkind
  exact absurd hroot (by decide)

end Supergraph
