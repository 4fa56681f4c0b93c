import Supergraph.Proofs.Composition
import Supergraph.Proofs.Gateway
import Supergraph.Proofs.Shape

/-!
Which fields the composed schema has of those that the shapes of the services record.

Composition and the shape read the declarations of a service apart from each other, and both leave out
names of the protocol: composition on every type, the shape on root types only.

1. `ServiceShape.records_ofSchema_iff`: the shape records the fields of all declarations of an object or
   interface, whatever their role is.
2. `Schema.composed_iff_recorded`: the composed fields are the recorded ones outside the protocol. Of what
   a service can be asked for, pruning finds these and no others (`Pruner.Finds`).
3. `recorded_only`: a field of the protocol that a service can be asked for and that pruning does not find.
-/

namespace Supergraph

open GraphQL

/-! ## What a shape records -/

namespace ServiceShape

variable {schema : SchemaDocument} {type field : String}

/-- Nothing is recorded of a type of the protocol, nor of a root type a field of the protocol. -/
theorem keeps_of_records (h : (ofSchema schema).Records type field) :
    isInternalName type = false ∧ FieldTable.keeps type field = true := by
  rw [Records, owns_ofSchema_iff, contributes_ofSchema_iff, external_ofSchema_iff] at h
  rcases h with ⟨htype, hkeeps, _⟩ | ⟨htype, hkeeps, _⟩ | ⟨htype, hkeeps, _⟩
  all_goals exact ⟨htype, hkeeps⟩

/-- The shape records the fields of all declarations of an object or interface. -/
theorem records_ofSchema_iff
    (hkind : ∀ declaration ∈ schema, declaration.name = type →
      declaration.kind = .object ∨ declaration.kind = .interface) :
    (ofSchema schema).Records type field ↔ isInternalName type = false ∧
      FieldTable.keeps type field = true ∧ ∃ declaration ∈ schema, declaration.name = type ∧
        ∃ definition ∈ declaration.fields, definition.name = field := by
  rw [Records, owns_ofSchema_iff, contributes_ofSchema_iff, external_ofSchema_iff]
  constructor
  · rintro (⟨htype, hkeeps, declaration, hmem, _, hname, definition, hdefinition, hfield⟩ |
      ⟨htype, hkeeps, declaration, hmem, _, hname, definition, hdefinition, _, hfield⟩ |
      ⟨htype, hkeeps, declaration, hmem, _, hname, definition, hdefinition, _, hfield⟩)
    all_goals exact ⟨htype, hkeeps, declaration, hmem, hname, definition, hdefinition, hfield⟩
  · rintro ⟨htype, hkeeps, declaration, hmem, hname, definition, hdefinition, hfield⟩
    rcases TypeDeclaration.role_of_kind (hkind declaration hmem hname) with hrole | hrole
    · exact .inl ⟨htype, hkeeps, declaration, hmem, hrole, hname, definition, hdefinition, hfield⟩
    · cases hexternal : isExternal definition with
      | false =>
        exact .inr (.inl ⟨htype, hkeeps, declaration, hmem, hrole, hname, definition, hdefinition,
          hexternal, hfield⟩)
      | true =>
        exact .inr (.inr ⟨htype, hkeeps, declaration, hmem, hrole, hname, definition, hdefinition,
          hexternal, hfield⟩)

end ServiceShape

/-! ## What pruning finds -/

namespace Pruner

/-- Pruning knows what the field returns, and completes it as a key if the service answers it and it has
no fields of its own. -/
def Finds (pruner : Pruner) (type field : String) : Prop :=
  ∃ inner, pruner.returnType type field = .ok inner ∧
    pruner.completes type field = ((pruner.service.shape.owns type field ||
      pruner.service.shape.servesKey type field) && pruner.schema.isLeaf inner)

theorem finds_iff {pruner : Pruner} {type field : String} :
    pruner.Finds type field ↔ (pruner.schema.field? type field).isSome = true := by
  rw [Finds, returnType, completes]
  cases hfield : pruner.schema.field? type field with
  | none => simp
  | some composed => simp

/-- The pruner asks one of the services and looks at their composition, before or after it is wired. -/
structure Over (pruner : Pruner) (services : List Service) (schema : Schema) : Prop where
  asked : pruner.service ∈ services
  composed : pruner.schema = schema ∨
    ∃ topology : Topology, topology.schema = schema ∧ pruner.schema = topology.wiredSchema

theorem Over.isSome_field? {pruner : Pruner} {services : List Service} {schema : Schema}
    (h : pruner.Over services schema) (hplain : schema.Plain) (type field : String) :
    (pruner.schema.field? type field).isSome = (schema.field? type field).isSome := by
  rcases h.composed with hsame | ⟨topology, rfl, hwired⟩
  · rw [hsame]
  · rw [hwired, Topology.isSome_field?_wiredSchema hplain]

end Pruner

/-! ## Composition and shapes -/

namespace Schema

variable {services : List Service} {schema : Schema} {type field : String}

theorem kind_of_mem (h : ofServices services = .ok schema)
    (hkind : schema.kind? type = some .object ∨ schema.kind? type = some .interface)
    (htype : isInternalName type = false) {service : Service} (hservice : service ∈ services) :
    ∀ declaration ∈ service.schema, declaration.name = type →
      declaration.kind = .object ∨ declaration.kind = .interface := by
  rintro declaration hmem rfl
  have hdeclaration : declaration ∈ declarationsOf services :=
    List.mem_flatMap.mpr ⟨service, hservice, hmem⟩
  rw [kind?_of_mem h hdeclaration htype] at hkind
  exact hkind.imp Option.some.inj Option.some.inj

/-- The composed fields of an object or interface are the recorded ones outside the protocol. -/
theorem isSome_field?_iff_recorded (h : ofServices services = .ok schema)
    (hkind : schema.kind? type = some .object ∨ schema.kind? type = some .interface) :
    (schema.field? type field).isSome = true ↔ isInternalName field = false ∧
      ∃ service ∈ services, service.shape.Records type field := by
  rw [isSome_field?_iff h]
  constructor
  · rintro ⟨htype, hfield, declaration, hmem, hname, hdefinition⟩
    obtain ⟨service, hservice, hdeclaration⟩ := List.mem_flatMap.mp hmem
    have hkeeps : FieldTable.keeps type field = true := by simp [FieldTable.keeps, hfield]
    refine ⟨hfield, service, hservice, ?_⟩
    rw [service.shaped, ServiceShape.records_ofSchema_iff (kind_of_mem h hkind htype hservice)]
    exact ⟨htype, hkeeps, declaration, hdeclaration, hname, hdefinition⟩
  · rintro ⟨hfield, service, hservice, hrecords⟩
    rw [service.shaped] at hrecords
    have htype := (ServiceShape.keeps_of_records hrecords).1
    obtain ⟨_, _, declaration, hmem, hname, hdefinition⟩ :=
      (ServiceShape.records_ofSchema_iff (kind_of_mem h hkind htype hservice)).mp hrecords
    have hdeclaration := List.mem_flatMap.mpr ⟨service, hservice, hmem⟩
    exact ⟨htype, hfield, declaration, hdeclaration, hname, hdefinition⟩

/-- The composed fields of an object or interface are the recorded ones outside the protocol, and of a root type
all recorded ones are. A field that a service can be asked for is found by pruning for that service if and only
if it is outside the protocol. -/
theorem composed_iff_recorded (h : ofServices services = .ok schema)
    (hkind : schema.kind? type = some .object ∨ schema.kind? type = some .interface) :
    ((schema.field? type field).isSome = true ↔ isInternalName field = false ∧
      ∃ service ∈ services, service.shape.Records type field) ∧
    (isRootType type = true → ∀ service ∈ services, service.shape.Records type field →
      isInternalName field = false) ∧
    ∀ pruner : Pruner, pruner.Over services schema →
      pruner.service.shape.canSelect type field = true →
        (pruner.Finds type field ↔ isInternalName field = false) := by
  have hcomposed := @isSome_field?_iff_recorded services schema type field h hkind
  refine ⟨hcomposed, ?_, ?_⟩
  · intro hroot service hservice hrecords
    rw [service.shaped] at hrecords
    have hkeeps := (ServiceShape.keeps_of_records hrecords).2
    rwa [FieldTable.keeps, hroot, Bool.not_true, Bool.false_or, Bool.not_eq_true'] at hkeeps
  · intro pruner hover hselect
    rw [Pruner.finds_iff, hover.isSome_field? (plain_ofServices h), hcomposed]
    exact and_iff_left ⟨_, hover.asked, ServiceShape.records_of_canSelect hselect⟩

/-- The service of reviews mentions the key of users, and pruning finds it there. -/
theorem composed_userId : (Sample.pruner Sample.reviews).Finds "User" "id" ∧
    ∃ schema, ofServices Sample.services = .ok schema ∧ schema.kind? "User" = some .object ∧
      (Sample.pruner Sample.reviews).Over Sample.services schema ∧
      (schema.field? "User" "id").isSome = true := by
  obtain ⟨config, _, hbuilt⟩ := Sample.federates.built
  obtain ⟨topology, htopology, _, hschema, _⟩ := Gateway.ofServices_eq_ok hbuilt
  have hdeclaration : (⟨false, .object, "User", Sample.keyedById,
      [⟨"id", .nonNull (.named "ID"), []⟩, ⟨"name", .named "String", []⟩]⟩ : TypeDeclaration) ∈
        declarationsOf Sample.services :=
    List.mem_flatMap.mpr ⟨Sample.users, by simp [Sample.services], List.mem_cons_self⟩
  have hkind : topology.schema.kind? "User" = some .object :=
    kind?_of_mem hschema hdeclaration (by decide)
  have hover : (Sample.pruner Sample.reviews).Over Sample.services topology.schema :=
    ⟨List.mem_cons_self, .inr ⟨topology, rfl, congrArg Topology.schema htopology⟩⟩
  obtain ⟨hcomposed, _, hfound⟩ :=
    @composed_iff_recorded _ _ "User" "id" hschema (.inl hkind)
  have hselect : Sample.reviews.shape.canSelect "User" "id" = true := by decide +kernel
  have hfinds : (Sample.pruner Sample.reviews).Finds "User" "id" :=
    (hfound _ hover hselect).mpr (by decide)
  have hrecords : ∃ service ∈ Sample.services, service.shape.Records "User" "id" :=
    ⟨Sample.reviews, List.mem_cons_self, ServiceShape.records_of_canSelect hselect⟩
  exact ⟨hfinds, topology.schema, hschema, hkind, hover,
    hcomposed.mpr ⟨by decide, hrecords⟩⟩

end Schema

namespace Sample

/-- Users that are known by a field of the protocol, and have friends in another one. -/
def friendsSchema : SchemaDocument :=
  [⟨false, .object, "Query", [], [⟨"me", .named "User", []⟩]⟩,
    ⟨false, .object, "User", [⟨"key", [("fields", .string "_id")]⟩],
      [⟨"_id", .nonNull (.named "ID"), []⟩, ⟨"_friend", .named "User", []⟩,
        ⟨"name", .named "String", []⟩]⟩]

def friends : Service where
  config := .ofAddress "friends" ""
  sdl := "type Query \x7b me: User \x7d type User @key(fields: \"_id\") \x7b _id: ID! _friend: User name: String \x7d"
  schema := friendsSchema
  shape := .ofSchema friendsSchema
  parsed := by decide +kernel
  shaped := rfl

end Sample

/-- The service can be asked for the friend of a user and for its key, but the composed schema has neither of
them. So pruning the friend fails, and the key is not completed. -/
theorem recorded_only : ∃ schema, Schema.ofServices [Sample.friends] = .ok schema ∧
    schema.kind? "User" = some .object ∧
    (∀ field ∈ ["_id", "_friend"], Sample.friends.shape.canSelect "User" field = true ∧
      Sample.friends.shape.Records "User" field ∧ schema.field? "User" field = none) ∧
    ∀ pruner : Pruner, pruner.Over [Sample.friends] schema →
      pruner.prune "User" [.field (.bare "_friend") [.bare "name"]] =
        .error (.unknownField "User" "_friend") ∧ pruner.completes "User" "_id" = false := by
  have hbuilt : ∃ schema, Schema.ofServices [Sample.friends] = .ok schema := ⟨_, rfl⟩
  obtain ⟨schema, hschema⟩ := hbuilt
  have hkind : schema.kind? "User" = some .object := by
    cases hschema
    decide +kernel
  have howns : ∀ field ∈ ["_id", "_friend"], Sample.friends.shape.owns "User" field = true := by
    decide +kernel
  have hmissing : ∀ field ∈ ["_id", "_friend"], schema.field? "User" field = none := by
    intro field hmem
    have hinternal : isInternalName field = true := by
      revert field
      decide
    rw [← Option.not_isSome_iff_eq_none, Schema.isSome_field?_iff hschema]
    rintro ⟨_, hvisible, _⟩
    cases hinternal.symm.trans hvisible
  refine ⟨schema, hschema, hkind, ?_, ?_⟩
  · intro field hmem
    have hselect : Sample.friends.shape.canSelect "User" field = true := by
      rw [ServiceShape.canSelect, howns field hmem]
      rfl
    exact ⟨hselect, ServiceShape.records_of_canSelect hselect, hmissing field hmem⟩
  · intro pruner hover
    have hservice : pruner.service = Sample.friends := List.mem_singleton.mp hover.asked
    have hunknown : ∀ field ∈ ["_id", "_friend"], pruner.schema.field? "User" field = none := by
      intro field hmem
      have hsame := hover.isSome_field? (Schema.plain_ofServices hschema) "User" field
      rw [hmissing field hmem] at hsame
      simpa using hsame
    constructor
    · have hselect : pruner.service.shape.canSelect "User" "_friend" = true := by
        rw [ServiceShape.canSelect, hservice, howns "_friend" (by simp)]
        rfl
      have hreturn : pruner.returnType "User" "_friend" = .error (.unknownField "User" "_friend") := by
        rw [Pruner.returnType, hunknown "_friend" (by simp)]
      simp [Pruner.prune, Pruner.pruneSelections, Pruner.pruneSelection, FieldHead.bare, typenameField,
        hselect, hreturn, bind, Except.bind]
    · rw [Pruner.completes, hunknown "_id" (by simp), Bool.and_false]

end Supergraph
