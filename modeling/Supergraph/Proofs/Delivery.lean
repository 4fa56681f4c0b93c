import Supergraph.Proofs.Gateway
import Supergraph.Proofs.Pruning.Selecting
import Supergraph.Proofs.Resolution
import Supergraph.Proofs.Synthesis

/-!
Delivery: whether the request that a delegated field takes asks for the fields that are read from its
answer later on.

1. `asked_of_resolve` says which operation a request carries, for each kind of delegation.
2. `Asked.selectsOn_iff` says what that operation selects on the object that the field gives.
3. `Federates.selectsOn_sent_iff` puts them together with what wiring left undelegated: a field that the
   client selects, and that is read from its parent, is asked for if and only if the service is in reach
   of it. `name_lost` is a gateway where a service is not.
-/

namespace Supergraph

open GraphQL

/-- What an operation selects on the object that a delegated field gives, by the kind of delegation. -/
def ServiceOperation.objectLevel (synthesized : ServiceOperation) (kind : DelegationKind) :
    List Selection :=
  match kind, synthesized.operation.selections with
  | .rootDelegate, [.field _ level] => level
  | .entityReference, [.field _ level] => level
  | .fieldResolver, [.field _ [_, .inline _ _ [.field _ level]]] => level
  | _, _ => []

/-- A field stands where its delegation gives objects of a type: a root field at the root of the client's
operation, and a reference at a parent that refers to an object of the type. -/
def FieldSite.Gives (site : FieldSite) (parent : Json) (type : String) : DelegationKind → Prop
  | .rootDelegate => site.parentType = site.client.kind.rootType
  | .entityReference =>
    ∃ stub ∈ site.stubs parent, stub.isNull = false ∧ (typename? stub).getD type = type
  | .fieldResolver => True

/-- The operation for a delegated field that gives objects of a type. -/
inductive Asked (pruner : Pruner) (site : FieldSite) (type : String) :
    DelegationKind → ServiceOperation → Prop
  | root {kind : OperationKind} {synthesized : ServiceOperation} : site.parentType = kind.rootType →
      pruner.askRootField kind site.field = .ok synthesized →
      Asked pruner site type .rootDelegate synthesized
  | references {types : List String} {representations : List Json} {synthesized : ServiceOperation} :
      type ∈ types → pruner.askEntities site.field types representations = .ok synthesized →
      Asked pruner site type .entityReference synthesized
  | contributed {condition : String} {representation : Json} {synthesized : ServiceOperation} :
      pruner.askEntityField site.field site.parentType condition representation = .ok synthesized →
      Asked pruner site type .fieldResolver synthesized

/-! ## From a field to its request -/

theorem mem_concreteTypes {returnType type : String} {items : List Json} :
    type ∈ concreteTypes returnType items ↔
      ∃ item ∈ items, (typename? item).getD returnType = type := by
  rw [concreteTypes, Ownership.mem_foldl_appendNew, List.mem_map]
  simp

section Resolve

variable {topology : Topology} {site : FieldSite} {parent : Json} {service : Service} {name : String}
  {request : Request} {finish : Except TransportError Response → Except ResolutionError Json}
  {type : String}

/-- A reference is resolved by asking for the entities that its parent refers to, on their types. -/
theorem asked_of_resolveEntity
    (hreturn : (topology.schema.field? site.parentType site.fieldName).map SchemaField.returnType =
      some type)
    (hgives : site.Gives parent type .entityReference)
    (h : topology.resolveEntity service site parent = .request name request finish) :
    ∃ synthesized, name = service.name ∧ request = synthesized.toRequest ∧
      Asked (topology.pruner service site) site type .entityReference synthesized := by
  obtain ⟨stub, hstub, hnull, htype⟩ := hgives
  have hpresumed : topology.presumedType site .entityReference = type := by
    rw [Topology.presumedType, hreturn, Option.getD_some]
  obtain ⟨representations, synthesized, _, hasked, hname, hrequest⟩ := resolveEntity_eq_request h
  rw [hpresumed] at hasked
  have hpresent : stub ∈ site.represented parent .entityReference :=
    List.mem_filter.mpr ⟨hstub, by simp [hnull]⟩
  exact ⟨synthesized, hname, hrequest,
    .references (mem_concreteTypes.mpr ⟨stub, hpresent, htype⟩) hasked⟩

theorem asked_of_resolve {delegation : Delegation}
    (hdelegated : topology.schema.delegation? site.parentType site.fieldName = some delegation)
    (hservice : topology.registry.find? delegation.service = some service)
    (hreturn : (topology.schema.field? site.parentType site.fieldName).map SchemaField.returnType =
      some type)
    (hgives : site.Gives parent type delegation.kind)
    (h : topology.resolve site parent = .request name request finish) :
    ∃ synthesized, name = service.name ∧ request = synthesized.toRequest ∧
      Asked (topology.pruner service site) site type delegation.kind synthesized := by
  unfold Topology.resolve at h
  simp only [hdelegated, hservice] at h
  obtain ⟨kind, target⟩ := delegation
  cases kind with
  | rootDelegate =>
    obtain ⟨synthesized, hasked, hname, hrequest⟩ := ofOperation_eq_request h
    exact ⟨synthesized, hname, hrequest, .root hgives hasked⟩
  | entityReference => exact asked_of_resolveEntity hreturn hgives h
  | fieldResolver =>
    obtain ⟨representation, _, h⟩ := after_eq_request h
    obtain ⟨synthesized, hasked, hname, hrequest⟩ := ofOperation_eq_request h
    exact ⟨synthesized, hname, hrequest, .contributed hasked⟩

end Resolve

/-! ## What the operation selects -/

theorem not_selectsOn_nil {fragment? : String → Option Fragment} {type name key : String} :
    ¬ SelectsOn fragment? type name key [] := by
  intro h
  cases h with
  | field hmem => cases hmem
  | inline hmem => cases hmem
  | spread hmem => cases hmem

namespace Pruner

variable {pruner : Pruner} {type name key : String} {field : Field}

/-- A delegated field with sub-selections, of which those on its return type are at issue. -/
theorem exists_level_of_pruneField {parentType : String} {delegated : Field}
    (hreturn : (pruner.schema.field? parentType field.name).map SchemaField.returnType = some type)
    (hclient : SelectsOn pruner.client.fragment? type name key field.selections)
    (h : pruner.pruneField parentType field = .ok delegated) :
    ∃ level, delegated.toSelection = .field field.head level ∧ Exact pruner type field.selections level := by
  obtain ⟨hnil, _⟩ | ⟨_, composed, level, hcomposed, hlevel, rfl⟩ := pruneField_eq_ok h
  · rw [hnil] at hclient
    exact absurd hclient not_selectsOn_nil
  · rw [hcomposed, Option.map_some, Option.some.injEq] at hreturn
    subst hreturn
    exact ⟨level, rfl, exact_of_prune hlevel⟩

theorem Closure.selectsOn_choices_iff {types : List String} {choices : List Selection}
    {entered : List (String × Fragment)}
    (h : Closure pruner (.bare typenameField :: choices) entered) (hkeyed : pruner.client.Keyed)
    (hname : name ≠ typenameField)
    (hchoices : List.Forall₂ (fun type choice => ∃ level,
      pruner.prune type field.selections = .ok level ∧ choice = .inline (some type) [] level)
      types choices) (htype : type ∈ types)
    (hclient : SelectsOn pruner.client.fragment? type name key field.selections) :
    SelectsOn (fragmentNamed (entered.map Prod.snd)) type name key (.bare typenameField :: choices) ↔
      pruner.service.shape.canSelect type name = true := by
  -- Beside `__typename` there is one inline fragment for each type, and nothing else.
  have hinline : ∀ choice ∈ choices, ∃ type level, choice = .inline (some type) [] level ∧
      Exact pruner type field.selections level := by
    intro choice hmem
    obtain ⟨type, _, level, hlevel, heq⟩ := exists_related hchoices hmem
    exact ⟨type, level, heq, exact_of_prune hlevel⟩
  refine ⟨?_, ?_⟩
  · intro hselects
    cases hselects with
    | field hmem hfield _ =>
      rcases List.mem_cons.mp hmem with heq | hmem
      · cases heq
        exact absurd hfield.symm hname
      · obtain ⟨_, _, heq, _⟩ := hinline _ hmem
        cases heq
    | inline hmem hcondition hinner =>
      rcases List.mem_cons.mp hmem with heq | hmem
      · cases heq
      · obtain ⟨condition, level, heq, hexact⟩ := hinline _ hmem
        cases heq
        rw [Option.getD_some] at hcondition
        subst hcondition
        exact h.canSelect_of_selectsOn hkeyed hname hinner hexact
    | spread hmem =>
      rcases List.mem_cons.mp hmem with heq | hmem
      · cases heq
      · obtain ⟨_, _, heq, _⟩ := hinline _ hmem
        cases heq
  · intro hcan
    obtain ⟨choice, hmem, level, hlevel, rfl⟩ := exists_related hchoices.flip htype
    have hin := List.mem_cons_of_mem (Selection.bare typenameField) hmem
    refine .inline hin rfl ((h.selectsOn_iff hkeyed hname (exact_of_prune hlevel) ?_ hclient).mpr hcan)
    intro spread hspread
    exact Selection.mem_spreadsOf.mpr ⟨_, hin, hspread⟩

end Pruner

/-- The operation for a delegated field selects what the client selects on the objects that the field
gives, if and only if the service can be asked for it. -/
theorem Asked.selectsOn_iff {pruner : Pruner} {site : FieldSite} {type name key : String}
    {kind : DelegationKind} {synthesized : ServiceOperation}
    (h : Asked pruner site type kind synthesized) (hkeyed : pruner.client.Keyed)
    (hreturn : (pruner.schema.field? site.parentType site.fieldName).map SchemaField.returnType =
      some type)
    (hname : name ≠ typenameField)
    (hclient : SelectsOn pruner.client.fragment? type name key site.field.selections) :
    SelectsOn (fragmentNamed synthesized.fragments) type name key (synthesized.objectLevel kind) ↔
      pruner.service.shape.canSelect type name = true := by
  cases h with
  | root hroot hasked =>
    obtain ⟨delegated, fragments, _, _, hdelegated, hclosure, _, rfl⟩ := Pruner.askRootField_eq_ok hasked
    rw [← hroot] at hdelegated
    obtain ⟨level, hlevel, hexact⟩ := Pruner.exists_level_of_pruneField hreturn hclient hdelegated
    obtain ⟨entered, rfl, closure⟩ := Pruner.fragmentClosure_eq_ok hclosure
    simp only [ServiceOperation.objectLevel, hlevel]
    apply closure.selectsOn_iff hkeyed hname hexact _ hclient
    intro spread hspread
    rw [hlevel]
    exact Selection.mem_spreadsOf.mpr ⟨_, List.mem_singleton_self _, hspread⟩
  | references htype hasked =>
    obtain ⟨choices, hchoices, hasked⟩ := Pruner.askEntities_eq_ok hasked
    obtain ⟨fragments, _, _, hclosure, _, _, rfl⟩ := Pruner.askRepresentations_eq_ok hasked
    obtain ⟨entered, rfl, closure⟩ := Pruner.fragmentClosure_eq_ok hclosure
    exact closure.selectsOn_choices_iff hkeyed hname hchoices htype hclient
  | contributed hasked =>
    obtain ⟨delegated, hdelegated, hasked⟩ := Pruner.askEntityField_eq_ok hasked
    obtain ⟨level, hlevel, hexact⟩ := Pruner.exists_level_of_pruneField hreturn hclient hdelegated
    obtain ⟨fragments, _, _, hclosure, _, _, rfl⟩ := Pruner.askRepresentations_eq_ok hasked
    obtain ⟨entered, rfl, closure⟩ := Pruner.fragmentClosure_eq_ok hclosure
    simp only [ServiceOperation.objectLevel, hlevel]
    apply closure.selectsOn_iff hkeyed hname hexact _ hclient
    intro spread hspread
    rw [hlevel]
    -- The level stands in the field, and the field in the fragment on the entity.
    refine Selection.mem_spreadsOf.mpr ⟨_, List.mem_cons_of_mem _ (List.mem_singleton_self _), ?_⟩
    exact Selection.mem_spreadsOf.mpr ⟨_, List.mem_singleton_self _, hspread⟩

/-! ## What the request brings back -/

namespace Gateway

/-- A field that the client selects below a delegated field, and that is read from the answer later on, is
asked for under the same response key if and only if the service is in reach of it. -/
theorem Federates.selectsOn_sent_iff {gateway : Gateway} {services : List Service}
    (h : gateway.Federates services) {site : FieldSite} {parent : Json} {delegation : Delegation}
    {service : Service} {type owner name key : String}
    (hdelegated : gateway.topology.schema.delegation? site.parentType site.fieldName = some delegation)
    (hmem : service ∈ services) (hservice : service.name = delegation.service)
    (hreturn : (gateway.topology.schema.field? site.parentType site.fieldName).map
      SchemaField.returnType = some type)
    (hobject : gateway.OwnedObject type owner) (hread : gateway.ReadFromParent type name)
    {document : Document} {operation : Option String} {values : NameMap Json}
    (hdocument : ClientOperation.ofDocument document operation values = .ok site.client)
    (hgives : site.Gives parent type delegation.kind)
    (hclient : SelectsOn site.client.fragment? type name key site.field.selections)
    {target : String} {request : Request}
    {finish : Except TransportError Response → Except ResolutionError Json}
    (hsent : gateway.topology.resolve site parent = .request target request finish) :
    ∃ synthesized : ServiceOperation, target = service.name ∧ request = synthesized.toRequest ∧
      (SelectsOn (fragmentNamed synthesized.fragments) type name key
          (synthesized.objectLevel delegation.kind) ↔
        InReach services owner service type name) := by
  obtain ⟨topology, htopology, hregistry, _⟩ := h.topology_eq
  have hfind : gateway.topology.registry.find? delegation.service = some service := by
    rw [htopology, hregistry, ← hservice]
    exact (Registry.find?_eq_some_iff h.distinct).mpr ⟨hmem, rfl⟩
  -- `__typename` is no field of the composed schema, and pruning treats it apart.
  have hname : name ≠ typenameField := by
    intro heq
    subst heq
    exact absurd (h.not_internal hread.composed) (by decide)
  obtain ⟨synthesized, htarget, hrequest, hasked⟩ :=
    asked_of_resolve hdelegated hfind hreturn hgives hsent
  refine ⟨synthesized, htarget, hrequest, ?_⟩
  have hkeyed := ClientOperation.keyed_of_ofDocument hdocument
  rw [hasked.selectsOn_iff hkeyed hreturn hname hclient]
  exact h.canSelect_iff_inReach hmem hobject hread

end Gateway

def nameBelow (field : String) : Document := [.shorthand [.field (.bare field) [.bare "name"]]]

def siteBelow (parentType field : String) : FieldSite where
  parentType
  field := ⟨.bare field, [.bare "name"]⟩
  client := ⟨⟨.query, none, [], [], [.field (.bare field) [.bare "name"]]⟩, .empty, .empty⟩

theorem ofDocument_nameBelow (parentType field : String) :
    ClientOperation.ofDocument (nameBelow field) none .empty = .ok (siteBelow parentType field).client :=
  rfl

theorem selectsOn_siteBelow (parentType field type : String) :
    SelectsOn (siteBelow parentType field).client.fragment? type "name" "name"
      (siteBelow parentType field).field.selections := by
  have hmem : .field (.bare "name") [] ∈ (siteBelow parentType field).field.selections :=
    List.mem_singleton_self _
  exact .field hmem rfl rfl

/-- The author of a review is a reference to the service of users, which has the name. -/
theorem name_sent :
    Sample.gateway.topology.schema.delegation? "Review" "author" = some ⟨.entityReference, "users"⟩ ∧
    ∃ target request finish synthesized,
      Sample.gateway.topology.resolve (siteBelow "Review" "author")
        (.object [("author", .object [("id", .string "1")])]) = .request target request finish ∧
      target = "users" ∧ request = ServiceOperation.toRequest synthesized ∧
      SelectsOn (fragmentNamed synthesized.fragments) "User" "name" "name"
        (synthesized.objectLevel .entityReference) := by
  have hsent : ∃ target request finish, Sample.gateway.topology.resolve (siteBelow "Review" "author")
      (.object [("author", .object [("id", .string "1")])]) = .request target request finish :=
    ⟨_, _, _, rfl⟩
  obtain ⟨target, request, finish, hsent⟩ := hsent
  have hdelegated : Sample.gateway.topology.schema.delegation? "Review" "author" =
      some ⟨.entityReference, "users"⟩ := by decide +kernel
  have hreturn : (Sample.gateway.topology.schema.field? "Review" "author").map
      SchemaField.returnType = some "User" := by decide +kernel
  have hmem : Sample.users ∈ Sample.services := List.mem_cons_of_mem _ (List.mem_singleton_self _)
  have hgives : (siteBelow "Review" "author").Gives
      (.object [("author", .object [("id", .string "1")])]) "User" .entityReference :=
    ⟨_, List.mem_singleton_self _, rfl, rfl⟩
  obtain ⟨synthesized, htarget, hrequest, hiff⟩ := Sample.federates.selectsOn_sent_iff hdelegated hmem
    rfl hreturn Sample.ownedObject_user Sample.readFromParent_name (ofDocument_nameBelow "Review" "author")
    hgives (selectsOn_siteBelow "Review" "author" "User") hsent
  have hreach : Gateway.InReach Sample.services "users" Sample.users "User" "name" :=
    .inl ⟨rfl, Sample.users, hmem, .inl (by decide +kernel)⟩
  exact ⟨hdelegated, target, request, finish, synthesized, hsent, htarget, hrequest,
    hiff.mpr hreach⟩

/-- The reviewer is a user that the service of reviews hands out. It has no more than the key, so the
name that the client selects is not asked for, nor from anyone else later on. -/
theorem name_lost :
    Sample.gateway.Federates Sample.services ∧
    Sample.gateway.topology.schema.delegation? "Query" "reviewer" = some ⟨.rootDelegate, "reviews"⟩ ∧
    (Sample.gateway.topology.schema.field? "Query" "reviewer").map SchemaField.returnType =
      some "User" ∧
    Sample.gateway.OwnedObject "User" "users" ∧ Sample.gateway.ReadFromParent "User" "name" ∧
    ClientOperation.ofDocument (nameBelow "reviewer") none .empty =
      .ok (siteBelow "Query" "reviewer").client ∧
    (siteBelow "Query" "reviewer").Gives .null "User" .rootDelegate ∧
    SelectsOn (siteBelow "Query" "reviewer").client.fragment? "User" "name" "name"
      (siteBelow "Query" "reviewer").field.selections ∧
    ∃ finish, ∃ synthesized : ServiceOperation,
      Sample.gateway.topology.resolve (siteBelow "Query" "reviewer") .null =
        .request "reviews" synthesized.toRequest finish ∧
      ¬ SelectsOn (fragmentNamed synthesized.fragments) "User" "name" "name"
        (synthesized.objectLevel .rootDelegate) := by
  have hdelegated : Sample.gateway.topology.schema.delegation? "Query" "reviewer" =
      some ⟨.rootDelegate, "reviews"⟩ := by decide +kernel
  have hreturn : (Sample.gateway.topology.schema.field? "Query" "reviewer").map
      SchemaField.returnType = some "User" := by decide +kernel
  have hsent : ∃ finish, Sample.gateway.topology.resolve (siteBelow "Query" "reviewer") .null =
      .request "reviews" (ServiceOperation.toRequest ⟨⟨.query, some "Query_reviewer", [], [],
        [.field (.bare "reviewer") [.bare "id", .bare "__typename"]]⟩, [], .empty⟩) finish := ⟨_, rfl⟩
  obtain ⟨finish, hsent⟩ := hsent
  refine ⟨Sample.federates, hdelegated, hreturn, Sample.ownedObject_user,
    Sample.readFromParent_name, ofDocument_nameBelow "Query" "reviewer", rfl,
    selectsOn_siteBelow "Query" "reviewer" "User", finish, _, hsent, ?_⟩
  intro hselects
  simp only [ServiceOperation.objectLevel] at hselects
  cases hselects with
  | field hmem hname _ =>
    simp only [Selection.bare, List.mem_cons, Selection.field.injEq, List.not_mem_nil, or_false] at hmem
    rcases hmem with ⟨rfl, _⟩ | ⟨rfl, _⟩
    · exact absurd hname (by decide)
    · exact absurd hname (by decide)
  | inline hmem => simp [Selection.bare] at hmem
  | spread hmem => simp [Selection.bare] at hmem

end Supergraph
