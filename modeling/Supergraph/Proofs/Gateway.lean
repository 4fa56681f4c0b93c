import Mathlib.Data.List.Nodup
import Supergraph.Gateway
import Supergraph.Proofs.Ownership
import Supergraph.Proofs.Wiring

/-!
A gateway over services of distinct names that may not claim what another one has.

Wiring looks at the owner of a type, pruning at the one service that is asked. `canSelect_iff_inReach` says
where the two agree on a field that wiring left to be read from its parent: at the owner of the type, and
elsewhere only if the service adds the field itself or has it in a key.

`Sample` is a small federation: one service has reviews and mentions their authors by a key, the other has
the users that the authors are.
-/

namespace Supergraph

open GraphQL

/-! ## Services by name -/

theorem Service.eq_of_name_eq {services : List Service} (hdistinct : (services.map Service.name).Nodup)
    {service other : Service} (hservice : service ∈ services) (hother : other ∈ services)
    (hname : service.name = other.name) : service = other :=
  List.inj_on_of_nodup_map hdistinct hservice hother hname

/-- A registry of services of distinct names finds each of them, and nothing else. -/
theorem Registry.find?_eq_some_iff {services : List Service}
    (hdistinct : (services.map Service.name).Nodup) {name : String} {service : Service} :
    Registry.find? ⟨services⟩ name = some service ↔ service ∈ services ∧ service.name = name := by
  have hreverse : (services.reverse.map Service.name).Nodup := by
    rwa [List.map_reverse, List.nodup_reverse]
  rw [find?, find?_eq_some_iff_of_nodup Service.name hreverse, List.mem_reverse]

theorem Registry.find?_perm {services others : List Service} (hperm : services.Perm others)
    (hdistinct : (services.map Service.name).Nodup) (name : String) :
    Registry.find? ⟨services⟩ name = Registry.find? ⟨others⟩ name := by
  have hothers : (others.map Service.name).Nodup := (hperm.map Service.name).nodup_iff.mp hdistinct
  apply Option.ext
  intro service
  rw [find?_eq_some_iff hdistinct, find?_eq_some_iff hothers, hperm.mem_iff]

namespace Gateway

variable {gateway : Gateway} {services : List Service} {service : Service} {type owner field : String}

/-- The gateway is built from services of distinct names, none of which may claim what another has. -/
structure Federates (gateway : Gateway) (services : List Service) : Prop where
  distinct : (services.map Service.name).Nodup
  built : ∃ config : GatewayConfig, config.collisions = .failFast ∧
    Gateway.ofServices config Schema.ofServices services = .ok gateway

section Assembling

variable {σ : Type} {config : GatewayConfig} {composer : Composer σ} {state : σ} {compose : CompositionRule}

theorem assemble_of_conflict {error : OwnershipError}
    (h : Ownership.ofServices config.collisions services = .error error) :
    assemble config composer services state = (.error (.ownership error), state) := by
  rw [assemble, h]

/-- Once ownership is settled, the composer is asked about the services and decides. -/
theorem assemble_of_owned {index : Ownership}
    (h : Ownership.ofServices config.collisions services = .ok index) :
    assemble config composer services state =
      (((composer services state).1.mapError .composition).map (ofParts config services index),
        (composer services state).2) := by
  rw [assemble, h]
  cases composer services state with
  | mk composed next => cases composed <;> rfl

/-- What a gateway is built of: the ownership and the composition of its services, wired. -/
theorem ofServices_eq (h : Gateway.ofServices config compose services = .ok gateway) :
    ∃ topology : Topology,
      gateway = ⟨config, { topology with schema := topology.wiredSchema }, topology.wiring⟩ ∧
      topology.registry = ⟨services⟩ ∧ compose services = .ok topology.schema ∧
      Ownership.ofServices config.collisions services = .ok topology.index := by
  rw [Gateway.ofServices] at h
  cases hindex : Ownership.ofServices config.collisions services with
  | error error =>
    rw [assemble_of_conflict hindex] at h
    cases h
  | ok index =>
    rw [assemble_of_owned hindex, CompositionRule.composer] at h
    cases hschema : compose services with
    | error error =>
      rw [hschema] at h
      cases h
    | ok schema =>
      rw [hschema] at h
      cases h
      exact ⟨⟨schema, index, ⟨services⟩⟩, rfl, rfl, rfl, rfl⟩

theorem ofServices_eq_ok (h : Gateway.ofServices config compose services = .ok gateway) :
    ∃ topology : Topology, gateway.topology = { topology with schema := topology.wiredSchema } ∧
      topology.registry = ⟨services⟩ ∧ compose services = .ok topology.schema ∧
      Ownership.ofServices config.collisions services = .ok topology.index := by
  obtain ⟨topology, rfl, hparts⟩ := ofServices_eq h
  exact ⟨topology, rfl, hparts⟩

theorem assemble_isOk_iff : (∃ gateway, (assemble config composer services state).1 = .ok gateway) ↔
    (∃ index, Ownership.ofServices config.collisions services = .ok index) ∧
      ∃ schema, (composer services state).1 = .ok schema := by
  cases hindex : Ownership.ofServices config.collisions services with
  | error error => simp [assemble_of_conflict hindex]
  | ok index =>
    rw [assemble_of_owned hindex]
    cases (composer services state).1 <;> simp [Except.mapError, Except.map]

theorem ofServices_isOk_iff : (∃ gateway, Gateway.ofServices config compose services = .ok gateway) ↔
    (∃ index, Ownership.ofServices config.collisions services = .ok index) ∧
      ∃ schema, compose services = .ok schema := assemble_isOk_iff

end Assembling

theorem Federates.topology_eq (h : gateway.Federates services) :
    ∃ topology : Topology, gateway.topology = { topology with schema := topology.wiredSchema } ∧
      topology.registry = ⟨services⟩ ∧ topology.schema.Plain ∧
      Ownership.ofServices .failFast services = .ok topology.index := by
  obtain ⟨config, hcollisions, hbuilt⟩ := h.built
  obtain ⟨topology, htopology, hregistry, hschema, hindex⟩ := ofServices_eq_ok hbuilt
  rw [hcollisions] at hindex
  exact ⟨topology, htopology, hregistry, Schema.plain_ofServices hschema, hindex⟩

structure OwnedObject (gateway : Gateway) (type owner : String) : Prop where
  object : (gateway.topology.schema.type? type).map SchemaType.kind = some .object
  owned : gateway.topology.index.ownerOf? type = some owner

/-- A field of a type that is read from its parent: it is part of the composed schema, and wiring left it
without a delegation. -/
structure ReadFromParent (gateway : Gateway) (type field : String) : Prop where
  composed : (gateway.topology.schema.field? type field).isSome = true
  undelegated : gateway.topology.schema.delegation? type field = none

theorem Federates.not_internal (h : gateway.Federates services)
    (hcomposed : (gateway.topology.schema.field? type field).isSome = true) :
    isInternalName field = false := by
  obtain ⟨topology, htopology, _, hplain, _⟩ := h.topology_eq
  rw [htopology] at hcomposed
  have hcomposed := (Topology.isSome_field?_wiredSchema hplain type field).symm.trans hcomposed
  obtain ⟨composed, hfind⟩ := Option.isSome_iff_exists.mp hcomposed
  obtain ⟨composedType, htype, hmem, hname⟩ := Schema.field?_eq_some hfind
  rw [← hname]
  exact ((hplain type composedType htype).2 composed hmem).1

/-- A service is in reach of a field of a type: it owns the type and the field is there at all, or it adds
the field to the type, or it answers the field as part of a key. -/
def InReach (services : List Service) (owner : String) (service : Service) (type field : String) :
    Prop :=
  service.name = owner ∧ (∃ other ∈ services, other.shape.owns type field = true ∨
      other.shape.contributes type field = true) ∨
    service.shape.contributes type field = true ∨ service.shape.servesKey type field = true

/-- A service that defines a field of an owned type is the owner. -/
theorem Federates.name_eq_owner (h : gateway.Federates services)
    (howned : gateway.topology.index.ownerOf? type = some owner) (hmem : service ∈ services)
    (howns : service.shape.owns type field = true) : service.name = owner := by
  obtain ⟨topology, htopology, _, _, hindex⟩ := h.topology_eq
  rw [htopology] at howned
  have hroot := ((Ownership.ownerOf?_eq_some_iff hindex type owner).mp howned).1
  have hown := (Ownership.ownerOf?_eq_some_iff hindex type service.name).mpr
    ⟨hroot, service, hmem, Ownership.contains_of_has howns, rfl⟩
  exact Option.some.inj (hown.symm.trans howned)

/-- Wiring would send a field that is read from its parent nowhere but to the owner of its type. -/
theorem Federates.crossing?_eq_some (h : gateway.Federates services)
    (hobject : gateway.OwnedObject type owner) (hfield : gateway.ReadFromParent type field) :
    ∃ topology : Topology, topology.registry = ⟨services⟩ ∧
      Ownership.ofServices .failFast services = .ok topology.index ∧
      ∃ composed : SchemaField, composed.name = field ∧ ∀ delegation,
        topology.crossing? owner type composed = some delegation → delegation.service = owner := by
  obtain ⟨topology, htopology, hregistry, hplain, hindex⟩ := h.topology_eq
  -- Kinds and fields are those of the schema before wiring, so that its lemmas apply.
  obtain ⟨hkind, howned⟩ := hobject
  obtain ⟨hcomposed, hundelegated⟩ := hfield
  rw [htopology] at hkind howned hcomposed hundelegated
  have hobject := (topology.kind?_wiredSchema type).symm.trans hkind
  have hcomposed := (Topology.isSome_field?_wiredSchema hplain type field).symm.trans hcomposed
  obtain ⟨composed, hfind⟩ := Option.isSome_iff_exists.mp hcomposed
  obtain ⟨_, _, _, hname⟩ := Schema.field?_eq_some hfind
  have hnone := (Topology.delegation?_wiredSchema hplain type field).symm.trans hundelegated
  rw [Topology.delegationOf?, if_pos hobject, hfind, Option.bind_some] at hnone
  have hroot := ((Ownership.ownerOf?_eq_some_iff hindex type owner).mp howned).1
  rw [isRootType, decide_eq_false_iff_not, not_or, not_or] at hroot
  obtain ⟨hquery, hmutation, hsubscription⟩ := hroot
  refine ⟨topology, hregistry, hindex, composed, hname, ?_⟩
  intro delegation hcrossing
  -- A crossing that leaves the owner would have been wired.
  by_contra hne
  simp [Topology.delegationFor?, hquery, hmutation, hsubscription, howned, hcrossing, guard, hne] at hnone

/-- A service can be asked for a field that is read from its parent if and only if it is in reach of it. -/
theorem Federates.canSelect_iff_inReach (h : gateway.Federates services) (hmem : service ∈ services)
    (hobject : gateway.OwnedObject type owner) (hfield : gateway.ReadFromParent type field) :
    service.shape.canSelect type field = true ↔ InReach services owner service type field := by
  rw [ServiceShape.canSelect, Bool.or_eq_true, Bool.or_eq_true, or_assoc]
  refine ⟨?_, ?_⟩
  · intro hcan
    rcases hcan with howns | hrest
    · exact .inl ⟨h.name_eq_owner hobject.owned hmem howns, service, hmem, .inl howns⟩
    · exact .inr hrest
  · intro hreach
    rcases hreach with ⟨hname, other, hother, howns | hcontributes⟩ | hrest
    · have hsame := h.name_eq_owner hobject.owned hother howns
      rw [Service.eq_of_name_eq h.distinct hmem hother (hname.trans hsame.symm)]
      exact .inl howns
    · -- Another service adds the field, so the owner defines it, or else wiring would send it there.
      obtain ⟨topology, hregistry, hindex, composed, hcomposed, hcrossing⟩ :=
        h.crossing?_eq_some hobject hfield
      by_cases hdeclares : topology.ownerDeclares owner type field = true
      · have hfind := (Registry.find?_eq_some_iff h.distinct).mpr ⟨hmem, rfl⟩
        rw [Topology.ownerDeclares, hregistry, ← hname, hfind] at hdeclares
        exact .inl hdeclares
      · have hcontributor := (Ownership.contributorOf?_eq_some_iff hindex type field other.name).mpr
          ⟨other, hother, hcontributes, rfl⟩
        have hsame := hcrossing ⟨.fieldResolver, other.name⟩ (by
          simp [Topology.crossing?, hcomposed, hdeclares, hcontributor])
        rw [Service.eq_of_name_eq h.distinct hmem hother (hname.trans hsame.symm)]
        exact .inr (.inl hcontributes)
    · exact .inr hrest

end Gateway

/-! ## Two services -/

namespace Sample

/-- The key that entities of both services have. -/
def keyedById : List Directive := [⟨"key", [("fields", .string "id")]⟩]

def reviewsText : String :=
  "type Query \x7b reviews: [Review] reviewer: User \x7d
  type Review @key(fields: \"id\") \x7b id: ID! body: String author: User \x7d
  extend type User @key(fields: \"id\") \x7b id: ID! @external \x7d"

/-- Reviews, with a stub of the users that wrote them. -/
def reviewsSchema : SchemaDocument :=
  [⟨false, .object, "Query", [],
      [⟨"reviews", .list (.named "Review"), []⟩, ⟨"reviewer", .named "User", []⟩]⟩,
    ⟨false, .object, "Review", keyedById,
      [⟨"id", .nonNull (.named "ID"), []⟩, ⟨"body", .named "String", []⟩,
        ⟨"author", .named "User", []⟩]⟩,
    ⟨true, .object, "User", keyedById, [⟨"id", .nonNull (.named "ID"), [⟨"external", []⟩]⟩]⟩]

def usersText : String := "type User @key(fields: \"id\") \x7b id: ID! name: String \x7d"

def usersSchema : SchemaDocument :=
  [⟨false, .object, "User", keyedById,
    [⟨"id", .nonNull (.named "ID"), []⟩, ⟨"name", .named "String", []⟩]⟩]

/-- The shapes of both schemas are written out, so that reading the keys does not have to be evaluated. -/
def reviewsShape : ServiceShape where
  declared := .ofList
    [("Query", .ofList ["reviews", "reviewer"]), ("Review", .ofList ["id", "body", "author"])]
  contributed := .ofList [("User", .empty)]
  external := .ofList [("User", .ofList ["id"])]
  keys := .ofList [("Review", ["id"]), ("User", ["id"])]

def usersShape : ServiceShape where
  declared := .ofList [("User", .ofList ["id", "name"])]
  contributed := .empty
  external := .empty
  keys := .ofList [("User", ["id"])]

def reviews : Service where
  config := .ofAddress "reviews" ""
  sdl := reviewsText
  schema := reviewsSchema
  shape := reviewsShape
  parsed := by decide +kernel
  shaped := by decide +kernel

def users : Service where
  config := .ofAddress "users" ""
  sdl := usersText
  schema := usersSchema
  shape := usersShape
  parsed := by decide +kernel
  shaped := by decide +kernel

def services : List Service := [reviews, users]

def gateway : Gateway :=
  match Gateway.ofServices (.ofServices []) Schema.ofServices services with
  | .ok gateway => gateway
  | .error _ => ⟨.ofServices [], ⟨.empty, .initial, ⟨[]⟩⟩, []⟩

def topology : Topology := gateway.topology

/-- A query that declares the variables `full`, `representations` and `size`, and has a fragment on users. -/
def client : ClientOperation where
  operation := ⟨.query, none,
    [⟨"size", .named "Int", none⟩, ⟨"representations", .named "Int", none⟩,
      ⟨"full", .nonNull (.named "Boolean"), none⟩], [], []⟩
  fragments := .ofList [("Person", ⟨"Person", "User",
    [⟨"include", [("if", .variable "full")]⟩], [.bare "name"]⟩)]
  values := .ofList [("full", .bool true), ("representations", .int 7)]

def pruner (service : Service) : Pruner := ⟨topology.schema, topology.index, service, client⟩

theorem federates : gateway.Federates services where
  distinct := by decide
  built := by
    refine ⟨.ofServices [], rfl, ?_⟩
    have hok : (Gateway.ofServices (.ofServices []) Schema.ofServices services).isOk = true := by rfl
    obtain ⟨built, hbuilt⟩ := Outcome.exists_of_isOk hok
    rw [gateway, hbuilt]

theorem ownedObject_user : gateway.OwnedObject "User" "users" where
  object := by decide +kernel
  owned := by decide +kernel

theorem readFromParent_name : gateway.ReadFromParent "User" "name" where
  composed := by decide +kernel
  undelegated := by decide +kernel

end Sample

end Supergraph
