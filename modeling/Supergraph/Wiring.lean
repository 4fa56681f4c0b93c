import Supergraph.Ownership
import Supergraph.Schema

/-!
Wiring: which fields of the composed schema cross from one service to another, and where they go.

A field of `Query` or `Mutation` goes to the service that declares it. A field of another object
whose owner declares it goes to the owner of the type it returns; a field that the owner does not
declare goes to the service that adds it. A field that would go to the owner of its own type stays.

Correspondence (gateway ↔ Lean):
  `Dispatcher.wire`                               ↔ `Topology.wiring`, `wiredSchema`
  `WiredField`                                    ↔ `Crossing`
  `classify`                                      ↔ `delegationFor?`
  `classify`, the arm for `Query` and `Mutation`  ↔ `rootDelegation?`
  `classify`, the other arm but for its last test ↔ `crossing?`
-/

namespace Supergraph

open GraphQL

/-- A field with the delegation that wiring gave it. -/
structure Crossing where
  type : String
  field : String
  delegation : Delegation
  deriving DecidableEq, Repr

/-- What decides about wiring: the schema, the ownership of its types, and the services. -/
structure Topology where
  schema : Schema
  index : Ownership
  registry : Registry

namespace Topology

/-- Whether the owner of a type declares the field itself. -/
def ownerDeclares (topology : Topology) (owner type field : String) : Bool :=
  match topology.registry.find? owner with
  | some service => service.shape.owns type field
  | none => false

def rootDelegation? (topology : Topology) (type : String) (field : SchemaField) :
    Option Delegation := do
  let target ← topology.index.rootFieldOwner? type field.name <|>
    topology.index.ownerOf? field.returnType
  return ⟨.rootDelegate, target⟩

/-- The delegation of a field of an object that is no root, before the check that it leaves the
owner. -/
def crossing? (topology : Topology) (owner type : String) (field : SchemaField) :
    Option Delegation := do
  if topology.ownerDeclares owner type field.name then
    guard (!topology.schema.isLeaf field.returnType)
    return ⟨.entityReference, ← topology.index.ownerOf? field.returnType⟩
  else
    let target ← topology.index.contributorOf? type field.name <|>
      topology.index.ownerOf? field.returnType
    return ⟨.fieldResolver, target⟩

/-- The delegation that a field of an object needs. -/
def delegationFor? (topology : Topology) (type : String) (field : SchemaField) :
    Option Delegation :=
  if type = "Subscription" then none
  else if type = "Query" ∨ type = "Mutation" then topology.rootDelegation? type field
  else do
    let owner ← topology.index.ownerOf? type
    let delegation ← topology.crossing? owner type field
    guard (delegation.service ≠ owner)
    return delegation

/-- The wired fields of a type. A name that occurs twice is judged by its first field. -/
def wiringOf (topology : Topology) (type : SchemaType) : List Crossing :=
  if type.kind = .object then
    type.fields.filterMap fun field => do
      let first ← topology.schema.field? type.name field.name
      let delegation ← topology.delegationFor? type.name first
      return ⟨type.name, field.name, delegation⟩
  else []

/-- All wired fields, by type in increasing order of the names, then by field. -/
def wiring (topology : Topology) : List Crossing :=
  topology.schema.types.values.flatMap topology.wiringOf

def wiredSchema (topology : Topology) : Schema :=
  topology.wiring.foldl
    (fun schema wired => schema.delegate wired.type wired.field wired.delegation) topology.schema

end Topology

end Supergraph
