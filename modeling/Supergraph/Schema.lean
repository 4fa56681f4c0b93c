import Supergraph.NameMap
import Supergraph.GraphQL.Schema

/-!
The composed schema: the types of all services with their fields, and for each field that a gateway
does not read from its parent, to which service it is delegated and how.

Correspondence (gateway ↔ Lean):
  `ComposedSchema`, `ComposedType`, `ComposedField` ↔ `Schema`, `SchemaType`, `SchemaField`
  `composed_field`                                  ↔ `SchemaField.ofDefinition`
  `add_field`, `insert_type`                        ↔ `SchemaType.addField`, `insertType`
  `get_type`, `field`, `delegation`                 ↔ `type?`, `field?`, `delegation?`
  `is_leaf_type`                                    ↔ `isLeaf`
  `attach`                                          ↔ `delegate?`
-/

namespace Supergraph

open GraphQL

/-- How a field is fetched from the service that it is delegated to. -/
inductive DelegationKind where
  /-- As a field of a root type. -/
  | rootDelegate
  /-- As the entity that a reference stands for. -/
  | entityReference
  /-- As a field that an extension adds to the parent, through the parent's entity. -/
  | fieldResolver
  deriving DecidableEq, Inhabited, Repr

def DelegationKind.label : DelegationKind → String
  | rootDelegate => "RootDelegate"
  | entityReference => "EntityReference"
  | fieldResolver => "FieldResolver"

structure Delegation where
  kind : DelegationKind
  service : String
  deriving DecidableEq, Inhabited, Repr

/-- A field of a composed type. The return type is the named type inside all wrappers. -/
structure SchemaField where
  name : String
  returnType : String
  isList : Bool
  delegation : Option Delegation
  deriving DecidableEq, Inhabited, Repr

def SchemaField.ofDefinition (field : FieldDefinition) : SchemaField :=
  ⟨field.name, field.type.base, field.type.isList, none⟩

structure SchemaType where
  name : String
  kind : TypeKind
  fields : List SchemaField
  deriving DecidableEq, Inhabited, Repr

namespace SchemaType

def field? (type : SchemaType) (name : String) : Option SchemaField :=
  type.fields.find? fun field => field.name = name

/-- The type with a field appended, unless it has one of that name. -/
def addField (type : SchemaType) (field : SchemaField) : SchemaType :=
  match type.field? field.name with
  | some _ => type
  | none => { type with fields := type.fields ++ [field] }

end SchemaType

/-- The first field of a name delegated, the others left alone. -/
def delegateFirst (name : String) (delegation : Delegation) : List SchemaField → List SchemaField
  | [] => []
  | field :: rest =>
    if field.name = name then { field with delegation := some delegation } :: rest
    else field :: delegateFirst name delegation rest

def builtInScalars : List String := ["Int", "Float", "String", "Boolean", "ID"]

structure Schema where
  types : NameMap SchemaType
  deriving DecidableEq

namespace Schema

def empty : Schema := ⟨.empty⟩

def type? (schema : Schema) (name : String) : Option SchemaType := schema.types.find? name

def insertType (schema : Schema) (type : SchemaType) : Schema :=
  ⟨schema.types.insert type.name type⟩

def field? (schema : Schema) (type field : String) : Option SchemaField :=
  (schema.type? type).bind fun composed => composed.field? field

/-- Whether values of the type have no fields to select: a scalar or an enumeration, or a scalar
that every schema has where the schema does not mention it. -/
def isLeaf (schema : Schema) (name : String) : Bool :=
  match schema.type? name with
  | some type => type.kind = .scalar ∨ type.kind = .enum
  | none => builtInScalars.contains name

def delegation? (schema : Schema) (type field : String) : Option Delegation :=
  (schema.field? type field).bind SchemaField.delegation

/-- The schema with a field delegated, if the field exists. -/
def delegate? (schema : Schema) (type field : String) (delegation : Delegation) :
    Option Schema := do
  let composed ← schema.type? type
  discard (composed.field? field)
  let delegated := { composed with fields := delegateFirst field delegation composed.fields }
  return ⟨schema.types.insert type delegated⟩

/-- The schema with a field delegated; unchanged where there is no such field. -/
def delegate (schema : Schema) (type field : String) (delegation : Delegation) :
    Schema := (schema.delegate? type field delegation).getD schema

end Schema

end Supergraph
