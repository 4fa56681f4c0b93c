import Supergraph.NameMap
import Supergraph.GraphQL.Schema
import Supergraph.GraphQL.Document.Reader

/-!
The shape of a service: which fields its schema declares on which types, which it adds to types of
other services, and by which fields its entities are known.

Root types are shared field by field, so an extension of `Query` or `Mutation` counts as a
declaration. Types whose name starts with an underscore, and such fields of root types, belong to
the federation protocol and are left out.

Correspondence (gateway ↔ Lean):
  `SubgraphShape`                          ↔ `ServiceShape`
  `shape_of`                               ↔ `ServiceShape.ofSchema`, `record`
  `record_extension`                       ↔ `recordExtension`
  `record_fields`                          ↔ `FieldTable.record`, `keeps`
  `record_keys`                            ↔ `recordKeys`, `KeyTable.record`
  `top_level_key_fields`                   ↔ `topLevelFields`
  `is_root_type`, `is_federation_internal` ↔ `isRootType`, `isInternalName`
  `owns_field`, `contributes_field`        ↔ `owns`, `contributes`
  `serves_key_field`, `knows_type`         ↔ `servesKey`, `knows`
  `can_select`                             ↔ `canSelect`
-/

namespace Supergraph

open GraphQL

def isInternalName (name : String) : Bool := name.toList.head? = some '_'

def isRootType (type : String) : Bool :=
  type = "Query" ∨ type = "Mutation" ∨ type = "Subscription"

abbrev FieldTable := NameMap NameSet

namespace FieldTable

def has (table : FieldTable) (type field : String) : Bool :=
  match table.find? type with
  | some fields => fields.contains field
  | none => false

/-- Whether a table keeps a field of a type. -/
def keeps (type field : String) : Bool := !isRootType type || !isInternalName field

/-- Enters a type with fields, next to those that it has already. -/
def record (table : FieldTable) (type : String) (fields : List String) : FieldTable :=
  if isInternalName type then table
  else
    let known := (table.find? type).getD .empty
    table.insert type ((fields.filter (keeps type)).foldl NameSet.add known)

end FieldTable

/-- Types with the fields that identify their entities, in the order of their first mention. -/
abbrev KeyTable := NameMap (List String)

namespace KeyTable

def keysOf (table : KeyTable) (type : String) : List String := (table.find? type).getD []

def appendNew (names : List String) (name : String) : List String :=
  if names.contains name then names else names ++ [name]

/-- Enters keys of a type after those that it has already. -/
def record (table : KeyTable) (type : String) (keys : List String) : KeyTable :=
  table.insert type (keys.foldl appendNew (table.keysOf type))

end KeyTable

/-- The names of the fields at the top of a key, such as `id` and `owner` of `id owner { id }`. A
text that is not one selection set names none. -/
def topLevelFields (text : String) : List String :=
  match Document.ofText? ("\x7b " ++ text ++ " \x7d") with
  | some [.shorthand selections] =>
    selections.filterMap fun
      | .field head _ => some head.name
      | _ => none
  | _ => []

def keyText? (directive : Directive) : Option String :=
  if directive.name = "key" then
    match directive.arguments.find? fun (name, _) => name = "fields" with
    | some (_, .string text) => some text
    | _ => none
  else none

/-- What a service declares. -/
structure ServiceShape where
  /-- The fields of the types that the service defines. -/
  declared : FieldTable
  /-- The fields that the service adds to types by extension. -/
  contributed : FieldTable
  /-- The fields that extensions mention as defined elsewhere. -/
  external : FieldTable
  /-- The keys of entities, from definitions and extensions. -/
  keys : KeyTable
  deriving DecidableEq

namespace ServiceShape

def empty : ServiceShape := ⟨.empty, .empty, .empty, .empty⟩

/-- Enters the keys that directives on a type give. -/
def recordKeys (shape : ServiceShape) (type : String) (directives : List Directive) :
    ServiceShape :=
  { shape with
    keys := (directives.filterMap keyText?).foldl
      (fun keys text => keys.record type (topLevelFields text)) shape.keys }

def recordDefinition (shape : ServiceShape) (declaration : TypeDeclaration) : ServiceShape :=
  { shape with
    declared := shape.declared.record declaration.name (declaration.fields.map (·.name)) }

/-- Whether a field of an extension is only mentioned there. -/
def isExternal (field : FieldDefinition) : Bool :=
  field.directives.any fun directive => directive.name = "external"

/-- Enters the fields of an extension: those marked external apart from the others. -/
def recordExtension (shape : ServiceShape) (declaration : TypeDeclaration) : ServiceShape :=
  let (mentioned, added) := declaration.fields.partition isExternal
  { shape with
    external := shape.external.record declaration.name (mentioned.map (·.name))
    contributed := shape.contributed.record declaration.name (added.map (·.name)) }

/-- Enters a declaration of the schema. Scalars, enumerations and inputs have no part in it. -/
def record (shape : ServiceShape) (declaration : TypeDeclaration) : ServiceShape :=
  match declaration.extending, declaration.kind with
  | false, .object | false, .interface =>
    (shape.recordDefinition declaration).recordKeys declaration.name declaration.directives
  | false, .union => shape.recordDefinition declaration
  | true, .object =>
    if declaration.name = "Query" ∨ declaration.name = "Mutation" then
      shape.recordDefinition declaration
    else (shape.recordExtension declaration).recordKeys declaration.name declaration.directives
  | true, .interface =>
    (shape.recordExtension declaration).recordKeys declaration.name declaration.directives
  | _, _ => shape

def ofSchema (schema : SchemaDocument) : ServiceShape := schema.foldl record empty

/-- Whether the service defines the field. -/
def owns (shape : ServiceShape) (type field : String) : Bool := shape.declared.has type field

/-- Whether the service adds the field to a type by extension. -/
def contributes (shape : ServiceShape) (type field : String) : Bool :=
  shape.contributed.has type field

/-- Whether the service answers the field as part of a key: it is one, and the schema has it on the
type, if only as a mention. -/
def servesKey (shape : ServiceShape) (type field : String) : Bool :=
  (shape.keys.keysOf type).contains field &&
    (shape.owns type field || shape.contributes type field || shape.external.has type field)

/-- Whether the service can be asked for the field. -/
def canSelect (shape : ServiceShape) (type field : String) : Bool :=
  shape.owns type field || shape.contributes type field || shape.servesKey type field

/-- Whether the schema mentions the type as one with fields or keys. -/
def knows (shape : ServiceShape) (type : String) : Bool :=
  shape.declared.contains type || shape.contributed.contains type ||
    shape.external.contains type || shape.keys.contains type

end ServiceShape

end Supergraph
