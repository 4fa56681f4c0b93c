import Supergraph.Schema
import Supergraph.Service

/-!
Composition: the schemas of all services merged into one.

Definitions and extensions of a type merge alike. Of fields with one name the first declaration
counts; a type must have the same kind everywhere.

Correspondence (gateway ↔ Lean):
  `SdlComposer.compose`                              ↔ `Schema.ofServices`
  `ComposedSchema.merge`, with the filters before it ↔ `Schema.merge`
  `ComposeError`                                     ↔ `CompositionError`
-/

namespace Supergraph

open GraphQL

def kindLabel : TypeKind → String
  | .object => "Object"
  | .interface => "Interface"
  | .union => "Union"
  | .enum => "Enum"
  | .scalar => "Scalar"
  | .inputObject => "InputObject"

/-- Why services have no composed schema. A composer may read the schemas anew and fail at that of a
service; the one below takes them as they were read, and fails at a type of two kinds only. -/
inductive CompositionError where
  | parse (service : String)
  | kindMismatch (type : String) (first second : TypeKind)
  deriving DecidableEq, Repr

def CompositionError.message : CompositionError → String
  | parse service => "service '" ++ service ++ "' SDL could not be parsed: "
  | kindMismatch type first second =>
    "type '" ++ type ++ "' is declared as " ++ kindLabel first ++ " and as " ++ kindLabel second

namespace Schema

def builtIn : Schema :=
  builtInScalars.foldl (fun schema name => schema.insertType ⟨name, .scalar, []⟩) empty

/-- Merges a declaration into the schema. Types and fields of the federation protocol are left
out. -/
def merge (schema : Schema) (declaration : TypeDeclaration) :
    Except CompositionError Schema :=
  if isInternalName declaration.name then .ok schema
  else
    let known := (schema.type? declaration.name).getD ⟨declaration.name, declaration.kind, []⟩
    if known.kind = declaration.kind then
      let fields := (declaration.fields.filter fun field => !isInternalName field.name).map
        SchemaField.ofDefinition
      .ok ⟨schema.types.insert declaration.name (fields.foldl SchemaType.addField known)⟩
    else .error (.kindMismatch declaration.name known.kind declaration.kind)

/-- Merges the schemas of services, in their order. -/
def ofServices (services : List Service) : Except CompositionError Schema :=
  services.foldlM (fun schema service => service.schema.foldlM merge schema) builtIn

end Schema

end Supergraph
