import Supergraph.GraphQL.Value

/-!
Schema documents, as far as a gateway needs them: which types a service declares or extends, with
which fields and directives. Descriptions, arguments of fields, interfaces of types, members of
unions and enumerations, and directive definitions are read and left out.
-/

namespace Supergraph.GraphQL

inductive TypeKind where
  | object
  | interface
  | union
  | enum
  | scalar
  | inputObject
  deriving DecidableEq, Inhabited, Repr

structure FieldDefinition where
  name : String
  type : TypeRef
  directives : List Directive
  deriving DecidableEq, Inhabited

/-- The definition of a type, or an extension of one. Only objects and interfaces have fields. -/
structure TypeDeclaration where
  extending : Bool
  kind : TypeKind
  name : String
  directives : List Directive
  fields : List FieldDefinition
  deriving DecidableEq, Inhabited

/-- A schema document: its type declarations in the order of the text. -/
abbrev SchemaDocument := List TypeDeclaration

end Supergraph.GraphQL
