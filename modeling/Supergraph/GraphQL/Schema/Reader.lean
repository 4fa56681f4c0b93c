import Supergraph.GraphQL.Schema
import Supergraph.GraphQL.Reader

/-!
Reading schema documents. `SchemaDocument.ofText?` reads a whole text.

A definition may leave out its directives and its block in braces; an extension has to bring at
least one of the things that it can add.
-/

namespace Supergraph.GraphQL

namespace Reader

/-- Whether a description stands next; it is taken. -/
def description : Reader Bool := do
  match ← peek with
  | some (.string _) =>
    discard take
    return true
  | _ => return false

/-- An argument of a field or directive, or a field of an input object. -/
def inputValue : Reader String := do
  discard description
  let (input, _) ← labelled (typeRef depthLimit)
  discard defaultValue
  discard directives
  return input

def fieldDefinition : Reader FieldDefinition := do
  discard description
  let field ← name
  discard (enclosed? '(' ')' inputValue)
  punctuator ':'
  let type ← typeRef depthLimit
  return ⟨field, type, ← directives⟩

def enumValue : Reader String := do
  discard description
  let value ← name
  discard directives
  return value

def interfaces : Reader (List String) := do
  if ← word "implements" then
    discard (accept (.punctuator '&'))
    separated '&' name
  else return []

def unionMembers : Reader (List String) := do
  if ← accept (.punctuator '=') then
    discard (accept (.punctuator '|'))
    separated '|' name
  else return []

/-- What follows the keyword of a type. An extension must add something, and an interface of an
interface is not enough. -/
def typeDeclaration (extending : Bool) (kind : TypeKind) : Reader TypeDeclaration := do
  let type ← name
  let implemented ← if kind = .object ∨ kind = .interface then interfaces else pure []
  let directives ← directives
  let fields ←
    if kind = .object ∨ kind = .interface then enclosed? '{' '}' fieldDefinition else pure []
  let parts ← match kind with
    | .union => unionMembers
    | .enum => enclosed? '{' '}' enumValue
    | .inputObject => enclosed? '{' '}' inputValue
    | _ => pure []
  let addsInterface := kind = .object ∧ ¬implemented.isEmpty
  guard (¬extending ∨ addsInterface ∨ ¬directives.isEmpty ∨ ¬fields.isEmpty ∨ ¬parts.isEmpty)
  return ⟨extending, kind, type, directives, fields⟩

def typeKeyword? : String → Option TypeKind
  | "type" => some .object
  | "interface" => some .interface
  | "union" => some .union
  | "enum" => some .enum
  | "scalar" => some .scalar
  | "input" => some .inputObject
  | _ => none

def directiveLocations : List String :=
  ["QUERY", "MUTATION", "SUBSCRIPTION", "FIELD", "FRAGMENT_DEFINITION", "FRAGMENT_SPREAD",
    "INLINE_FRAGMENT", "VARIABLE_DEFINITION", "SCHEMA", "SCALAR", "OBJECT", "FIELD_DEFINITION",
    "ARGUMENT_DEFINITION", "INTERFACE", "UNION", "ENUM", "ENUM_VALUE", "INPUT_OBJECT",
    "INPUT_FIELD_DEFINITION"]

def directiveLocation : Reader String := do
  let location ← name
  guard (directiveLocations.contains location)
  return location

/-- What follows the keyword of a directive definition. The list of places may be missing where
neither a bar nor a name follows. -/
def directiveDefinition : Reader Unit := do
  punctuator '@'
  discard name
  discard (enclosed? '(' ')' inputValue)
  discard (word "repeatable")
  guard (← word "on")
  let barred ← accept (.punctuator '|')
  let named ← match ← peek with
    | some (.name _) => pure true
    | _ => pure false
  if barred ∨ named then discard (separated '|' directiveLocation)

/-- What follows the keyword of a schema definition: the root types, each at most once. -/
def schemaDefinition : Reader Unit := do
  discard directives
  let roots ← enclosed '{' '}' do
    let (root, _) ← labelled name
    guard (["query", "mutation", "subscription"].contains root)
    return root
  guard (["query", "mutation", "subscription"].all fun root => roots.count root ≤ 1)

/-- A definition of a schema document; the ones that declare no type give nothing. Only types and
directives have descriptions, and extensions have none. -/
def schemaItem : Reader (Option TypeDeclaration) := do
  let described ← description
  match ← name with
  | "schema" =>
    guard (¬described)
    schemaDefinition
    return none
  | "extend" =>
    guard (¬described)
    match typeKeyword? (← name) with
    | some kind => some <$> typeDeclaration true kind
    | none => failure
  | "directive" =>
    directiveDefinition
    return none
  | keyword =>
    match typeKeyword? keyword with
    | some kind => some <$> typeDeclaration false kind
    | none => failure

end Reader

def SchemaDocument.ofText? (text : String) : Option SchemaDocument :=
  (Reader.document? Reader.schemaItem text).map fun items => items.filterMap id

end Supergraph.GraphQL
