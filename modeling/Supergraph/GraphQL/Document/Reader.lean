import Supergraph.GraphQL.Document
import Supergraph.GraphQL.Reader

/-!
Reading executable documents. `Document.ofText?` reads a whole text.
-/

namespace Supergraph.GraphQL

namespace Reader

/-- One selection, given how to read the selections nested in it. -/
def selection (nested : Reader (List Selection)) : Reader Selection := do
  if ← accept .dots then
    if ← word "on" then
      let condition ← name
      let directives ← directives
      return .inline (some condition) directives (← nested)
    else
      match ← peek with
      | some (.name _) =>
        let fragment ← name
        return .spread fragment (← directives)
      | _ =>
        let directives ← directives
        return .inline none directives (← nested)
  else
    let first ← name
    let renamed ← accept (.punctuator ':')
    let second ← if renamed then name else pure first
    let arguments ← arguments
    let directives ← directives
    let head : FieldHead := ⟨if renamed then some first else none, second, arguments, directives⟩
    match ← peek with
    | some (.punctuator '{') => return .field head (← nested)
    | _ => return .field head []

/-- A selection set, nested to the given depth. -/
def selectionSet : Nat → Reader (List Selection)
  | 0 => failure
  | depth + 1 => enclosed1 '{' '}' (selection (selectionSet depth))

def variableDefinition : Reader VariableDefinition := do
  punctuator '$'
  let (declared, type) ← labelled (typeRef depthLimit)
  return ⟨declared, type, ← defaultValue⟩

/-- What follows the keyword of an operation. -/
def operation (kind : OperationKind) : Reader Definition := do
  let operationName ← match ← peek with
    | some (.name _) => some <$> name
    | _ => pure none
  let definitions ← enclosed? '(' ')' variableDefinition
  let directives ← directives
  let selections ← selectionSet depthLimit
  return .operation ⟨kind, operationName, definitions, directives, selections⟩

/-- What follows the keyword of a fragment. -/
def fragment : Reader Definition := do
  let fragmentName ← name
  guard (← word "on")
  let condition ← name
  let directives ← directives
  let selections ← selectionSet depthLimit
  return .fragment ⟨fragmentName, condition, directives, selections⟩

def definition : Reader Definition := do
  match ← peek with
  | some (.punctuator '{') => return .shorthand (← selectionSet depthLimit)
  | _ =>
    match ← name with
    | "query" => operation .query
    | "mutation" => operation .mutation
    | "subscription" => operation .subscription
    | "fragment" => fragment
    | _ => failure

end Reader

/-- Reads a document: one or more definitions. -/
def Document.ofText? (text : String) : Option Document := Reader.document? Reader.definition text

end Supergraph.GraphQL
