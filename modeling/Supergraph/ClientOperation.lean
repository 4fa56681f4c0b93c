import Supergraph.NameMap
import Supergraph.Json
import Supergraph.GraphQL.Document

/-!
The operation that a client asks for: one operation of a document, the document's fragments, and the
values of the variables.

`ClientOperation.ofDocument` chooses the operation, and `ClientOperation.fieldAt` finds the field at
a response path. The search looks through fragments in the order of the text and ends at the first
field that has the key. A fragment that was searched once is not searched again, because it would be
in vain, so each is entered at most once and cycles of spreads end.

Correspondence (gateway ↔ Lean):
  `OperationContext`, `OperationContext.from_document` ↔ `ClientOperation`, `ofDocument`
  `fragment`, `variable_definition`                    ↔ `fragment?`, `definition?`
  `field_at`                                           ↔ `fieldAt`, `fieldBelow`
  `find_in`                                            ↔ `searchSelection`, `searchFragment`
-/

namespace Supergraph

open GraphQL

/-- Why a document does not give an operation. -/
inductive OperationError where
  | noOperation
  | unknownOperation (name : String)
  | ambiguousOperation
  deriving DecidableEq, Repr

def OperationError.message : OperationError → String
  | noOperation => "document contains no operation"
  | unknownOperation name => "operation '" ++ name ++ "' not found in document"
  | ambiguousOperation => "document contains several operations, an operation name is required"

/-- An operation, the fragments that it may spread, and the values of its variables. -/
structure ClientOperation where
  operation : Operation
  fragments : NameMap Fragment
  values : NameMap Json

namespace ClientOperation

/-- Chooses the operation of a document: the first of the given name, or the only one. Of fragments
with one name the last counts. -/
def ofDocument (document : Document) (name : Option String) (values : NameMap Json) :
    Except OperationError ClientOperation := do
  let fragments := document.fragments.foldl (fun map f => map.insert f.name f) NameMap.empty
  let operation ← match name, document.operations with
    | some wanted, operations =>
      match operations.find? fun operation => operation.name = some wanted with
      | some operation => pure operation
      | none => throw (.unknownOperation wanted)
    | none, [] => throw .noOperation
    | none, [operation] => pure operation
    | none, _ => throw .ambiguousOperation
  return ⟨operation, fragments, values⟩

def kind (client : ClientOperation) : OperationKind := client.operation.kind

def fragment? (client : ClientOperation) (name : String) : Option Fragment :=
  client.fragments.find? name

def definition? (client : ClientOperation) (name : String) : Option VariableDefinition :=
  client.operation.variableDefinitions.find? fun definition => definition.name = name

/-! ## Fields through fragments -/

/-- What a search for a field comes to: the field, or the fragments that were searched in vain. -/
inductive FieldSearch where
  | found (field : Field)
  | missing (searched : List String)

mutual

/-- Searches a selection for a field with a response key, when `follow` searches a fragment. -/
def searchSelection (key : String) (follow : List String → String → FieldSearch)
    (searched : List String) : Selection → FieldSearch
  | .field head selections =>
    if head.responseKey = key then .found ⟨head, selections⟩ else .missing searched
  | .spread fragment _ => follow searched fragment
  | .inline _ _ selections => searchSelections key follow searched selections

def searchSelections (key : String) (follow : List String → String → FieldSearch)
    (searched : List String) : List Selection → FieldSearch
  | [] => .missing searched
  | selection :: rest =>
    match searchSelection key follow searched selection with
    | .found field => .found field
    | .missing searched => searchSelections key follow searched rest

end

/-- Searches a fragment, unless it was searched before or is not defined. Every fragment entered is
a new one, so `depth` may start at the number of fragments. -/
def searchFragment (client : ClientOperation) (key : String) :
    Nat → List String → String → FieldSearch
  | depth, searched, name =>
    if searched.contains name then .missing searched
    else
      match depth, client.fragment? name with
      | depth + 1, some fragment =>
        searchSelections key (client.searchFragment key depth) (name :: searched)
          fragment.selections
      | _, _ => .missing searched

def fieldWithKey (client : ClientOperation) (selections : List Selection) (key : String) :
    Option Field :=
  let follow := client.searchFragment key client.fragments.entries.length
  match searchSelections key follow [] selections with
  | .found field => some field
  | .missing _ => none

/-- The field at a response path below selections. Each key settles on the first field that has
it. -/
def fieldBelow (client : ClientOperation) (selections : List Selection) : List String → Option Field
  | [] => none
  | [key] => client.fieldWithKey selections key
  | key :: rest =>
    (client.fieldWithKey selections key).bind fun field => client.fieldBelow field.selections rest

def fieldAt (client : ClientOperation) (path : List String) : Option Field :=
  client.fieldBelow client.operation.selections path

end ClientOperation

end Supergraph
