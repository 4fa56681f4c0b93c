import Supergraph.Pruning
import Supergraph.Request
import Supergraph.GraphQL.Document.Printer

/-!
Synthesis: the operations that a gateway sends to a service in place of a client's field.

There are three shapes: a field of a root type by itself, the entities that references stand for,
and one field of one entity. Each is a complete document: it brings the fragments that its pruned
selections reach, and declares exactly the variables that it refers to.

Correspondence (gateway ↔ Lean):
  `SynthesizedOperation`     ↔ `ServiceOperation`
  `root_operation`           ↔ `askRootField`
  `entity_operation`         ↔ `askEntities`
  `field_resolver_operation` ↔ `askEntityField`
  `entities_operation`       ↔ `askRepresentations`
  `forwarded_variables`      ↔ `forwardVariables`
  `referenced_variables`     ↔ `usedVariables`
-/

namespace Supergraph

open GraphQL

/-- The field by which services hand out entities. -/
def entitiesField : String := "_entities"

/-- The variable that holds the representations of the entities asked for. -/
def representationsVariable : String := "representations"

/-- An operation for a service, with its fragments and the values of its variables. -/
structure ServiceOperation where
  operation : Operation
  fragments : List Fragment
  values : NameMap Json

namespace ServiceOperation

def document (synthesized : ServiceOperation) : Document :=
  .operation synthesized.operation :: synthesized.fragments.map .fragment

def query (synthesized : ServiceOperation) : String := synthesized.document.render

def name (synthesized : ServiceOperation) : String := synthesized.operation.name.getD ""

def toRequest (synthesized : ServiceOperation) : Request :=
  ⟨synthesized.query, synthesized.values, some synthesized.name⟩

end ServiceOperation

def usedVariables (selections : List Selection) (fragments : List Fragment) : NameSet :=
  .ofList (Selection.variablesOf selections ++ fragments.flatMap fun fragment =>
    Directive.variablesOf fragment.directives ++ Selection.variablesOf fragment.selections)

/-- The declarations and values of the variables used, as the client gives them. Of the variables
that the client does not declare, the least is reported. -/
def forwardVariables (client : ClientOperation) (used : NameSet) :
    Except SynthesisError (List VariableDefinition × NameMap Json) :=
  match used.names.find? fun name => (client.definition? name).isNone with
  | some name => .error (.undefinedVariable name)
  | none =>
    let declared := client.operation.variableDefinitions
    .ok (declared.filter fun definition => used.contains definition.name,
      client.values.filter used.contains)

namespace Pruner

/-- The operation that asks for a field of the root type of a kind. -/
def askRootField (pruner : Pruner) (kind : OperationKind) (field : Field) :
    Except SynthesisError ServiceOperation := do
  let delegated ← pruner.pruneField kind.rootType field
  let selections := [delegated.toSelection]
  let fragments ← pruner.fragmentClosure selections
  let used := usedVariables selections fragments
  let (definitions, values) ← forwardVariables pruner.client used
  let name := kind.rootType ++ "_" ++ field.name
  return ⟨⟨kind, some name, definitions, [], selections⟩, fragments, values⟩

def representationsDefinition : VariableDefinition :=
  ⟨representationsVariable, .nonNull (.list (.nonNull (.named "_Any"))), none⟩

/-- The operation that asks for entities, given what to select on them. -/
def askRepresentations (pruner : Pruner) (choices : List Selection) (representations : List Json) :
    Except SynthesisError ServiceOperation := do
  let head : FieldHead :=
    ⟨none, entitiesField, [(representationsVariable, .variable representationsVariable)], []⟩
  let level := .bare typenameField :: choices
  let fragments ← pruner.fragmentClosure level
  let used := usedVariables level fragments
  if used.contains representationsVariable then throw .reservedVariable
  let (definitions, values) ← forwardVariables pruner.client used
  return ⟨⟨.query, some "EntitiesQuery", representationsDefinition :: definitions, [],
    [.field head level]⟩, fragments, values.insert representationsVariable (.array representations)⟩

/-- What to select on entities of a type. -/
def choiceOn (pruner : Pruner) (field : Field) (type : String) :
    Except SynthesisError Selection := do
  return .inline (some type) [] (← pruner.prune type field.selections)

/-- The operation that asks for the entities that a field refers to, by their concrete types. -/
def askEntities (pruner : Pruner) (field : Field) (types : List String)
    (representations : List Json) : Except SynthesisError ServiceOperation := do
  let choices ← types.mapM (pruner.choiceOn field)
  pruner.askRepresentations choices representations

/-- The operation that asks for one field of one entity. -/
def askEntityField (pruner : Pruner) (field : Field) (parentType condition : String)
    (representation : Json) : Except SynthesisError ServiceOperation := do
  let delegated ← pruner.pruneField parentType field
  pruner.askRepresentations [.inline (some condition) [] [delegated.toSelection]] [representation]

end Pruner

end Supergraph
