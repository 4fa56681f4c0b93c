import Supergraph.GraphQL.Value

/-!
Executable documents: selections, operations and fragments.

A field selection is its head (what is written before the braces) and its sub-selections; a field
without braces has none. `Selection.variablesOf` and `Selection.spreadsOf` list what selections
refer to, at any depth.
-/

namespace Supergraph.GraphQL

/-- A field selection without its sub-selections. -/
structure FieldHead where
  /-- The alias. -/
  label : Option String
  name : String
  arguments : Arguments
  directives : List Directive
  deriving BEq, Inhabited

namespace FieldHead

/-- The key of the field in the response: the alias if there is one, else the name. -/
def responseKey (head : FieldHead) : String := head.label.getD head.name

/-- A field selected by its name alone. -/
def bare (name : String) : FieldHead := ⟨none, name, [], []⟩

def variableNames (head : FieldHead) : List String :=
  head.arguments.variableNames ++ Directive.variablesOf head.directives

end FieldHead

/-- One item of a selection set. -/
inductive Selection where
  | field (head : FieldHead) (selections : List Selection)
  | spread (fragment : String) (directives : List Directive)
  | inline (condition : Option String) (directives : List Directive) (selections : List Selection)
  deriving BEq, Inhabited

namespace Selection

def bare (name : String) : Selection := field (.bare name) []

mutual

/-- The variables that a selection refers to, in the order of the text. -/
def variableNames : Selection → List String
  | field head selections => head.variableNames ++ variablesOf selections
  | spread _ directives => Directive.variablesOf directives
  | inline _ directives selections => Directive.variablesOf directives ++ variablesOf selections

def variablesOf : List Selection → List String
  | [] => []
  | selection :: rest => selection.variableNames ++ variablesOf rest

end

mutual

/-- The fragments that a selection spreads, in the order of the text. -/
def spreads : Selection → List String
  | field _ selections => spreadsOf selections
  | spread fragment _ => [fragment]
  | inline _ _ selections => spreadsOf selections

def spreadsOf : List Selection → List String
  | [] => []
  | selection :: rest => selection.spreads ++ spreadsOf rest

end

end Selection

/-- A field selection with its sub-selections. -/
structure Field where
  head : FieldHead
  selections : List Selection
  deriving BEq, Inhabited

namespace Field

def toSelection (field : Field) : Selection := .field field.head field.selections

def name (field : Field) : String := field.head.name

def responseKey (field : Field) : String := field.head.responseKey

end Field

inductive OperationKind where
  | query
  | mutation
  | subscription
  deriving DecidableEq, Inhabited, Repr

namespace OperationKind

def keyword : OperationKind → String
  | query => "query"
  | mutation => "mutation"
  | subscription => "subscription"

def rootType : OperationKind → String
  | query => "Query"
  | mutation => "Mutation"
  | subscription => "Subscription"

end OperationKind

structure VariableDefinition where
  name : String
  type : TypeRef
  default : Option Value
  deriving BEq, Inhabited

structure Fragment where
  name : String
  condition : String
  directives : List Directive
  selections : List Selection
  deriving BEq, Inhabited

structure Operation where
  kind : OperationKind
  name : Option String
  variableDefinitions : List VariableDefinition
  directives : List Directive
  selections : List Selection
  deriving BEq, Inhabited

/-- A definition of a document. The shorthand is a query written as a selection set alone. -/
inductive Definition where
  | shorthand (selections : List Selection)
  | operation (operation : Operation)
  | fragment (fragment : Fragment)
  deriving BEq, Inhabited

/-- A document: its definitions in the order of the text. -/
abbrev Document := List Definition

namespace Document

/-- The operations of a document; the shorthand is a query without name or variables. -/
def operations (document : Document) : List Operation :=
  document.filterMap fun
    | .shorthand selections => some ⟨.query, none, [], [], selections⟩
    | .operation operation => some operation
    | .fragment _ => none

def fragments (document : Document) : List Fragment :=
  document.filterMap fun
    | .fragment fragment => some fragment
    | _ => none

end Document

end Supergraph.GraphQL
