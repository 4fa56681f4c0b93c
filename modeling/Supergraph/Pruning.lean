import Supergraph.ClientOperation
import Supergraph.Wiring

/-!
Pruning: what is left of a client's selections when one service is asked for them.

Every level keeps the fields that the service can select on the type of the level, and the fragments
on types that the service knows. It is completed by the keys of the type that the service can answer
and by `__typename`, each selected by its bare name. Fragments that survive are pruned on their own,
each once, against their own type condition.

Correspondence (gateway ↔ Lean):
  `SelectionRewriter`   ↔ `Pruner`
  `RewriteError`        ↔ `SynthesisError`
  `prune`               ↔ `Pruner.prune`, `pruneSelection`, `complete`
  `prune_field`         ↔ `pruneField`
  `reachable_fragments` ↔ `fragmentClosure`
  `collect_fragments`   ↔ `follow`
  `selects`             ↔ `selects`
-/

namespace Supergraph

open GraphQL

/-- Why an operation for a service cannot be written. -/
inductive SynthesisError where
  | unknownField (type field : String)
  | unknownFragment (name : String)
  | undefinedVariable (name : String)
  | reservedVariable
  deriving DecidableEq, Repr

def SynthesisError.message : SynthesisError → String
  | unknownField type field =>
    "field '" ++ type ++ "." ++ field ++ "' is not part of the composed schema"
  | unknownFragment name => "fragment '" ++ name ++ "' is not defined in the operation"
  | undefinedVariable name => "variable '$" ++ name ++ "' is used but not declared by the operation"
  | reservedVariable => "variable '$representations' is reserved for entity representations"

/-- The field that tells the concrete type of an object. -/
def typenameField : String := "__typename"

/-- What pruning looks at: the schema, the keys of its types, the service that is asked, and the
operation with its fragments. -/
structure Pruner where
  schema : Schema
  index : Ownership
  service : Service
  client : ClientOperation

/-- Whether a selection selects a field under its own name. -/
def selectsPlainly (name : String) : Selection → Bool
  | .field head _ => head.name = name ∧ head.responseKey = name
  | _ => false

/-- Whether one of the selections selects a field under its own name. -/
def selects (selections : List Selection) (name : String) : Bool :=
  selections.any (selectsPlainly name)

namespace Pruner

/-- Whether a key of a type is completed: the service answers it, and it has no fields of its
own. -/
def completes (pruner : Pruner) (type key : String) : Bool :=
  (pruner.service.shape.owns type key || pruner.service.shape.servesKey type key) &&
    match pruner.schema.field? type key with
    | some field => pruner.schema.isLeaf field.returnType
    | none => false

/-- A level with a field appended under its own name, unless it is selected so already. -/
def ensure (level : List Selection) (name : String) : List Selection :=
  if selects level name then level else level ++ [.bare name]

/-- A level with the keys of its type and `__typename`. -/
def complete (pruner : Pruner) (type : String) (level : List Selection) : List Selection :=
  ensure (((pruner.index.keysOf type).filter (pruner.completes type)).foldl ensure level)
    typenameField

def returnType (pruner : Pruner) (type field : String) : Except SynthesisError String :=
  match pruner.schema.field? type field with
  | some composed => .ok composed.returnType
  | none => .error (.unknownField type field)

mutual

/-- The level `kept` extended by what is left of one more selection. A `__typename` is kept without
arguments, directives and sub-selections, and only if the level does not select a field of its
response key plainly. -/
def pruneSelection (pruner : Pruner) (type : String) (kept : List Selection) :
    Selection → Except SynthesisError (List Selection)
  | .field head selections =>
    if head.name = typenameField then
      if selects kept head.responseKey then .ok kept
      else .ok (kept ++ [.field { FieldHead.bare typenameField with label := head.label } []])
    else if pruner.service.shape.canSelect type head.name then
      if selections.isEmpty then .ok (kept ++ [.field head []])
      else do
        let inner ← pruner.returnType type head.name
        let level ← pruner.pruneSelections inner [] selections
        return kept ++ [.field head (pruner.complete inner level)]
    else .ok kept
  | .spread fragment directives =>
    match pruner.client.fragment? fragment with
    | none => .error (.unknownFragment fragment)
    | some definition =>
      if pruner.service.shape.knows definition.condition then
        .ok (kept ++ [.spread fragment directives])
      else .ok kept
  | .inline condition directives selections =>
    let inner := condition.getD type
    if pruner.service.shape.knows inner then do
      let level ← pruner.pruneSelections inner [] selections
      return kept ++ [.inline condition directives (pruner.complete inner level)]
    else .ok kept

def pruneSelections (pruner : Pruner) (type : String) (kept : List Selection) :
    List Selection → Except SynthesisError (List Selection)
  | [] => .ok kept
  | selection :: rest => do
    let kept ← pruner.pruneSelection type kept selection
    pruner.pruneSelections type kept rest

end

/-- The selections of a level on a type, pruned and completed. -/
def prune (pruner : Pruner) (type : String) (selections : List Selection) :
    Except SynthesisError (List Selection) := do
  let level ← pruner.pruneSelections type [] selections
  return pruner.complete type level

/-- A field of a type with its sub-selections pruned against its return type. The field itself is
kept as it is. -/
def pruneField (pruner : Pruner) (type : String) (field : Field) : Except SynthesisError Field := do
  if field.selections.isEmpty then return field
  else
    let inner ← pruner.returnType type field.name
    return { field with selections := ← pruner.prune inner field.selections }

/-! ## Fragments -/

/-- A fragment with its selections pruned against its own type condition. -/
def pruneFragment (pruner : Pruner) (fragment : Fragment) : Except SynthesisError Fragment := do
  return { fragment with selections := ← pruner.prune fragment.condition fragment.selections }

/-- A search through fragments: the names met, and the fragments collected. -/
structure FragmentSearch where
  met : List String
  collected : List Fragment

/-- Follows a spread: prunes its fragment, follows the spreads of the result, and then collects it.
A name met before is passed over. Every fragment entered is a new one, so `depth` may start at the
number of fragments; where it reaches zero all of them are met, and a new name is undefined. -/
def follow (pruner : Pruner) : Nat → FragmentSearch → String → Except SynthesisError FragmentSearch
  | depth, search, name =>
    if search.met.contains name then .ok search
    else
      match depth, pruner.client.fragment? name with
      | depth + 1, some fragment => do
        let pruned ← pruner.pruneFragment fragment
        let search ← (Selection.spreadsOf pruned.selections).foldlM (pruner.follow depth)
          { search with met := name :: search.met }
        return { search with collected := search.collected ++ [pruned] }
      | _, _ => .error (.unknownFragment name)

/-- The fragments that selections reach through spreads, pruned, each once and after those that it
spreads. -/
def fragmentClosure (pruner : Pruner) (selections : List Selection) :
    Except SynthesisError (List Fragment) := do
  let depth := pruner.client.fragments.entries.length
  let search ← (Selection.spreadsOf selections).foldlM (pruner.follow depth) ⟨[], []⟩
  return search.collected

end Pruner

end Supergraph
