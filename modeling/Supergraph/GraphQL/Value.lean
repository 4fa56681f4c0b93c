import Supergraph.Double

/-!
Values, type references and directives: the leaves that operations and schemas share.

`Value.variableNames` is the list of variables that a value refers to, however deeply nested.
-/

namespace Supergraph.GraphQL

/-- A literal value, or a reference to a variable. The fields of an object are listed in increasing
order of their names, each name once. -/
inductive Value where
  | variable (name : String)
  | int (value : Int)
  | float (value : Double)
  | string (value : String)
  | boolean (value : Bool)
  | null
  | enum (name : String)
  | list (items : List Value)
  | object (fields : List (String × Value))
  deriving Inhabited

mutual

/-- Equality of values is decided by kind first, so that only two of the same kind are compared. -/
def Value.decEq (value other : Value) : Decidable (value = other) :=
  if hkind : value.ctorIdx = other.ctorIdx then
    match value, other, hkind with
    | .variable name, .variable name', _ => decidable_of_iff (name = name') (by simp)
    | .int value, .int value', _ => decidable_of_iff (value = value') (by simp)
    | .float value, .float value', _ => decidable_of_iff (value = value') (by simp)
    | .string value, .string value', _ => decidable_of_iff (value = value') (by simp)
    | .boolean value, .boolean value', _ => decidable_of_iff (value = value') (by simp)
    | .null, .null, _ => .isTrue rfl
    | .enum name, .enum name', _ => decidable_of_iff (name = name') (by simp)
    | .list items, .list items', _ =>
      have := Value.decEqItems items items'
      decidable_of_iff (items = items') (by simp)
    | .object fields, .object fields', _ =>
      have := Value.decEqFields fields fields'
      decidable_of_iff (fields = fields') (by simp)
  else .isFalse fun heq => hkind (heq ▸ rfl)

def Value.decEqItems : (items items' : List Value) → Decidable (items = items')
  | [], [] => .isTrue rfl
  | [], _ :: _ | _ :: _, [] => .isFalse nofun
  | item :: items, item' :: items' =>
    have := Value.decEq item item'
    have := Value.decEqItems items items'
    decidable_of_iff (item = item' ∧ items = items') (by simp)

def Value.decEqFields : (fields fields' : List (String × Value)) → Decidable (fields = fields')
  | [], [] => .isTrue rfl
  | [], _ :: _ | _ :: _, [] => .isFalse nofun
  | (name, value) :: fields, (name', value') :: fields' =>
    have := Value.decEq value value'
    have := Value.decEqFields fields fields'
    decidable_of_iff ((name = name' ∧ value = value') ∧ fields = fields') (by simp)

end

instance : DecidableEq Value := Value.decEq

mutual

/-- The variables that the value refers to, in the order of the text. -/
def Value.variableNames : Value → List String
  | .variable name => [name]
  | .list items => Value.itemVariables items
  | .object fields => Value.fieldVariables fields
  | _ => []

def Value.itemVariables : List Value → List String
  | [] => []
  | item :: rest => item.variableNames ++ Value.itemVariables rest

def Value.fieldVariables : List (String × Value) → List String
  | [] => []
  | (_, value) :: rest => value.variableNames ++ Value.fieldVariables rest

end

/-- The arguments of a field or directive, in the order of the text. -/
abbrev Arguments := List (String × Value)

def Arguments.variableNames (arguments : Arguments) : List String :=
  arguments.flatMap fun (_, value) => value.variableNames

/-- A directive, such as `@include(if: $full)`. -/
structure Directive where
  name : String
  arguments : Arguments
  deriving DecidableEq, Inhabited

def Directive.variablesOf (directives : List Directive) : List String :=
  directives.flatMap fun directive => Arguments.variableNames directive.arguments

inductive TypeRef where
  | named (name : String)
  | list (item : TypeRef)
  | nonNull (nullable : TypeRef)
  deriving DecidableEq, Inhabited

def TypeRef.base : TypeRef → String
  | named name => name
  | list item => item.base
  | nonNull nullable => nullable.base

def TypeRef.isList : TypeRef → Bool
  | named _ => false
  | list _ => true
  | nonNull nullable => nullable.isList

end Supergraph.GraphQL
