import Supergraph.NameMap
import Supergraph.GraphQL.Value
import Supergraph.GraphQL.Token

/-!
Reading what operations and schemas have in common: values, type references and directives.

A reader takes tokens from the front of a list and decides each choice by the next token, so it
never goes back. Nested constructs recurse to the depth that tokens can have.
-/

namespace Supergraph.GraphQL

/-- A reader takes tokens from the front of a list, or fails. -/
abbrev Reader := StateT (List Token) Option

namespace Reader

variable {α : Type}

def peek : Reader (Option Token) := do return (← get).head?

def take : Reader Token := do
  match ← get with
  | [] => failure
  | token :: rest =>
    set rest
    return token

/-- Whether the next token is the given one, which is then taken. -/
def accept (token : Token) : Reader Bool := do
  if (← peek) = some token then
    discard take
    return true
  else return false

def expect (token : Token) : Reader Unit := do guard (← accept token)

def punctuator (c : Char) : Reader Unit := expect (.punctuator c)

/-- Whether the next token is the given name, which is then taken. -/
def word (text : String) : Reader Bool := accept (.name text)

def name : Reader String := do
  match ← take with
  | .name text => return text
  | _ => failure

def atEnd : Reader Bool := do return (← get).isEmpty

/-- Items up to a closing punctuator, at most `fuel` of them. -/
def itemsUpTo (close : Char) (item : Reader α) : Nat → Reader (List α)
  | 0 => do
    punctuator close
    return []
  | fuel + 1 => do
    if ← accept (.punctuator close) then return []
    else
      let first ← item
      let rest ← itemsUpTo close item fuel
      return first :: rest

/-- Items between two punctuators. Each item takes a token, so the tokens left bound their
number. -/
def enclosed (openMark closeMark : Char) (item : Reader α) : Reader (List α) := do
  punctuator openMark
  itemsUpTo closeMark item (← get).length

/-- At least one item between two punctuators. -/
def enclosed1 (openMark closeMark : Char) (item : Reader α) : Reader (List α) := do
  let items ← enclosed openMark closeMark item
  guard (¬items.isEmpty)
  return items

/-- At least one item between two punctuators, or nothing at all. -/
def enclosed? (openMark closeMark : Char) (item : Reader α) : Reader (List α) := do
  if (← peek) = some (.punctuator openMark) then enclosed1 openMark closeMark item else return []

/-- Items that each follow a mark, as long as the mark is next; at most `fuel` of them. -/
def whileMarked (mark : Char) (item : Reader α) : Nat → Reader (List α)
  | 0 => return []
  | fuel + 1 => do
    if ← accept (.punctuator mark) then
      let first ← item
      let rest ← whileMarked mark item fuel
      return first :: rest
    else return []

def marked (mark : Char) (item : Reader α) : Reader (List α) := do
  whileMarked mark item (← get).length

/-- At least one item, with a mark between two. -/
def separated (mark : Char) (item : Reader α) : Reader (List α) := do
  let first ← item
  let rest ← marked mark item
  return first :: rest

def labelled (item : Reader α) : Reader (String × α) := do
  let label ← name
  punctuator ':'
  let value ← item
  return (label, value)

/-- A value, nested to the given depth. A constant has no variables anywhere inside. -/
def value (constant : Bool) : Nat → Reader Value
  | 0 => failure
  | depth + 1 => do
    match ← peek with
    | some (.punctuator '[') => return .list (← enclosed '[' ']' (value constant depth))
    | some (.punctuator '{') =>
      let fields ← enclosed '{' '}' (labelled (value constant depth))
      return .object (fields.foldl (fun sorted (key, item) => Entries.insert key item sorted) [])
    | _ =>
      match ← take with
      | .name "true" => return .boolean true
      | .name "false" => return .boolean false
      | .name "null" => return .null
      | .name text => return .enum text
      | .int number => return .int number
      | .float number => return .float number
      | .string text => return .string text
      | .punctuator '$' => if constant then failure else return .variable (← name)
      | _ => failure

/-- A type reference, nested to the given depth. -/
def typeRef : Nat → Reader TypeRef
  | 0 => failure
  | depth + 1 => do
    let nullable ←
      if ← accept (.punctuator '[') then
        let item ← typeRef depth
        punctuator ']'
        pure (TypeRef.list item)
      else pure (TypeRef.named (← name))
    if ← accept (.punctuator '!') then return .nonNull nullable else return nullable

/-- The depth that values, types and selections may have. -/
def depthLimit : Nat := Token.nestingLimit + 1

def arguments : Reader Arguments := enclosed? '(' ')' (labelled (value false depthLimit))

def directives : Reader (List Directive) :=
  marked '@' do
    let directive ← name
    return ⟨directive, ← arguments⟩

def defaultValue : Reader (Option Value) := do
  if ← accept (.punctuator '=') then return some (← value true depthLimit) else return none

/-- Definitions up to the end of the tokens, at most `fuel` of them. -/
def definitionsUpTo (definition : Reader α) : Nat → Reader (List α)
  | 0 => do
    guard (← atEnd)
    return []
  | fuel + 1 => do
    if ← atEnd then return []
    else
      let first ← definition
      let rest ← definitionsUpTo definition fuel
      return first :: rest

/-- Reads a whole text as one or more definitions. -/
def document? (definition : Reader α) (text : String) : Option (List α) := do
  let tokens ← Token.ofText? text
  let (definitions, _) ← definitionsUpTo definition tokens.length tokens
  guard (¬definitions.isEmpty)
  return definitions

end Reader

end Supergraph.GraphQL
