import Supergraph.Text
import Supergraph.Double.Shortest
import Supergraph.GraphQL.Document

/-!
Printing executable documents: two blanks of indentation for each level, one selection on a line, an
empty line between definitions.

A text with a line feed and no unprintable character is printed as a block string, indented two
blanks deeper than the selection that it stands in; all other texts are quoted.
-/

namespace Supergraph.GraphQL

def blanks (columns : Nat) : List Char := List.replicate columns ' '

/-! ## Texts -/

def isPrintable (c : Char) : Bool := 0x20 ≤ c.toNat ∧ c.toNat ≤ 0xFFFF

/-- A character of a quoted text. A character that does not print is written as its decimal code,
in at least four digits. -/
def quotedChar (c : Char) : List Char :=
  if c = '\r' then ['\\', 'r']
  else if c = '\n' then ['\\', 'n']
  else if c = '\t' then ['\\', 't']
  else if c = '"' then ['\\', '"']
  else if c = '\\' then ['\\', '\\']
  else if isPrintable c then [c]
  else
    let digits := Nat.toDigits 10 c.toNat
    '\\' :: 'u' :: (List.replicate (4 - digits.length) '0' ++ digits)

def escapeBlock : List Char → List Char
  | '"' :: '"' :: '"' :: rest => '\\' :: '"' :: '"' :: '"' :: escapeBlock rest
  | c :: rest => c :: escapeBlock rest
  | [] => []

/-- Whether a text is printed as a block string. -/
def isBlockText (cs : List Char) : Bool :=
  cs.contains '\n' ∧ cs.all fun c => c = '\n' ∨ c = '\r' ∨ c = '\t' ∨ isPrintable c

def blockLine (columns : Nat) (line : List Char) : List Char :=
  if Text.allBlank line then ['\n'] else blanks columns ++ escapeBlock line ++ ['\n']

/-- A text as a literal, in a line indented by `columns`. -/
def renderText (columns : Nat) (text : String) : String :=
  let cs := text.toList
  if isBlockText cs then
    String.ofList (['"', '"', '"', '\n'] ++ (Text.lines cs).flatMap (blockLine (columns + 2)) ++
      blanks columns ++ ['"', '"', '"'])
  else String.ofList ('"' :: cs.flatMap quotedChar ++ ['"'])

/-! ## Values, types and directives -/

mutual

/-- A value, in a line indented by `columns`. -/
def Value.render (columns : Nat) : Value → String
  | .variable name => "$" ++ name
  | .int value => toString value
  | .float value => value.positional
  | .string value => renderText columns value
  | .boolean true => "true"
  | .boolean false => "false"
  | .null => "null"
  | .enum name => name
  | .list items => "[" ++ String.intercalate ", " (Value.renderItems columns items) ++ "]"
  | .object fields =>
    "\x7b" ++ String.intercalate ", " (Value.renderFields columns fields) ++ "\x7d"

def Value.renderItems (columns : Nat) : List Value → List String
  | [] => []
  | item :: rest => item.render columns :: Value.renderItems columns rest

def Value.renderFields (columns : Nat) : List (String × Value) → List String
  | [] => []
  | (name, value) :: rest =>
    (name ++ ": " ++ value.render columns) :: Value.renderFields columns rest

end

/-- Arguments in parentheses; nothing if there are none. -/
def Arguments.render (columns : Nat) (arguments : Arguments) : String :=
  if arguments.isEmpty then ""
  else "(" ++ String.intercalate ", " (Value.renderFields columns arguments) ++ ")"

/-- Directives, each after a blank. -/
def Directive.renderAll (columns : Nat) (directives : List Directive) : String :=
  String.join (directives.map fun directive =>
    " @" ++ directive.name ++ directive.arguments.render columns)

def TypeRef.render : TypeRef → String
  | named name => name
  | list item => "[" ++ item.render ++ "]"
  | nonNull nullable => nullable.render ++ "!"

def VariableDefinition.render (declared : VariableDefinition) : String :=
  "$" ++ declared.name ++ ": " ++ declared.type.render ++
    match declared.default with
    | some value => " = " ++ value.render 0
    | none => ""

/-! ## Selections and definitions -/

mutual

/-- A selection on lines of its own, indented by `columns`. -/
def Selection.render (columns : Nat) : Selection → String
  | .field head selections =>
    let renamed := match head.label with
      | some label => label ++ ": "
      | none => ""
    String.ofList (blanks columns) ++ renamed ++ head.name ++ head.arguments.render columns ++
      Directive.renderAll columns head.directives ++
      if selections.isEmpty then "\n"
      else " \x7b\n" ++ Selection.renderAll (columns + 2) selections ++
        String.ofList (blanks columns) ++ "\x7d\n"
  | .spread fragment directives =>
    String.ofList (blanks columns) ++ "..." ++ fragment ++
      Directive.renderAll columns directives ++ "\n"
  | .inline condition directives selections =>
    let on := match condition with
      | some type => " on " ++ type
      | none => ""
    String.ofList (blanks columns) ++ "..." ++ on ++ Directive.renderAll columns directives ++
      " \x7b\n" ++ Selection.renderAll (columns + 2) selections ++
      String.ofList (blanks columns) ++ "\x7d\n"

def Selection.renderAll (columns : Nat) : List Selection → String
  | [] => ""
  | selection :: rest => selection.render columns ++ Selection.renderAll columns rest

end

/-- A selection set that ends a definition. -/
def Selection.renderBlock (selections : List Selection) : String :=
  "\x7b\n" ++ Selection.renderAll 2 selections ++ "\x7d\n"

/-- The variables of an operation. Subscriptions print them only after a name, and put nothing
between two. -/
def Operation.renderVariables (operation : Operation) : String :=
  if operation.variableDefinitions.isEmpty then ""
  else
    let printed := operation.variableDefinitions.map VariableDefinition.render
    match operation.kind, operation.name with
    | .subscription, none => ""
    | .subscription, some _ => "(" ++ String.join printed ++ ")"
    | _, _ => "(" ++ String.intercalate ", " printed ++ ")"

def Definition.render : Definition → String
  | .shorthand selections => Selection.renderBlock selections
  | .operation written =>
    let named := match written.name with
      | some name => " " ++ name
      | none => ""
    written.kind.keyword ++ named ++ written.renderVariables ++
      Directive.renderAll 0 written.directives ++ " " ++
      Selection.renderBlock written.selections
  | .fragment named =>
    "fragment " ++ named.name ++ " on " ++ named.condition ++
      Directive.renderAll 0 named.directives ++ " " ++
      Selection.renderBlock named.selections

/-- A document: its definitions with an empty line between two. -/
def Document.render (document : Document) : String :=
  String.intercalate "\n" (document.map Definition.render)

end Supergraph.GraphQL
