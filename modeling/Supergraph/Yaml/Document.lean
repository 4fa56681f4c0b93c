import Supergraph.Text
import Supergraph.Yaml.Scalar
import Supergraph.Yaml.Tag

/-!
YAML documents: a node with the nodes that it refers to, and what scalars stand for.

A reference names a slot, not a node, so a document may refer to a node from within that node. No
slot holds a reference, so one look-up resolves it. A node may be referred to any number of times;
whoever reads a document keeps to `Document.referenceLimit`, so that a small document cannot stand
for one of any size.
-/

namespace Supergraph.Yaml

/-- A node. Tags matter on scalars only, so collections have none. -/
inductive Node where
  | scalar (style : ScalarStyle) (tag : Option Tag) (text : String)
  | sequence (items : List Node)
  | mapping (entries : List (Node × Node))
  | reference (slot : Nat)
  deriving Inhabited

/-- A document: its root, and nodes with their slots. Of several nodes for one slot the first
counts. -/
structure Document where
  root : Node
  slots : List (Nat × Node)
  deriving Inhabited

/-- The node that a node stands for. -/
def Document.resolve? (document : Document) : Node → Option Node
  | .reference slot => document.slots.lookup slot
  | node => some node

mutual

/-- The size of a node: one for a scalar or a reference; two for a collection, and the sizes of what
it holds. -/
def Node.size : Node → Nat
  | .scalar _ _ _ => 1
  | .reference _ => 1
  | .sequence items => Node.sizeOfItems items + 2
  | .mapping entries => Node.sizeOfEntries entries + 2

def Node.sizeOfItems : List Node → Nat
  | [] => 0
  | item :: rest => item.size + Node.sizeOfItems rest

def Node.sizeOfEntries : List (Node × Node) → Nat
  | [] => 0
  | (key, value) :: rest => key.size + value.size + Node.sizeOfEntries rest

end

/-- How many references may be followed while a document is read. -/
def Document.referenceLimit (document : Document) : Nat := 100 * document.root.size

/-- The whole number of 64 bits that a text denotes: decimal without leading zeros, hexadecimal,
octal or binary, perhaps after a plus sign. -/
def natural? (text : String) : Option Nat :=
  let digits := match text.toList with
    | '+' :: rest => rest
    | chars => chars
  let value := match digits with
    | '0' :: 'x' :: rest => Text.natural? 16 rest
    | '0' :: 'o' :: rest => Text.natural? 8 rest
    | '0' :: 'b' :: rest => Text.natural? 2 rest
    | '0' :: _ :: _ => none
    | _ => Text.natural? 10 digits
  value.filter (· < UInt64.size)

def truth? (text : String) : Option Bool :=
  if ["true", "True", "TRUE"].contains text then some true
  else if ["false", "False", "FALSE"].contains text then some false
  else none

def isNull (text : String) : Bool := ["null", "Null", "NULL", "~"].contains text

namespace Node

def text? : Node → Option String
  | scalar _ _ text => some text
  | _ => none

/-- Whether the node is a scalar that is written as nothing at all. -/
def isBlank : Node → Bool
  | scalar .plain _ text => text.isEmpty
  | _ => false

/-- The text of a scalar that may stand for a value of the core type `name`: a plain one, or a
literal one with its tag. -/
def typedText? (name : String) : Node → Option String
  | scalar .plain _ text => some text
  | scalar .literal (some tag) text => if tag = Tag.core name then some text else none
  | _ => none

def natural? (node : Node) : Option Nat := (node.typedText? "int").bind Yaml.natural?

def truth? (node : Node) : Option Bool := (node.typedText? "bool").bind Yaml.truth?

/-- Whether a scalar stands for no value; `none` if its tag says so and its text does not. -/
def absent? : Node → Option Bool
  | scalar .plain none text => some (text.isEmpty || isNull text)
  | scalar .plain (some tag) text =>
    if tag = Tag.core "null" then (if isNull text then some true else none) else some false
  | _ => some false

/-- The name of one of several choices: a tag in front of no value, or the text of a scalar whose
tag names no choice. -/
def choice? : Node → Option String
  | scalar style tag text =>
    match tag.bind Tag.localName? with
    | some name => if style = .plain ∧ (text.isEmpty ∨ isNull text) then some name else none
    | none => some text
  | _ => none

end Node

end Supergraph.Yaml
