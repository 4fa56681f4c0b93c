import Supergraph.Yaml.Token
import Supergraph.Yaml.Document

/-!
Reading a YAML text as one document.

Readers take tokens from the front of a list and decide each choice by the next token. A node takes
at least one token, so the number of tokens bounds both how many items a collection has and how deep
nodes nest.
-/

namespace Supergraph.Yaml

/-- How far a document is read: the tokens left, what tag handles stand for, the slot of each anchor
name in use, and the nodes with a slot in the order of their beginnings. -/
structure Reading where
  tokens : List Token
  handles : List (String × Octets)
  names : List (String × Nat)
  slots : List (Nat × Node)

/-- A reader takes tokens, or fails. -/
abbrev Reader := StateT Reading Option

namespace Reader

def peek : Reader (Option Token) := do return (← get).tokens.head?

def take : Reader Unit := do
  modify fun reading => { reading with tokens := reading.tokens.tail }

/-- Whether the next token is the given one, which is then taken. -/
def accept (token : Token) : Reader Bool := do
  if (← peek) = some token then
    take
    return true
  else return false

def expect (token : Token) : Reader Unit := do guard (← accept token)

def nextIn (tokens : List Token) : Reader Bool := do
  return (← peek).any tokens.contains

def nothing : Node := .scalar .plain none ""

/-- A node, or nothing if one of the given tokens is next. -/
def unless? (tokens : List Token) (node : Reader Node) : Reader Node := do
  if ← nextIn tokens then return nothing else node

/-! ## Properties -/

def resolveTag (handle : String) (suffix : Octets) : Reader Tag := do
  if handle.isEmpty then return ⟨suffix⟩
  else
    match (← get).handles.lookup handle with
    | some replacement => return ⟨replacement ++ suffix⟩
    | none => failure

def anchor : Reader (Option String) := do
  match ← peek with
  | some (.anchor name) =>
    take
    return some name
  | _ => return none

def tag : Reader (Option Tag) := do
  match ← peek with
  | some (.tag handle suffix) =>
    take
    return some (← resolveTag handle suffix)
  | _ => return none

/-- An anchor and a tag in any order, each of which may be missing. -/
def properties : Reader (Option String × Option Tag) := do
  match ← anchor with
  | some name => return (some name, ← tag)
  | none =>
    let found ← tag
    return (← anchor, found)

/-- Gives a slot to a name, for the node that begins here, and gives the node's place among all that
have a slot. The names in use number the slot, so the slot of a name that is used again goes to the
next new name, too. -/
def nameSlot (name : String) : Reader Nat := do
  let reading ← get
  let slot := reading.names.length
  let others := reading.names.filter fun (other, _) => other ≠ name
  set { reading with
    names := (name, slot) :: others
    slots := reading.slots ++ [(slot, nothing)] }
  return reading.slots.length

/-- Puts a node into the slot that was given at its beginning. -/
def fillSlot (place : Nat) (node : Node) : Reader Unit :=
  modify fun reading =>
    { reading with slots := reading.slots.modify place fun (slot, _) => (slot, node) }

/-! ## Collections -/

def blockItems (node : Reader Node) : Nat → Reader (List Node)
  | 0 => failure
  | fuel + 1 => do
    if ← accept .blockEnd then return []
    expect .blockEntry
    let item ← unless? [.blockEntry, .blockEnd] node
    return item :: (← blockItems node fuel)

/-- The items of a block sequence that is not indented against the key in front of it. -/
def flushItems (node : Reader Node) : Nat → Reader (List Node)
  | 0 => failure
  | fuel + 1 => do
    if ← accept .blockEntry then
      let item ← unless? [.blockEntry, .key, .value, .blockEnd] node
      return item :: (← flushItems node fuel)
    else return []

/-- The entries of a block mapping, up to its end. -/
def blockEntries (node : Reader Node) : Nat → Reader (List (Node × Node))
  | 0 => failure
  | fuel + 1 => do
    if ← accept .blockEnd then return []
    expect .key
    let part := unless? [.key, .value, .blockEnd] node
    let key ← part
    let value ← if ← accept .value then part else pure nothing
    return (key, value) :: (← blockEntries node fuel)

/-- A value after the key of an entry in a flow collection that the token `close` ends. -/
def flowValue (close : Token) (node : Reader Node) : Reader Node := do
  if ← accept .value then unless? [.flowEntry, close] node else return nothing

/-- A mapping of one entry in a flow sequence, whose key token is taken. If no key follows, the next
token is passed over. -/
def flowPair (node : Reader Node) : Reader Node := do
  let key ←
    if ← nextIn [.value, .flowEntry, .flowSequenceEnd] then
      take
      pure nothing
    else node
  return .mapping [(key, ← flowValue .flowSequenceEnd node)]

def flowItems (node : Reader Node) : Nat → Reader (List Node)
  | 0 => failure
  | fuel + 1 => do
    if ← accept .flowSequenceEnd then return []
    let item ← if ← accept .key then flowPair node else node
    if ← accept .flowEntry then return item :: (← flowItems node fuel)
    expect .flowSequenceEnd
    return [item]

def flowEntries (node : Reader Node) : Nat → Reader (List (Node × Node))
  | 0 => failure
  | fuel + 1 => do
    if ← accept .flowMappingEnd then return []
    let entry ←
      if ← accept .key then
        let key ← unless? [.value, .flowEntry, .flowMappingEnd] node
        pure (key, ← flowValue .flowMappingEnd node)
      else pure (← node, nothing)
    if ← accept .flowEntry then return entry :: (← flowEntries node fuel)
    expect .flowMappingEnd
    return [entry]

/-! ## Nodes -/

/-- Where a node may stand: in a flow collection, in a block, or in a block mapping, where a
sequence need not be indented. -/
inductive Context where
  | flow
  | block
  | entry
  deriving DecidableEq, Repr

/-- The content of a node with the given tag; a node with properties may have none. `node` reads the
nodes inside, of which there are fewer than `count`. -/
def content (node : Context → Reader Node) (count : Nat) (context : Context) (tag : Option Tag)
    (hasProperties : Bool) : Reader Node := do
  match ← peek with
  | some (.scalar style text) =>
    take
    return .scalar style tag text
  | some .flowSequence =>
    take
    return .sequence (← flowItems (node .flow) count)
  | some .flowMapping =>
    take
    return .mapping (← flowEntries (node .flow) count)
  | next =>
    if next = some .blockEntry ∧ context = .entry then
      return .sequence (← flushItems (node .block) count)
    else if next = some .blockSequence ∧ context ≠ .flow then
      take
      return .sequence (← blockItems (node .block) count)
    else if next = some .blockMapping ∧ context ≠ .flow then
      take
      return .mapping (← blockEntries (node .entry) count)
    else if hasProperties then return .scalar .plain tag ""
    else failure

/-- A node that nests no deeper than `depth`, with fewer than `count` items in any collection. -/
def node (count : Nat) : Nat → Context → Reader Node
  | 0, _ => failure
  | depth + 1, context => do
    match ← peek with
    | some (.reference name) =>
      take
      match (← get).names.lookup name with
      | some slot => return .reference slot
      | none => failure
    | _ =>
      let (anchor, tag) ← properties
      let place ← anchor.mapM nameSlot
      let node ← content (node count depth) count context tag (anchor.isSome ∨ tag.isSome)
      if let some place := place then fillSlot place node
      return node

/-! ## Documents -/

/-- The directives in front of a document: at most one version, which is 1.1 or 1.2, and at most one
meaning for each handle. -/
def directives (versioned : Bool) : Nat → Reader Unit
  | 0 => failure
  | fuel + 1 => do
    match ← peek with
    | some (.version major minor) =>
      take
      guard (¬versioned ∧ major = 1 ∧ (minor = 1 ∨ minor = 2))
      directives true fuel
    | some (.handle name replacement) =>
      take
      let handles := (← get).handles
      guard (handles.lookup name).isNone
      modify fun reading => { reading with handles := (name, replacement) :: handles }
      directives versioned fuel
    | _ => return ()

/-- Takes ends of documents, at most `fuel` of them. -/
def documentEnds : Nat → Reader Unit
  | 0 => return ()
  | fuel + 1 => do
    if ← accept .documentEnd then documentEnds fuel

/-- The tag handles that need no directive. -/
def standardHandles : List (String × Octets) :=
  [("!", Tag.bare.octets), ("!!", (Tag.core "").octets)]

/-- The root of the only document in the tokens. Directives need a mark between them and it. -/
def document : Reader Node := do
  let count := (← get).tokens.length + 1
  guard (← peek).isSome
  directives false count
  let declared := (← get).handles
  modify fun reading => { reading with handles := declared ++ standardHandles }
  let undirected := (← get).tokens.length + 1 = count
  let marked ← accept .documentStart
  guard (marked ∨ undirected)
  let next ← peek
  let root ←
    if marked ∧ next.all [.documentStart, .documentEnd].contains then pure nothing
    else node count count .block
  documentEnds count
  guard (← peek).isNone
  return root

end Reader

/-- Reads a text that has exactly one document. -/
def Document.ofText? (text : String) : Option Document := do
  let tokens ← Token.ofText? text
  let (root, reading) ← Reader.document ⟨tokens, [], [], []⟩
  return ⟨root, reading.slots.reverse⟩

end Supergraph.Yaml
