import Supergraph.Yaml.Scalar
import Supergraph.Yaml.Tag

/-!
Tokens of a YAML text.

Indentation and keys are made explicit: a collection written with indentation has a token at both
ends, and a key has a token in front of it. Where a key may begin is remembered as a `KeyPlace`;
when a colon shows that it was one, the tokens for it are inserted there.
-/

namespace Supergraph.Yaml

inductive Token where
  | version (major minor : Nat)
  | handle (name : String) (replacement : Octets)
  | documentStart
  | documentEnd
  | blockSequence
  | blockMapping
  | blockEnd
  | flowSequence
  | flowSequenceEnd
  | flowMapping
  | flowMappingEnd
  | blockEntry
  | flowEntry
  | key
  | value
  | reference (name : String)
  | anchor (name : String)
  | tag (handle : String) (suffix : Octets)
  | scalar (style : ScalarStyle) (text : String)
  deriving DecidableEq, Inhabited, Repr

/-! ## Names, tags and directives -/

namespace Token

/-- A tag, whose exclamation mark is next. -/
def tag? (inFlow : Bool) (cursor : Cursor) : Option (Token × Cursor) := do
  let (token, cursor) ←
    if cursor.rest.tail.head? = some '<' then do
      let (suffix, cursor) ← Tag.octets? Tag.isUriChar 1 (cursor.advance 2)
      guard (cursor.startsWith '>')
      pure (tag "" suffix, cursor.next)
    else do
      let handle := Tag.handleAt cursor.rest
      let named := handle.length ≠ 1 ∧ handle.getLast? = some '!'
      let (suffix, cursor) ←
        Tag.octets? Tag.isTagChar (if named then 1 else 0) (cursor.advance handle.length)
      if named then pure (tag (String.ofList handle) suffix, cursor)
      else
        let suffix := Octets.ofText (String.ofList handle.tail) ++ suffix
        if suffix.isEmpty then pure (tag "" Tag.bare.octets, cursor)
        else pure (tag "!" suffix, cursor)
  guard (endsWord cursor.rest ∨ (inFlow ∧ cursor.startsWith ','))
  return (token, cursor)

/-- The name of an anchor or of a reference to one, whose indicator is next. -/
def name? (cursor : Cursor) : Option (String × Cursor) := do
  let cursor := cursor.next
  let word := cursor.run isWordChar
  let cursor := cursor.advance word.length
  let closes := cursor.rest.head?.any ['?', ':', ',', ']', '}', '%', '@', '`'].contains
  guard (¬word.isEmpty ∧ (endsWord cursor.rest ∨ closes))
  return (String.ofList word, cursor)

/-- A part of a version number: one to nine digits. -/
def versionPart? (cursor : Cursor) : Option (Nat × Cursor) := do
  let digits := cursor.run Char.isDigit
  guard (digits.length ≤ 9)
  return (← Text.natural? 10 digits, cursor.advance digits.length)

/-- A directive, whose percent sign is next: the version of the language, or what the handle of a
tag stands for. -/
def directive? (cursor : Cursor) : Option (Token × Cursor) := do
  let cursor := cursor.next
  let word := cursor.run isWordChar
  let cursor := cursor.advance word.length
  guard (endsWord cursor.rest)
  let cursor := cursor.skip isBlank
  if word = "YAML".toList then
    let (major, cursor) ← versionPart? cursor
    guard (cursor.startsWith '.')
    let (minor, cursor) ← versionPart? cursor.next
    return (version major minor, ← cursor.lineEnd?)
  else if word = "TAG".toList then
    let name := Tag.handleAt cursor.rest
    guard (¬name.isEmpty ∧ name.getLast? = some '!')
    let cursor := cursor.advance name.length
    guard (cursor.rest.head?.any isBlank)
    let (replacement, cursor) ← Tag.octets? Tag.isUriChar 1 (cursor.skip isBlank)
    guard (endsWord cursor.rest)
    return (handle (String.ofList name) replacement, ← cursor.lineEnd?)
  else failure

end Token

/-! ## Reading tokens -/

/-- A place where a key may have begun: after how many tokens, where in the text, and whether a key
must begin there because the line starts where the keys of its mapping do. -/
structure KeyPlace where
  tokens : Nat
  index : Nat
  line : Nat
  column : Nat
  required : Bool

/-- How far a text of `size` characters is read: the tokens so far; the columns of the open block
collections, the innermost first; where a key may have begun, here and in the flow collections
around this place; and whether a key may begin here. -/
structure Lexer where
  size : Nat
  cursor : Cursor
  tokens : Array Token
  blocks : List Nat
  place : Option KeyPlace
  outer : List (Option KeyPlace)
  keyAllowed : Bool

namespace Lexer

def start (cs : List Char) : Lexer :=
  ⟨cs.length, Cursor.start cs, #[], [], none, [], true⟩

def inFlow (lexer : Lexer) : Bool := ¬lexer.outer.isEmpty

def push (lexer : Lexer) (token : Token) : Lexer :=
  { lexer with tokens := lexer.tokens.push token }

def insert (lexer : Lexer) (count : Nat) (token : Token) : Lexer :=
  { lexer with tokens := lexer.tokens.insertIdxIfInBounds count token }

/-- Closes the block collections right of the given column, or all of them. A flow collection hides
those around it. -/
def closeBlocks (lexer : Lexer) (column : Option Nat) : Lexer :=
  if lexer.inFlow then lexer
  else
    let closed := lexer.blocks.takeWhile fun block => column.all (· < block)
    { lexer with
      tokens := closed.foldl (fun tokens _ => tokens.push .blockEnd) lexer.tokens
      blocks := lexer.blocks.drop closed.length }

/-- Opens a block collection at a column right of the innermost one, after the first `count`
tokens. Within a flow collection none is opened. -/
def openBlock (lexer : Lexer) (column count : Nat) (token : Token) : Lexer :=
  if lexer.inFlow ∨ lexer.blocks.head?.any (column ≤ ·) then lexer
  else { lexer.insert count token with blocks := column :: lexer.blocks }

/-- Gives up the place where a key may have begun. -/
def dropPlace? (lexer : Lexer) : Option Lexer := do
  guard (¬lexer.place.any (·.required))
  return { lexer with place := none }

/-- Remembers this place as one where a key may begin. -/
def savePlace? (lexer : Lexer) : Option Lexer := do
  if ¬lexer.keyAllowed then return lexer
  let lexer ← lexer.dropPlace?
  let cursor := lexer.cursor
  let required := ¬lexer.inFlow ∧ lexer.blocks.head? = some cursor.column
  let place : KeyPlace :=
    ⟨lexer.tokens.size, cursor.index, cursor.line, cursor.column, required⟩
  return { lexer with place := some place }

/-- A place, unless a key from there would not fit on its line or in 1024 octets. -/
def live? (cursor : Cursor) : Option KeyPlace → Option (Option KeyPlace)
  | none => some none
  | some place =>
    if cursor.line ≤ place.line ∧ cursor.index ≤ place.index + 1024 then some (some place)
    else if place.required then none
    else some none

def dropDistant? (lexer : Lexer) : Option Lexer := do
  let place ← live? lexer.cursor lexer.place
  let outer ← lexer.outer.mapM (live? lexer.cursor)
  return { lexer with place, outer }

/-- Passes over spaces, comments and byte order marks, of which each line may start with one, of
what is left of the text. After a break outside of flow collections a key may begin; where one may
begin, a tab is not passed over, and no token starts with it. -/
def skipSpaces (inComment : Bool) : List Char → Lexer → Lexer
  | [], lexer => lexer
  | c :: rest, lexer =>
    let passed := { lexer with cursor := lexer.cursor.next }
    if isBreak c then
      skipSpaces false rest { passed with keyAllowed := lexer.keyAllowed ∨ ¬lexer.inFlow }
    else if inComment ∨ c = '#' then skipSpaces true rest passed
    else if c = ' ' ∨ (c = '\t' ∧ (lexer.inFlow ∨ ¬lexer.keyAllowed)) ∨
        (c = '\uFEFF' ∧ lexer.cursor.column = 0) then
      skipSpaces false rest passed
    else lexer

/-- A directive or a mark between documents, which ends all blocks. -/
def mark? (lexer : Lexer) (token : Token) (cursor : Cursor) : Option Lexer := do
  let lexer ← (lexer.closeBlocks none).dropPlace?
  return { lexer.push token with cursor, keyAllowed := false }

def openFlow? (lexer : Lexer) (token : Token) : Option Lexer := do
  let lexer ← lexer.savePlace?
  return { lexer.push token with
    cursor := lexer.cursor.next
    place := none
    outer := lexer.place :: lexer.outer
    keyAllowed := true }

def closeFlow? (lexer : Lexer) (token : Token) : Option Lexer := do
  let lexer ← lexer.dropPlace?
  return { lexer.push token with
    cursor := lexer.cursor.next
    place := lexer.outer.head?.join
    outer := lexer.outer.tail
    keyAllowed := false }

/-- An indicator that is followed by an item, of a block unless a flow collection is open. -/
def entry? (lexer : Lexer) (block : Option Token) (token : Token) (keyAllowed : Bool) :
    Option Lexer := do
  let lexer ← match block, lexer.inFlow with
    | some block, false => do
      guard lexer.keyAllowed
      pure (lexer.openBlock lexer.cursor.column lexer.tokens.size block)
    | _, _ => pure lexer
  let lexer ← lexer.dropPlace?
  return { lexer.push token with cursor := lexer.cursor.next, keyAllowed }

/-- The colon between a key and its value. -/
def value? (lexer : Lexer) : Option Lexer := do
  match lexer.place with
  | some place =>
    let keyed := lexer.insert place.tokens .key
    let keyed := keyed.openBlock place.column place.tokens .blockMapping
    return { keyed.push .value with
      cursor := lexer.cursor.next, place := none, keyAllowed := false }
  | none => lexer.entry? (some .blockMapping) .value (¬lexer.inFlow)

/-- A token that may be a key or stand in front of one. -/
def keyed? (lexer : Lexer) (token : Option (Token × Cursor)) : Option Lexer := do
  let lexer ← lexer.savePlace?
  let (token, cursor) ← token
  return { lexer.push token with cursor, keyAllowed := false }

/-- A reference to an anchor, or an anchor. -/
def named? (lexer : Lexer) (token : String → Token) : Option Lexer :=
  lexer.keyed? ((Token.name? lexer.cursor).map fun (name, cursor) => (token name, cursor))

def quoted? (lexer : Lexer) (double : Bool) : Option Lexer :=
  lexer.keyed? ((Scalar.quoted? double (lexer.size + 1) lexer.cursor.next).map fun (text, cursor) =>
    (.scalar .quoted (String.ofList text), cursor))

def block? (lexer : Lexer) (style : ScalarStyle) : Option Lexer := do
  let lexer ← lexer.dropPlace?
  let (text, cursor) ←
    Scalar.block? (style = .folded) (lexer.size + 1) lexer.blocks.head? lexer.cursor.next
  return { lexer.push (.scalar style (String.ofList text)) with cursor, keyAllowed := true }

/-- A plain scalar. A key may begin after it if a line is broken there. -/
def plain? (lexer : Lexer) : Option Lexer := do
  let lexer ← lexer.savePlace?
  let indent := (lexer.blocks.head?.map (· + 1)).getD 0
  let plain ← Scalar.plain? lexer.inFlow indent (lexer.size + 1) [] lexer.cursor
  return { lexer.push (.scalar .plain (String.ofList plain.text)) with
    cursor := plain.cursor, keyAllowed := plain.broken }

/-- Whether a plain scalar may start with the character `c` when `rest` follows. -/
def startsPlain (inFlow : Bool) (c : Char) (rest : List Char) : Bool :=
  if c = '-' then ¬rest.head?.any isBlank
  else if c = '?' ∨ c = ':' then ¬inFlow ∧ ¬endsWord rest
  else ¬['#', '&', '*', '!', '|', '>', '\'', '"', '%', '@', '`'].contains c ∧ ¬isFlowMark c ∧
    ¬isSpace c

/-- The next token of a text that has one. -/
def next? (lexer : Lexer) : Option Lexer :=
  let cursor := lexer.cursor
  let rest := cursor.rest.tail
  let inFlow := lexer.inFlow
  match cursor.rest.head? with
  | none => none
  | some c =>
    if cursor.column = 0 ∧ c = '%' then
      (Token.directive? cursor).bind fun (token, cursor) => lexer.mark? token cursor
    else if cursor.atMark '-' then lexer.mark? .documentStart (cursor.advance 3)
    else if cursor.atMark '.' then lexer.mark? .documentEnd (cursor.advance 3)
    else if c = '[' then lexer.openFlow? .flowSequence
    else if c = '{' then lexer.openFlow? .flowMapping
    else if c = ']' then lexer.closeFlow? .flowSequenceEnd
    else if c = '}' then lexer.closeFlow? .flowMappingEnd
    else if c = ',' then lexer.entry? none .flowEntry true
    else if c = '-' ∧ endsWord rest then lexer.entry? (some .blockSequence) .blockEntry true
    else if c = '?' ∧ (inFlow ∨ endsWord rest) then
      lexer.entry? (some .blockMapping) .key (¬inFlow)
    else if c = ':' ∧ (inFlow ∨ endsWord rest) then lexer.value?
    else if c = '*' then lexer.named? .reference
    else if c = '&' then lexer.named? .anchor
    else if c = '!' then lexer.keyed? (Token.tag? inFlow cursor)
    else if c = '|' ∧ ¬inFlow then lexer.block? .literal
    else if c = '>' ∧ ¬inFlow then lexer.block? .folded
    else if c = '\'' then lexer.quoted? false
    else if c = '"' then lexer.quoted? true
    else if startsPlain inFlow c rest then lexer.plain?
    else none

/-- The tokens up to the end of the text. Every token takes a character. -/
def tokens? : Nat → Lexer → Option (List Token)
  | 0, _ => none
  | fuel + 1, lexer => do
    let lexer ← (lexer.skipSpaces false lexer.cursor.rest).dropDistant?
    let lexer := lexer.closeBlocks (some lexer.cursor.column)
    if lexer.cursor.atEnd then
      let lexer ← (lexer.closeBlocks none).dropPlace?
      return lexer.tokens.toList
    else tokens? fuel (← lexer.next?)

end Lexer

def Token.ofText? (text : String) : Option (List Token) :=
  let cs := text.toList
  if cs.all isAllowed then
    let lexer := Lexer.start (unifyBreaks cs)
    lexer.tokens? (lexer.size + 1)
  else none

end Supergraph.Yaml
