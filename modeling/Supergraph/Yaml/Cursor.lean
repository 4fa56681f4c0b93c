/-!
A place in a YAML text, and the classes of characters that the text is read by.

A text is read with its lines ended in one way (`unifyBreaks`), so three characters break lines: the
line feed and Unicode's line and paragraph separators.
-/

namespace Supergraph.Yaml

/-- Whether a text may contain the character: no control characters but the tab and those that break
lines, and no noncharacters at the end of the basic plane. -/
def isAllowed (c : Char) : Bool :=
  let code := c.toNat
  code = 0x09 ∨ code = 0x0A ∨ code = 0x0D ∨ (0x20 ≤ code ∧ code ≤ 0x7E) ∨ code = 0x85 ∨
  (0xA0 ≤ code ∧ code ≤ 0xFFFD) ∨ 0x10000 ≤ code

/-- The text with every line that ends in a carriage return, perhaps before a line feed, or in the
character for a next line, ended in a line feed. -/
def unifyBreaks : List Char → List Char
  | [] => []
  | '\r' :: '\n' :: rest => '\n' :: unifyBreaks rest
  | c :: rest => (if c = '\r' ∨ c = '\x85' then '\n' else c) :: unifyBreaks rest

def isBreak (c : Char) : Bool := c = '\n' ∨ c = '\u2028' ∨ c = '\u2029'

/-- Whether the character separates words within a line. -/
def isBlank (c : Char) : Bool := c = ' ' ∨ c = '\t'

def isSpace (c : Char) : Bool := isBlank c ∨ isBreak c

/-- Whether names of anchors, directives and tag handles may contain the character. -/
def isWordChar (c : Char) : Bool := c.isAlphanum ∨ c = '_' ∨ c = '-'

/-- Whether the character opens, closes or divides a flow collection. -/
def isFlowMark (c : Char) : Bool := [',', '[', ']', '{', '}'].contains c

/-- Whether a word ends before the characters: with a space, or because none is left. -/
def endsWord (cs : List Char) : Bool := cs.head?.all isSpace

/-- A place in a text: what is left of the text, and how many octets of UTF-8, lines and columns lie
before it. -/
structure Cursor where
  rest : List Char
  index : Nat
  line : Nat
  column : Nat
  deriving Inhabited

namespace Cursor

def start (cs : List Char) : Cursor := ⟨cs, 0, 0, 0⟩

def next (cursor : Cursor) : Cursor :=
  match cursor.rest with
  | [] => cursor
  | c :: rest =>
    let index := cursor.index + c.utf8Size
    if isBreak c then ⟨rest, index, cursor.line + 1, 0⟩
    else ⟨rest, index, cursor.line, cursor.column + 1⟩

def advance (cursor : Cursor) : Nat → Cursor
  | 0 => cursor
  | count + 1 => cursor.next.advance count

/-- The next characters as long as they satisfy `p`. -/
def run (cursor : Cursor) (p : Char → Bool) : List Char := cursor.rest.takeWhile p

def skip (cursor : Cursor) (p : Char → Bool) : Cursor := cursor.advance (cursor.run p).length

def startsWith (cursor : Cursor) (c : Char) : Bool := cursor.rest.head? = some c

def atEnd (cursor : Cursor) : Bool := cursor.rest.isEmpty

/-- Whether three of the character stand alone at the start of a line. -/
def atMark (cursor : Cursor) (c : Char) : Bool :=
  cursor.column = 0 ∧ cursor.rest.take 3 = [c, c, c] ∧ endsWord (cursor.rest.drop 3)

/-- Whether a line starts here that begins or ends a document. -/
def atDocumentMark (cursor : Cursor) : Bool := cursor.atMark '-' ∨ cursor.atMark '.'

/-- The place after blanks and a comment, if the line ends there. -/
def lineEnd? (cursor : Cursor) : Option Cursor :=
  let cursor := cursor.skip isBlank
  let cursor := if cursor.startsWith '#' then cursor.skip (fun c => !isBreak c) else cursor
  if cursor.rest.head?.all isBreak then some cursor.next else none

end Cursor

end Supergraph.Yaml
