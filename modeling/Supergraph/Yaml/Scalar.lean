import Supergraph.Text
import Supergraph.Yaml.Cursor

/-!
Scalars: plain and quoted ones, whose lines are folded, and block scalars, which keep their lines or
fold them.

Each reader starts after the indicator of its style and gives the text with the place after it. Its
loops take at least one character a turn but for the last, so one more turn than there are
characters is fuel enough.
-/

namespace Supergraph.Yaml

inductive ScalarStyle where
  | plain
  | quoted
  | literal
  | folded
  deriving DecidableEq, Inhabited, Repr

namespace Scalar

/-! ## Folding -/

/-- What the spaces between two words stand for: themselves within a line, a blank for one line
feed, and one line feed less than there are otherwise. Other breaks stay as they are. -/
def foldSpaces (spaces : List Char) : List Char :=
  match spaces.filter isBreak with
  | [] => spaces
  | ['\n'] => [' ']
  | '\n' :: more => more
  | breaks => breaks

/-- Whether a tab stands left of the column `indent` before the first word of a line, in spaces that
are read from the given column on; `none` while no line is broken yet. -/
def hasEarlyTab (indent : Nat) : Option Nat → List Char → Bool
  | _, [] => false
  | column, c :: rest =>
    if isBreak c then hasEarlyTab indent (some 0) rest
    else
      match column with
      | none => hasEarlyTab indent none rest
      | some column => (c = '\t' ∧ column < indent) || hasEarlyTab indent (some (column + 1)) rest

/-! ## Plain scalars -/

/-- The word of a plain scalar at the front of a text. In a flow collection it must not contain a
colon right before an indicator. -/
def plainWord? (inFlow : Bool) : List Char → Option (List Char)
  | [] => some []
  | c :: rest =>
    if isSpace c ∨ (c = ':' ∧ endsWord rest) then some []
    else if inFlow ∧ c = ':' ∧ rest.head?.any (fun d => d = '?' ∨ isFlowMark d) then none
    else if inFlow ∧ isFlowMark c then some []
    else (plainWord? inFlow rest).map (c :: ·)

/-- A text that was read, whether a line was broken after its last word, and the place after it. -/
structure Plain where
  text : List Char
  broken : Bool
  cursor : Cursor

/-- A plain scalar, or what is left of it after the given spaces. Outside of flow collections its
lines must reach the column `indent`. -/
def plain? (inFlow : Bool) (indent : Nat) : Nat → List Char → Cursor → Option Plain
  | 0, _, _ => none
  | fuel + 1, spaces, cursor => do
    let done : Plain := ⟨[], spaces.any isBreak, cursor⟩
    if cursor.atDocumentMark ∨ cursor.startsWith '#' then return done
    let word ← plainWord? inFlow cursor.rest
    if word.isEmpty then return done
    let text := foldSpaces spaces ++ word
    let cursor := cursor.advance word.length
    let spaces := cursor.run isSpace
    guard (¬hasEarlyTab indent none spaces)
    let cursor := cursor.advance spaces.length
    if ¬inFlow ∧ cursor.column < indent then return ⟨text, spaces.any isBreak, cursor⟩
    let more ← plain? inFlow indent fuel spaces cursor
    return { more with text := text ++ more.text }

/-! ## Quoted scalars -/

/-- A part of a quoted scalar: its text, how many characters it is written with, and whether a
backslash before the end of the line closes it. -/
structure Part where
  text : List Char
  width : Nat
  joined : Bool

/-- The part with one more character in front, which is written with `width` characters. -/
def Part.cons (c : Char) (width : Nat) (part : Part) : Part :=
  { part with text := c :: part.text, width := width + part.width }

/-- The word of a single-quoted scalar at the front of a text; a quote inside is written twice. -/
def singleWord : List Char → Part
  | '\'' :: '\'' :: rest => (singleWord rest).cons '\'' 2
  | c :: rest => if c = '\'' ∨ isSpace c then ⟨[], 0, false⟩ else (singleWord rest).cons c 1
  | [] => ⟨[], 0, false⟩

def escaped? : Char → Option Char
  | '0' => some '\x00'
  | 'a' => some '\x07'
  | 'b' => some '\x08'
  | 't' => some '\t'
  | '\t' => some '\t'
  | 'n' => some '\n'
  | 'v' => some '\x0b'
  | 'f' => some '\x0c'
  | 'r' => some '\r'
  | 'e' => some '\x1b'
  | ' ' => some ' '
  | '"' => some '"'
  | '/' => some '/'
  | '\\' => some '\\'
  | 'N' => some '\x85'
  | '_' => some '\xa0'
  | 'L' => some '\u2028'
  | 'P' => some '\u2029'
  | _ => none

/-- The character with the given code in hexadecimal. -/
def codePoint? (digits : List Char) : Option Char := do
  let code ← Text.natural? 16 digits
  guard (code < 0xD800 ∨ (0xE000 ≤ code ∧ code ≤ 0x10FFFF))
  return Char.ofNat code

/-- The word of a double-quoted scalar at the front of a text, its escapes decoded. -/
def doubleWord? : List Char → Option Part
  | '\\' :: 'x' :: a :: b :: rest => do
    let c ← codePoint? [a, b]
    return (← doubleWord? rest).cons c 4
  | '\\' :: 'u' :: a :: b :: c :: d :: rest => do
    let c ← codePoint? [a, b, c, d]
    return (← doubleWord? rest).cons c 6
  | '\\' :: 'U' :: a :: b :: c :: d :: e :: f :: g :: h :: rest => do
    let c ← codePoint? [a, b, c, d, e, f, g, h]
    return (← doubleWord? rest).cons c 10
  | '\\' :: c :: rest =>
    if isBreak c then some ⟨[], 2, true⟩
    else do
      let c ← escaped? c
      return (← doubleWord? rest).cons c 2
  | c :: rest =>
    if c = '"' ∨ isSpace c then some ⟨[], 0, false⟩
    else if c = '\\' then none
    else (doubleWord? rest).map (·.cons c 1)
  | [] => some ⟨[], 0, false⟩

/-- A quoted scalar, or what is left of it, up to its closing quote. No line of it may look like the
start or the end of a document. -/
def quoted? (double : Bool) : Nat → Cursor → Option (List Char × Cursor)
  | 0, _ => none
  | fuel + 1, cursor => do
    guard (¬cursor.atDocumentMark ∧ ¬cursor.atEnd)
    let word ← if double then doubleWord? cursor.rest else some (singleWord cursor.rest)
    let cursor := cursor.advance word.width
    if cursor.startsWith (if double then '"' else '\'') then return (word.text, cursor.next)
    let spaces := cursor.run isSpace
    let gap := if word.joined then spaces.filter isBreak else foldSpaces spaces
    let (more, cursor) ← quoted? double fuel (cursor.advance spaces.length)
    return (word.text ++ gap ++ more, cursor)

/-! ## Block scalars -/

/-- What happens to the breaks at the end of a block scalar: all are dropped, all but the first, or
none. -/
inductive Chomping where
  | strip
  | clip
  | keep
  deriving DecidableEq, Repr

def chomping? : Char → Option Chomping
  | '-' => some .strip
  | '+' => some .keep
  | _ => none

/-- Chomping and depth of indentation, as the header of a block scalar states them in any order. -/
def blockHeader? (marks : List Char) : Option (Chomping × Option Nat) := do
  let depth (c : Char) : Option Nat := (Text.digit? 10 c).filter (0 < ·)
  match marks with
  | [] => return (.clip, none)
  | [a] =>
    match chomping? a with
    | some chomping => return (chomping, none)
    | none => return (.clip, some (← depth a))
  | [a, b] =>
    match chomping? a with
    | some chomping => return (chomping, some (← depth b))
    | none => return (← chomping? b, some (← depth a))
  | _ => failure

/-- Breaks of empty lines, the column of the deepest of these lines and of the place after them, and
that place. -/
structure Margin where
  breaks : List Char
  deepest : Nat
  cursor : Cursor

/-- The empty lines up to the next line with text. Of their blanks, and of that line's, those left
of the column `indent` are passed over, or all if there is none. No tab may stand among them. -/
def margin? (indent : Option Nat) : Nat → Nat → Cursor → Option Margin
  | 0, _, _ => none
  | fuel + 1, deepest, cursor => do
    let blanks := (cursor.run (· = ' ')).length
    let passed := match indent with
      | some indent => min blanks (indent - cursor.column)
      | none => blanks
    let cursor := cursor.advance passed
    let deepest := max deepest cursor.column
    guard (¬(cursor.startsWith '\t' ∧ indent.all (cursor.column < ·)))
    match cursor.run isBreak with
    | [] => return ⟨[], deepest, cursor⟩
    | c :: _ =>
      let more ← margin? indent fuel deepest cursor.next
      return { more with breaks := c :: more.breaks }

/-- The lines of a block scalar that were read, the break after the last one, the breaks of the
empty lines after that, and the place after them. -/
structure Block where
  text : List Char
  final : List Char
  empty : List Char
  cursor : Cursor

/-- The lines of a block scalar after the break `final` and the empty lines of the breaks `empty`.
When folding, a line feed between two lines that do not start with a blank becomes a blank, or
vanishes if empty lines follow it. Between two lines there are fewer than `size` empty ones. -/
def blockLines? (fold : Bool) (size indent : Nat) :
    Nat → (blankBefore : Bool) → (final empty : List Char) → Cursor → Option Block
  | 0, _, _, _, _ => none
  | fuel + 1, blankBefore, final, empty, cursor => do
    if cursor.column ≠ indent ∨ cursor.atEnd then return ⟨[], final, empty, cursor⟩
    let blankNow := cursor.rest.head?.any isBlank
    let joint :=
      if fold ∧ final = ['\n'] ∧ ¬blankBefore ∧ ¬blankNow then (if empty.isEmpty then [' '] else [])
      else final
    let line := cursor.run fun c => !isBreak c
    let cursor := cursor.advance line.length
    let next ← margin? (some indent) size 0 cursor.next
    let more ←
      blockLines? fold size indent fuel blankNow (cursor.rest.take 1) next.breaks next.cursor
    return { more with text := joint ++ empty ++ line ++ more.text }

/-- A block scalar with fewer than `size` lines, in a block that starts at the column `parent`. -/
def block? (fold : Bool) (size : Nat) (parent : Option Nat) (cursor : Cursor) :
    Option (List Char × Cursor) := do
  let marks := cursor.run fun c => c = '+' ∨ c = '-' ∨ c.isDigit
  let (chomping, depth) ← blockHeader? marks
  let cursor ← (cursor.advance marks.length).lineEnd?
  let stated := depth.map fun depth => parent.getD 0 + depth
  let start ← margin? stated size 0 cursor
  let indent := stated.getD (max start.deepest ((parent.map (· + 1)).getD 1))
  let block ← blockLines? fold size indent size false [] start.breaks start.cursor
  let tail := match chomping with
    | .strip => []
    | .clip => block.final
    | .keep => block.final ++ block.empty
  return (block.text ++ tail, block.cursor)

end Scalar

end Supergraph.Yaml
