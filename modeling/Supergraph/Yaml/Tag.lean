import Supergraph.Text
import Supergraph.Yaml.Cursor

/-!
Tags of nodes, and the words that they are written with.

A tag is a sequence of octets: a percent sign starts an octet in hexadecimal, and the octets that
are written so look like UTF-8 but need not be it. A zero octet ends a tag, whatever follows it.
-/

namespace Supergraph.Yaml

abbrev Octets := List UInt8

namespace Octets

def ofText (text : String) : Octets := text.toList.flatMap String.utf8EncodeChar

/-- The text that octets encode, if they are UTF-8. -/
def text? (octets : Octets) : Option String := String.fromUTF8? ⟨octets.toArray⟩

def beforeZero (octets : Octets) : Octets := octets.takeWhile (· ≠ 0)

end Octets

structure Tag where
  octets : Octets
  deriving DecidableEq, Inhabited, Repr

namespace Tag

def ofText (text : String) : Tag := ⟨Octets.ofText text⟩

def core (name : String) : Tag := ofText ("tag:yaml.org,2002:" ++ name)

/-- The tag that is an exclamation mark alone. -/
def bare : Tag := ofText "!"

/-- What follows the exclamation mark of a tag that starts with one, if it is a text. -/
def localName? (tag : Tag) : Option String :=
  match tag.octets with
  | 0x21 :: name => Octets.text? name
  | _ => none

/-! ## Written tags -/

def isTagChar (c : Char) : Bool :=
  isWordChar c ∨ [';', '/', '?', ':', '@', '&', '=', '+', '$', '.', '!', '~', '*', '\'', '(',
    ')'].contains c

def isUriChar (c : Char) : Bool := isTagChar c ∨ [',', '[', ']'].contains c

/-- How many octets follow the first one of a character in UTF-8. -/
def trailing? (octet : Nat) : Option Nat :=
  if octet < 0x80 then some 0
  else if octet / 32 = 6 then some 1
  else if octet / 16 = 14 then some 2
  else if octet / 8 = 30 then some 3
  else none

/-- The octets of a tag, or of what a handle stands for, at the front of a text, and how many
characters they are written with. Of the character before, `left` octets are still to come. -/
def written? (isPart : Char → Bool) : (left : Nat) → List Char → Option (Octets × Nat)
  | left, '%' :: a :: b :: rest => do
    let octet := (← Text.hexDigit? a) * 16 + (← Text.hexDigit? b)
    let left ←
      if left = 0 then trailing? octet
      else if octet / 64 = 2 then some (left - 1)
      else none
    let (more, width) ← written? isPart left rest
    return (octet.toUInt8 :: more, width + 3)
  | left, c :: rest =>
    if left ≠ 0 ∨ c = '%' then none
    else if isPart c then
      (written? isPart 0 rest).map fun (more, width) =>
        (String.utf8EncodeChar c ++ more, width + 1)
    else some ([], 0)
  | left, [] => if left = 0 then some ([], 0) else none

/-- The octets of a tag, or of what a handle stands for, up to a zero octet, with the place after
all that is written. At least `least` characters are needed. -/
def octets? (isPart : Char → Bool) (least : Nat) (cursor : Cursor) : Option (Octets × Cursor) := do
  let (octets, width) ← written? isPart 0 cursor.rest
  guard (least ≤ width)
  return (octets.beforeZero, cursor.advance width)

/-- The handle at the front of a text: an exclamation mark, perhaps followed by word characters and
another one. -/
def handleAt (cs : List Char) : List Char :=
  match cs with
  | '!' :: rest =>
    let word := rest.takeWhile isWordChar
    '!' :: word ++ (if (rest.drop word.length).head? = some '!' then ['!'] else [])
  | _ => []

end Tag

end Supergraph.Yaml
