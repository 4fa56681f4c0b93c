/-!
What several formats share about text: blanks, lines, sizes in bytes, digits, and columns.
-/

namespace Supergraph.Text

/-- White space, as Unicode's property of that name has it. -/
def isBlank (c : Char) : Bool :=
  let code := c.toNat
  (9 ≤ code ∧ code ≤ 13) ∨ code = 0x20 ∨ code = 0x85 ∨ code = 0xA0 ∨ code = 0x1680 ∨
  (0x2000 ≤ code ∧ code ≤ 0x200A) ∨ code = 0x2028 ∨ code = 0x2029 ∨ code = 0x202F ∨
  code = 0x205F ∨ code = 0x3000

def allBlank (cs : List Char) : Bool := cs.all isBlank

/-- The lines of a text. A line ends with a line feed, perhaps after a carriage return; the end of
the text ends the last line, unless nothing follows the last line feed. -/
def lines : List Char → List (List Char)
  | [] => []
  | '\n' :: rest => [] :: lines rest
  | '\r' :: '\n' :: rest => [] :: lines rest
  | c :: rest =>
    match lines rest with
    | [] => [[c]]
    | line :: more => (c :: line) :: more

/-- The number of bytes that the characters take in UTF-8. -/
def byteCount (cs : List Char) : Nat := cs.foldl (fun n c => n + c.utf8Size) 0

/-- Drops characters until at least `count` bytes of UTF-8 are gone. -/
def dropBytes : Nat → List Char → List Char
  | 0, cs => cs
  | _ + 1, [] => []
  | count + 1, c :: rest => dropBytes (count + 1 - c.utf8Size) rest

/-- The number that a run of decimal digits denotes. -/
def ofDigits (digits : List Char) : Nat :=
  digits.foldl (fun n c => n * 10 + (c.toNat - 48)) 0

def hexDigit? (c : Char) : Option Nat :=
  if c.isDigit then some (c.toNat - 48)
  else if 'a' ≤ c ∧ c ≤ 'f' then some (c.toNat - 87)
  else if 'A' ≤ c ∧ c ≤ 'F' then some (c.toNat - 55)
  else none

/-- The value of a digit to a base of at most sixteen. -/
def digit? (base : Nat) (c : Char) : Option Nat := (hexDigit? c).filter (· < base)

/-- The number that digits denote to a base of at most sixteen; at least one is needed. -/
def natural? (base : Nat) (digits : List Char) : Option Nat := do
  guard (¬digits.isEmpty)
  let values ← digits.mapM (digit? base)
  return values.foldl (fun n d => n * base + d) 0

/-- A count of 64 bits: decimal digits, perhaps after a plus sign. -/
def count? (text : String) : Option Nat :=
  let digits := match text.toList with
    | '+' :: rest => rest
    | chars => chars
  (natural? 10 digits).filter (· < UInt64.size)

/-- The text followed by blanks up to a number of characters; a longer one stays as it is. -/
def padded (width : Nat) (text : String) : String :=
  text ++ String.ofList (List.replicate (width - text.length) ' ')

/-- The lines as one text, a line feed after each. -/
def ofLines (lines : List String) : String := String.join (lines.map (· ++ "\n"))

end Supergraph.Text
