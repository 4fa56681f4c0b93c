import Supergraph.Json

/-!
Reading JSON text.

Text is first read into a `RawJson`, which keeps every member of an object in the order of the text,
repeated names included, and marks the leaves that are well formed but stand for no value: a number
beyond the finite range, a string with half a surrogate pair. `RawJson.value?` then gives the value,
down to a limited depth. A reader that skips part of a text needs no value for that part, so a fault
there goes unnoticed.
-/

namespace Supergraph

/-- JSON text that is well formed, but may hold parts that stand for no value. -/
inductive RawJson where
  | leaf (value : Option Json)
  | array (items : List RawJson)
  | object (members : List (Option String × RawJson))
  deriving Inhabited

namespace RawJson

mutual

/-- The value, if no more than `depth` arrays and objects enclose any part of it. -/
def value? (depth : Nat) : RawJson → Option Json
  | leaf value => value
  | array items =>
    match depth with
    | 0 => none
    | depth + 1 => (itemValues? depth items).map .array
  | object members =>
    match depth with
    | 0 => none
    | depth + 1 => (memberValues? depth members).map .ofMembers

def itemValues? (depth : Nat) : List RawJson → Option (List Json)
  | [] => some []
  | item :: rest => do
    let value ← item.value? depth
    let values ← itemValues? depth rest
    return value :: values

def memberValues? (depth : Nat) : List (Option String × RawJson) → Option (List (String × Json))
  | [] => some []
  | (name, raw) :: rest => do
    let name ← name
    let value ← raw.value? depth
    let values ← memberValues? depth rest
    return (name, value) :: values

end

mutual

/-- A value as the text that would be read back to it. -/
def ofJson : Json → RawJson
  | .array items => array (ofItems items)
  | .object members => object (ofMembers members)
  | value => leaf (some value)

def ofItems : List Json → List RawJson
  | [] => []
  | item :: rest => ofJson item :: ofItems rest

def ofMembers : List (String × Json) → List (Option String × RawJson)
  | [] => []
  | (name, value) :: rest => (some name, ofJson value) :: ofMembers rest

end

/-! ## Leaves -/

def skipBlank (cs : List Char) : List Char :=
  cs.dropWhile fun c => c = ' ' ∨ c = '\n' ∨ c = '\t' ∨ c = '\r'

/-- A part of a string: a character, or an escaped unit of sixteen bits. -/
inductive Piece where
  | char (c : Char)
  | unit (value : Nat)

/-- The pieces of a string up to its closing quote, and what follows. Control characters must be
escaped. -/
def pieces : List Char → Option (List Piece × List Char)
  | '"' :: rest => some ([], rest)
  | '\\' :: 'u' :: a :: b :: c :: d :: rest => do
    let a ← Text.hexDigit? a
    let b ← Text.hexDigit? b
    let c ← Text.hexDigit? c
    let d ← Text.hexDigit? d
    let (more, rest) ← pieces rest
    return (.unit (a * 4096 + b * 256 + c * 16 + d) :: more, rest)
  | '\\' :: c :: rest => do
    let plain ← match c with
      | '"' => some '"'
      | '\\' => some '\\'
      | '/' => some '/'
      | 'b' => some '\x08'
      | 'f' => some '\x0c'
      | 'n' => some '\n'
      | 'r' => some '\r'
      | 't' => some '\t'
      | _ => none
    let (more, rest) ← pieces rest
    return (.char plain :: more, rest)
  | c :: rest =>
    if c.toNat < 32 then none
    else do
      let (more, rest) ← pieces rest
      return (.char c :: more, rest)
  | [] => none

/-- The characters of a string. A high surrogate needs a low one right after it. -/
def joinPieces : List Piece → Option (List Char)
  | [] => some []
  | .char c :: rest => (joinPieces rest).map (c :: ·)
  | .unit high :: .unit low :: rest =>
    if 0xD800 ≤ high ∧ high < 0xDC00 then
      if 0xDC00 ≤ low ∧ low < 0xE000 then
        (joinPieces rest).map (Char.ofNat (0x10000 + (high - 0xD800) * 1024 + (low - 0xDC00)) :: ·)
      else none
    else if 0xDC00 ≤ high ∧ high < 0xE000 then none
    else (joinPieces (.unit low :: rest)).map (Char.ofNat high :: ·)
  | .unit value :: rest =>
    if 0xD800 ≤ value ∧ value < 0xE000 then none
    else (joinPieces rest).map (Char.ofNat value :: ·)

/-- Appends digits to a number as long as it fits 64 bits. Gives the number and how many
digits were left out: the first that does not fit, and all after it. -/
def appendDigits (value : Nat) : List Char → Nat × Nat
  | [] => (value, 0)
  | c :: rest =>
    let next := value * 10 + (c.toNat - 48)
    if next < UInt64.size then appendDigits next rest else (value, rest.length + 1)

/-- The floating-point number with the given digits before and after the point. The digits that fit
a whole number of 64 bits count; that number is rounded once, and once more when scaled. -/
def floating (negative : Bool) (whole fraction : List Char) (exponent : Int) : Option Json := do
  let (start, wholeLeft) := appendDigits 0 whole
  let (digits, fractionLeft) := appendDigits start fraction
  let scale : Int := exponent + wholeLeft - (fraction.length - fractionLeft : Nat)
  let clamped := max Int32.minValue.toInt (min Int32.maxValue.toInt scale)
  let magnitude ← Double.scale (Double.roundQuotient digits 1) clamped
  return .float ⟨negative, magnitude⟩

/-- The value of a number: whole numbers that fit 64 bits stay exact, all others are
floating-point. -/
def numberValue (negative : Bool) (whole fraction : List Char) (exponent : Option Int) :
    Option Json :=
  if fraction.isEmpty ∧ exponent.isNone then
    let value := Text.ofDigits whole
    if negative then
      if value = 0 ∨ -value < Int64.minValue.toInt then floating true whole [] 0
      else some (.int (-value))
    else if value < UInt64.size then some (.int value)
    else floating false whole [] 0
  else floating negative whole fraction (exponent.getD 0)

/-- A number: no leading zeros, digits on both sides of a point, digits in an exponent. -/
def number (cs : List Char) : Option (RawJson × List Char) := do
  let (negative, cs) := match cs with
    | '-' :: rest => (true, rest)
    | _ => (false, cs)
  let whole := cs.takeWhile Char.isDigit
  let cs := cs.dropWhile Char.isDigit
  guard (whole = ['0'] ∨ ¬whole.isEmpty ∧ whole.head? ≠ some '0')
  let (fraction, cs) ← match cs with
    | '.' :: rest =>
      let digits := rest.takeWhile Char.isDigit
      if digits.isEmpty then none else some (digits, rest.dropWhile Char.isDigit)
    | _ => some ([], cs)
  let (exponent, cs) ← match cs with
    | e :: rest =>
      if e = 'e' ∨ e = 'E' then
        let (sign, rest) : Int × List Char := match rest with
          | '-' :: rest => (-1, rest)
          | '+' :: rest => (1, rest)
          | _ => (1, rest)
        let digits := rest.takeWhile Char.isDigit
        if digits.isEmpty then none
        else some (some (sign * (Text.ofDigits digits : Int)), rest.dropWhile Char.isDigit)
      else some (none, cs)
    | [] => some (none, cs)
  return (leaf (numberValue negative whole fraction exponent), cs)

/-! ## Structure -/

/-- A string and what follows its closing quote; the opening one is read already. -/
def text (cs : List Char) : Option (Option String × List Char) :=
  (pieces cs).map fun (parts, rest) => ((joinPieces parts).map String.ofList, rest)

mutual

/-- A value. Every call takes a character off the text, so its length is fuel enough. -/
def readValue : Nat → List Char → Option (RawJson × List Char)
  | 0, _ => none
  | fuel + 1, cs =>
    match skipBlank cs with
    | 'n' :: 'u' :: 'l' :: 'l' :: rest => some (leaf (some .null), rest)
    | 't' :: 'r' :: 'u' :: 'e' :: rest => some (leaf (some (.bool true)), rest)
    | 'f' :: 'a' :: 'l' :: 's' :: 'e' :: rest => some (leaf (some (.bool false)), rest)
    | '"' :: rest => (text rest).map fun (s, rest) => (leaf (s.map .string), rest)
    | '[' :: rest =>
      match skipBlank rest with
      | ']' :: rest => some (array [], rest)
      | rest => (readItems fuel rest).map fun (items, rest) => (array items, rest)
    | '{' :: rest =>
      match skipBlank rest with
      | '}' :: rest => some (object [], rest)
      | rest => (readMembers fuel rest).map fun (members, rest) => (object members, rest)
    | rest => number rest

def readItems : Nat → List Char → Option (List RawJson × List Char)
  | 0, _ => none
  | fuel + 1, cs => do
    let (item, rest) ← readValue fuel cs
    match skipBlank rest with
    | ',' :: rest =>
      let (items, rest) ← readItems fuel rest
      return (item :: items, rest)
    | ']' :: rest => return ([item], rest)
    | _ => none

def readMembers : Nat → List Char → Option (List (Option String × RawJson) × List Char)
  | 0, _ => none
  | fuel + 1, cs => do
    match skipBlank cs with
    | '"' :: rest =>
      let (name, rest) ← text rest
      match skipBlank rest with
      | ':' :: rest =>
        let (value, rest) ← readValue fuel rest
        match skipBlank rest with
        | ',' :: rest =>
          let (members, rest) ← readMembers fuel rest
          return ((name, value) :: members, rest)
        | '}' :: rest => return ([(name, value)], rest)
        | _ => none
      | _ => none
    | _ => none

end

def read? (source : String) : Option RawJson := do
  let cs := source.toList
  let (value, rest) ← readValue (2 * cs.length + 2) cs
  guard (skipBlank rest).isEmpty
  return value

end RawJson

namespace Json

/-- How many arrays and objects may enclose a part of a text. -/
def depthLimit : Nat := 127

def read? (source : String) : Option Json :=
  (RawJson.read? source).bind (·.value? depthLimit)

end Json

end Supergraph
