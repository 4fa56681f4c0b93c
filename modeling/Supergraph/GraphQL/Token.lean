import Supergraph.Text
import Supergraph.Double

/-!
Tokens of GraphQL text.

`Token.ofText?` splits a text into tokens and decodes numbers and strings on the way. It refuses
brackets nested deeper than `nestingLimit`, so whoever reads the tokens may recurse to that depth.
-/

namespace Supergraph.GraphQL

/-- A token: a punctuator of one character, the three dots, a name, or a literal. -/
inductive Token where
  | punctuator (c : Char)
  | dots
  | name (text : String)
  | int (value : Int)
  | float (value : Double)
  | string (value : String)
  deriving DecidableEq, Inhabited

namespace Token

/-- How deep parentheses, brackets and braces may nest. -/
def nestingLimit : Nat := 50

def startsName (c : Char) : Bool := c = '_' ∨ c.isAlpha

def continuesName (c : Char) : Bool := startsName c ∨ c.isDigit

mutual

/-- Drops what separates tokens: blanks, commas, byte order marks and comments. -/
def skipIgnored : List Char → List Char
  | [] => []
  | c :: rest =>
    if c = ' ' ∨ c = '\t' ∨ c = '\r' ∨ c = '\n' ∨ c = ',' ∨ c = '\uFEFF' then skipIgnored rest
    else if c = '#' then skipComment rest
    else c :: rest

def skipComment : List Char → List Char
  | [] => []
  | c :: rest => if c = '\r' ∨ c = '\n' then skipIgnored rest else skipComment rest

end

/-! ## Numbers -/

/-- Whether a number stops before the character. -/
def endsNumber (c : Char) : Bool :=
  [' ', '\n', '\r', '\t', ',', '#', '!', '$', ':', '=', '@', '|', '&', '(', ')', '[', ']', '{',
    '}'].contains c

/-- The parts before and after the last character that satisfies `p`. -/
def splitLast (p : Char → Bool) (cs : List Char) : Option (List Char × List Char) :=
  match cs.reverse.span (fun c => !p c) with
  | (_, []) => none
  | (after, _ :: before) => some (before.reverse, after.reverse)

/-- Sign and digits of an integer: no leading zero, except in zero itself. -/
def integer? (cs : List Char) : Option (Bool × List Char) :=
  let (negative, digits) := match cs with
    | '-' :: rest => (true, rest)
    | _ => (false, cs)
  if digits.isEmpty ∨ ¬digits.all Char.isDigit then none
  else if digits.head? = some '0' ∧ digits.length ≠ 1 then none
  else some (negative, digits)

/-- The exponent of a number: signed digits, or digits that start with one of `1` to `8`. -/
def exponent? (cs : List Char) : Option Int :=
  let value (sign : Int) (digits : List Char) : Option Int :=
    if digits.isEmpty ∨ ¬digits.all Char.isDigit then none else some (sign * Text.ofDigits digits)
  match cs with
  | '-' :: digits => value (-1) digits
  | '+' :: digits => value 1 digits
  | c :: _ => if '1' ≤ c ∧ c ≤ '8' then value 1 cs else none
  | [] => none

/-- The floating-point number with the given integer part, fraction digits and exponent. -/
def float? (whole fraction : List Char) (exponent : Int) : Option Token := do
  let (negative, digits) ← integer? whole
  guard (fraction.all Char.isDigit)
  let digits := Text.ofDigits (digits ++ fraction)
  return float ⟨negative, Double.roundDecimal digits (exponent - fraction.length)⟩

/-- A number. The last exponent mark and the last point divide it; without either it is an integer
of 64 bits. -/
def number? (cs : List Char) : Option Token :=
  match splitLast (fun c => c = 'e' ∨ c = 'E') cs with
  | some (mantissa, exponent) => do
    let exponent ← exponent? exponent
    match splitLast (· = '.') mantissa with
    | some (whole, fraction) =>
      guard (¬fraction.isEmpty)
      float? whole fraction exponent
    | none => float? mantissa [] exponent
  | none =>
    match splitLast (· = '.') cs with
    | some (whole, fraction) => do
      guard (¬fraction.isEmpty)
      float? whole fraction 0
    | none => do
      let (negative, digits) ← integer? cs
      let value : Int := if negative then -(Text.ofDigits digits : Int) else Text.ofDigits digits
      guard (Int64.minValue.toInt ≤ value ∧ value ≤ Int64.maxValue.toInt)
      return int value

/-! ## Strings -/

/-- The character with the given code in hexadecimal; a plus sign may stand before the digits. -/
def codePoint? (digits : List Char) : Option Char := do
  let digits := match digits with
    | '+' :: rest => rest
    | _ => digits
  let values ← digits.mapM Text.hexDigit?
  let code := values.foldl (fun n d => n * 16 + d) 0
  guard (code < 0xD800 ∨ 0xE000 ≤ code)
  return Char.ofNat code

/-- The character that a single letter stands for after a backslash. -/
def escaped? : Char → Option Char
  | '"' => some '"'
  | '\\' => some '\\'
  | '/' => some '/'
  | 'b' => some '\x10'
  | 'f' => some '\x0c'
  | 'n' => some '\n'
  | 'r' => some '\r'
  | 't' => some '\t'
  | _ => none

/-- The characters of a string up to its closing quote, and what follows. -/
def stringBody : List Char → Option (List Char × List Char)
  | '"' :: rest => some ([], rest)
  | '\n' :: _ => none
  | '\\' :: 'u' :: a :: b :: c :: d :: rest => do
    let char ← codePoint? [a, b, c, d]
    let (more, rest) ← stringBody rest
    return (char :: more, rest)
  | '\\' :: c :: rest => do
    let char ← escaped? c
    let (more, rest) ← stringBody rest
    return (char :: more, rest)
  | c :: rest => do
    let (more, rest) ← stringBody rest
    return (c :: more, rest)
  | [] => none

/-- The raw text of a block string up to its closing quotes, and what follows. Three quotes right
after a backslash do not close it. -/
def blockBody (previous : Char) : List Char → Option (List Char × List Char)
  | '"' :: '"' :: '"' :: rest =>
    if previous = '\\' then
      (blockBody '"' rest).map fun (more, rest) => ('"' :: '"' :: '"' :: more, rest)
    else some ([], rest)
  | c :: rest => (blockBody c rest).map fun (more, rest) => (c :: more, rest)
  | [] => none

def unescapeBlock : List Char → List Char
  | '\\' :: '"' :: '"' :: '"' :: rest => '"' :: '"' :: '"' :: unescapeBlock rest
  | c :: rest => c :: unescapeBlock rest
  | [] => []

/-- The value of a block string: its lines without the blank ones at both ends and without the
indentation that all lines but the first share. Blank lines do not count for it, and one that is
shorter stays as it is. -/
def blockValue (raw : List Char) : List Char :=
  let lines := Text.lines raw
  let indents := (lines.drop 1).filterMap fun line =>
    if Text.allBlank line then none else some (Text.byteCount (line.takeWhile Text.isBlank))
  let cut (line : List Char) : List Char :=
    match indents.min? with
    | some indent => if indent ≤ Text.byteCount line then Text.dropBytes indent line else line
    | none => line
  let dedented := match lines with
    | [] => []
    | first :: rest =>
      (Text.allBlank first, first) :: rest.map fun line => (Text.allBlank line, cut line)
  let kept := ((dedented.dropWhile (·.1)).reverse.dropWhile (·.1)).reverse
  List.intercalate ['\n'] (kept.map fun (_, line) => unescapeBlock line)

/-! ## Token sequences -/

/-- The first token of a text that starts with one, and what follows it. -/
def first? : List Char → Option (Token × List Char)
  | '.' :: '.' :: '.' :: rest => some (dots, rest)
  | '"' :: '"' :: '"' :: rest =>
    (blockBody '"' rest).map fun (raw, rest) => (string (String.ofList (blockValue raw)), rest)
  | '"' :: rest => (stringBody rest).map fun (cs, rest) => (string (String.ofList cs), rest)
  | c :: rest =>
    if startsName c then
      some (name (String.ofList (c :: rest.takeWhile continuesName)), rest.dropWhile continuesName)
    else if c = '-' ∨ c.isDigit then
      (number? (c :: rest.takeWhile fun c => !endsNumber c)).map fun token =>
        (token, rest.dropWhile fun c => !endsNumber c)
    else if ['(', ')', '[', ']', '{', '}', '!', '$', ':', '=', '@', '|', '&'].contains c then
      some (punctuator c, rest)
    else none
  | [] => none

/-- How many levels are left to open after a token. -/
def levelsAfter? (token : Token) (left : Nat) : Option Nat :=
  match token with
  | punctuator c =>
    if ['(', '[', '{'].contains c then (if left = 0 then none else some (left - 1))
    else if [')', ']', '}'].contains c then some (left + 1)
    else some left
  | _ => some left

/-- The tokens of a text, when `left` more levels may be opened. Every token takes a character, so
the length of the text is fuel enough. -/
def sequence? : Nat → Nat → List Char → Option (List Token)
  | 0, _, cs => if (skipIgnored cs).isEmpty then some [] else none
  | fuel + 1, left, cs =>
    match skipIgnored cs with
    | [] => some []
    | cs => do
      let (token, rest) ← first? cs
      let left ← levelsAfter? token left
      let tokens ← sequence? fuel left rest
      return token :: tokens

def ofText? (text : String) : Option (List Token) :=
  let cs := text.toList
  sequence? cs.length nestingLimit cs

end Token

end Supergraph.GraphQL
