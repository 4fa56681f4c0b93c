import Supergraph.NameMap
import Supergraph.Double
import Supergraph.Text

/-!
JSON values. Whole numbers are kept exact and apart from the floating-point ones; the members of an
object are listed in increasing order of their names, each name once.
-/

namespace Supergraph

inductive Json where
  | null
  | bool (value : Bool)
  | int (value : Int)
  | float (value : Double)
  | string (value : String)
  | array (items : List Json)
  | object (members : List (String × Json))
  deriving BEq, Inhabited

namespace Json

/-- The object with the given members, a later one replacing an earlier one of its name. -/
def ofMembers (members : List (String × Json)) : Json :=
  .object (members.foldl (fun sorted (name, value) => Entries.insert name value sorted) [])

def isNull : Json → Bool
  | null => true
  | _ => false

theorem isNull_iff {value : Json} : value.isNull = true ↔ value = null := by
  cases value <;> simp [isNull]

def member? (name : String) : Json → Option Json
  | object members => Entries.find? name members
  | _ => none

def string? : Json → Option String
  | string value => some value
  | _ => none

/-- Walks down a path: names select members of objects, indexes items of arrays. What counts as an
index is `index`'s to say. -/
def walk? (index : String → Option Nat) (value : Json) : List String → Option Json
  | [] => some value
  | segment :: rest =>
    match value with
    | object members => (Entries.find? segment members).bind fun next => walk? index next rest
    | array items => (index segment).bind fun i => items[i]?.bind fun next => walk? index next rest
    | _ => none

/-- The value at a path of member names and indexes. -/
def at? (value : Json) (path : List String) : Option Json := walk? Text.count? value path

/-- One segment of a JSON Pointer with its escapes undone: a slash is written `~1`, a tilde `~0`. -/
def unescapeSegment : List Char → List Char
  | '~' :: '1' :: rest => '/' :: unescapeSegment rest
  | '~' :: '0' :: rest => '~' :: unescapeSegment rest
  | c :: rest => c :: unescapeSegment rest
  | [] => []

/-- An index in a JSON Pointer has neither a sign nor a leading zero. -/
def pointerIndex? (segment : String) : Option Nat :=
  match segment.toList with
  | '+' :: _ => none
  | '0' :: _ :: _ => none
  | _ => Text.count? segment

/-- The value at a JSON Pointer: empty for the whole value, else segments that each follow a slash. Callers
find the parent of a further field in an earlier value by one. -/
def pointer? (value : Json) (pointer : String) : Option Json :=
  match pointer.splitOn "/" with
  | [""] => some value
  | "" :: segments =>
    walk? pointerIndex? value (segments.map fun s => String.ofList (unescapeSegment s.toList))
  | _ => none

end Json

end Supergraph
