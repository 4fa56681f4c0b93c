import Supergraph.Json.Reader

/-!
Responses of services: data, and errors beside or in place of it.

A response and an error are written as objects, or as arrays of their parts in a fixed order where
trailing parts may be missing. Members of other names are passed over unread; a part that is given
twice makes the text unusable.

Correspondence (gateway ↔ Lean):
  `GraphQLResponse`, `GraphQLError` ↔ `Response`, `ResponseError`
  `data_at`                         ↔ `dataAt?`
  `join_messages`, `format_errors`  ↔ `ResponseError.joinMessages`
-/

namespace Supergraph

structure ResponseError where
  message : String
  path : Option (List Json)
  extensions : Option (List (String × Json))
  deriving BEq, Inhabited

/-- The response of a service. No data and `null` as data are the same. -/
structure Response where
  data : Option Json
  errors : List ResponseError
  deriving BEq, Inhabited

namespace RawJson

/-- The members of an object that have one of the names, unless one of them occurs twice or a name
stands for no text. -/
def knownMembers? (names : List String) :
    List (Option String × RawJson) → Option (List (String × RawJson))
  | [] => some []
  | (name, value) :: rest => do
    let name ← name
    let known ← knownMembers? names rest
    if names.contains name then
      guard (known.all fun (other, _) => other ≠ name)
      return (name, value) :: known
    else return known

/-- The parts of a record written as an object or as an array in the order of the names. -/
def parts? (names : List String) : RawJson → Option (List (String × RawJson))
  | object members => knownMembers? names members
  | array items => do
    guard (items.length ≤ names.length)
    return names.zip items
  | leaf _ => none

/-- A part that may be missing or `null`. -/
def part? (depth : Nat) (parts : List (String × RawJson)) (name : String) : Option (Option Json) :=
  match parts.lookup name with
  | none => some none
  | some raw =>
    match raw.value? depth with
    | none => none
    | some .null => some none
    | some value => some (some value)

end RawJson

namespace ResponseError

def partNames : List String := ["message", "path", "extensions"]

/-- Reads an error of a response; `depth` arrays and objects may enclose a part of it. -/
def ofRaw? (depth : Nat) (raw : RawJson) : Option ResponseError := do
  let parts ← raw.parts? partNames
  let message ← match ← RawJson.part? depth parts "message" with
    | some (.string message) => some message
    | _ => none
  let path ← match ← RawJson.part? depth parts "path" with
    | none => some none
    | some (.array items) => some (some items)
    | some _ => none
  let extensions ← match ← RawJson.part? depth parts "extensions" with
    | none => some none
    | some (.object members) => some (some members)
    | some _ => none
  return ⟨message, path, extensions⟩

/-- The error as an object; what it does not have is left out. -/
def toJson (error : ResponseError) : Json :=
  .ofMembers ([("message", .string error.message)] ++
    (error.path.map fun items => ("path", .array items)).toList ++
    (error.extensions.map fun members => ("extensions", .object members)).toList)

/-- The messages of errors, with a semicolon between two. -/
def joinMessages (errors : List ResponseError) : String :=
  String.intercalate "; " (errors.map (·.message))

end ResponseError

namespace Response

def partNames : List String := ["data", "errors"]

/-- Reads a response. Its own structure counts towards the depth that a text may have. -/
def ofRaw? (raw : RawJson) : Option Response := do
  let depth := Json.depthLimit
  let parts ← raw.parts? partNames
  let data ← RawJson.part? (depth - 1) parts "data"
  let errors ← match parts.lookup "errors" with
    | none => some []
    | some (.array items) => items.mapM (ResponseError.ofRaw? (depth - 3))
    | some _ => none
  return ⟨data, errors⟩

def ofText? (text : String) : Option Response := (RawJson.read? text).bind ofRaw?

def toJson (response : Response) : Json :=
  .ofMembers [("data", response.data.getD .null),
    ("errors", .array (response.errors.map ResponseError.toJson))]

def dataAt? (response : Response) (path : List String) : Option Json :=
  response.data.bind fun data => data.at? path

end Response

end Supergraph
