import Supergraph.Synthesis
import Supergraph.Transport

/-!
Resolution: how the value of one field comes about.

A field that is not delegated is read from its parent. A delegated field either settles without its
service, or asks it exactly one request; `Resolution` says which, and what the answer to the request
is made into.

Correspondence (gateway ↔ Lean):
  `DelegationError`               ↔ `ResolutionError`
  `ResolveInfo`                   ↔ `FieldSite`
  `Dispatcher.resolve`            ↔ `Topology.resolve`
  `resolve_root`                  ↔ `resolveRoot`
  `resolve_reference`             ↔ `resolveEntity`, `resolveReference`, `resolveReferences`
  `resolve_contributed`           ↔ `resolveContributed`
  `send`, what its error becomes  ↔ `answered`
  `typename_of`, `representation` ↔ `typename?`, `representation?`
  `extract`                       ↔ `valueAt`
-/

namespace Supergraph

open GraphQL

/-- Why a field has no value. -/
inductive ResolutionError where
  | unknownService (name : String)
  | protocol (service : String) (error : TransportError)
  | application (service : String) (errors : List ResponseError)
  | malformedResponse (service path : String)
  | missingRepresentation (type field : String)
  | synthesis (error : SynthesisError)

def ResolutionError.message : ResolutionError → String
  | unknownService name => "no service named '" ++ name ++ "' is registered"
  | protocol service error => "request to service '" ++ service ++ "' failed: " ++ error.message
  | application service errors =>
    "service '" ++ service ++ "' returned errors: " ++ ResponseError.joinMessages errors
  | malformedResponse service path =>
    "response of service '" ++ service ++ "' has no value at '" ++ path ++ "'"
  | missingRepresentation type field =>
    "'" ++ type ++ "." ++ field ++ "' has no object to build an entity representation from"
  | synthesis error => error.message

/-- A field to be resolved: where it stands in the client's operation, and on which type. -/
structure FieldSite where
  parentType : String
  field : Field
  client : ClientOperation

/-- A field settled without its service, or the one request that it takes. -/
inductive Resolution where
  | settled (result : Except ResolutionError Json)
  | request (service : String) (request : Request)
      (finish : Except TransportError Response → Except ResolutionError Json)

/-! ## Reading parents and responses -/

def typename? (value : Json) : Option String := (value.member? typenameField).bind Json.string?

/-- The representation of an entity: its object, with a concrete type where it names none. -/
def representation? (type : String) : Json → Option Json
  | .object members =>
    match Entries.find? typenameField members with
    | some _ => some (.object members)
    | none => some (.object (Entries.insert typenameField (.string type) members))
  | _ => none

/-- The value at a path of a response. Data comes before errors, errors before their absence. -/
def valueAt (service : String) (path : List String) (response : Response) :
    Except ResolutionError Json :=
  match response.dataAt? path with
  | some value =>
    if !value.isNull then .ok value
    else if response.errors.isEmpty then .ok .null
    else .error (.application service response.errors)
  | none =>
    if response.errors.isEmpty then
      .error (.malformedResponse service (String.intercalate "." path))
    else .error (.application service response.errors)

def answered (service : String) (outcome : Except TransportError Response) :
    Except ResolutionError Response :=
  match outcome with
  | .ok response => .ok response
  | .error error => .error (.protocol service error)

/-- Puts entities at the places of a list that are not null, in order. -/
def reassemble : List Json → List Json → List Json
  | [], _ => []
  | .null :: items, entities => .null :: reassemble items entities
  | _ :: items, entity :: entities => entity :: reassemble items entities
  | _ :: items, [] => .null :: reassemble items []

/-- The entities of a response to a list of representations: as many as were asked for. -/
def entities (service : String) (count : Nat) (response : Response) :
    Except ResolutionError (List Json) := do
  match ← valueAt service [entitiesField] response with
  | .array items =>
    if items.length = count then return items
    else throw (.malformedResponse service entitiesField)
  | _ => throw (.malformedResponse service entitiesField)

/-! ## The kinds of delegation -/

namespace FieldSite

def fieldName (site : FieldSite) : String := site.field.name

def responseKey (site : FieldSite) : String := site.field.responseKey

def representation (site : FieldSite) (type : String) (value : Json) :
    Except ResolutionError Json :=
  match representation? type value with
  | some object => .ok object
  | none => .error (.missingRepresentation site.parentType site.fieldName)

end FieldSite

/-- A resolution that sends an operation, if the operation can be written. -/
def Resolution.ofOperation (service : String)
    (synthesized : Except SynthesisError ServiceOperation)
    (finish : Response → Except ResolutionError Json) : Resolution :=
  match synthesized with
  | .error error => .settled (.error (.synthesis error))
  | .ok operation =>
    .request service operation.toRequest fun outcome => (answered service outcome).bind finish

/-- A resolution that needs a value first. -/
def Resolution.after {α : Type} (value : Except ResolutionError α) (next : α → Resolution) :
    Resolution :=
  match value with
  | .ok value => next value
  | .error error => .settled (.error error)

/-- The types of a list of entities, each once, in the order of their first mention. An entity that
names no type has the given one. -/
def concreteTypes (returnType : String) (items : List Json) : List String :=
  (items.map fun item => (typename? item).getD returnType).foldl KeyTable.appendNew []

namespace Topology

def pruner (topology : Topology) (service : Service) (site : FieldSite) : Pruner :=
  ⟨topology.schema, topology.index, service, site.client⟩

def resolveRoot (topology : Topology) (service : Service) (site : FieldSite) : Resolution :=
  .ofOperation service.name
    ((topology.pruner service site).askRootField site.client.kind site.field)
    (valueAt service.name [site.responseKey])

def resolveReferences (topology : Topology) (service : Service) (site : FieldSite)
    (returnType : String) (items : List Json) : Resolution :=
  let present := items.filter fun item => !item.isNull
  .after (present.mapM fun item =>
      site.representation ((typename? item).getD returnType) item) fun representations =>
    if representations.isEmpty then .settled (.ok (.array items))
    else
      .ofOperation service.name
        ((topology.pruner service site).askEntities site.field
          (concreteTypes returnType present) representations)
        fun response => do
          let found ← entities service.name representations.length response
          return .array (reassemble items found)

def resolveReference (topology : Topology) (service : Service) (site : FieldSite)
    (returnType : String) (stub : Json) : Resolution :=
  let type := (typename? stub).getD returnType
  .after (site.representation type stub) fun representation =>
    .ofOperation service.name
      ((topology.pruner service site).askEntities site.field [type] [representation])
      (valueAt service.name [entitiesField, "0"])

/-- A field that an extension adds to its parent. -/
def resolveContributed (topology : Topology) (service : Service) (site : FieldSite)
    (parent : Json) : Resolution :=
  let type := (typename? parent).getD site.parentType
  .after (site.representation type parent) fun representation =>
    .ofOperation service.name
      ((topology.pruner service site).askEntityField site.field site.parentType type
        representation)
      (valueAt service.name [entitiesField, "0", site.responseKey])

/-- A field that is a reference, as its parent has it. -/
def resolveEntity (topology : Topology) (service : Service) (site : FieldSite) (parent : Json) :
    Resolution :=
  let returnType := ((topology.schema.field? site.parentType site.fieldName).map
    SchemaField.returnType).getD ""
  match (parent.member? site.responseKey).getD .null with
  | .null => .settled (.ok .null)
  | .array items => topology.resolveReferences service site returnType items
  | stub => topology.resolveReference service site returnType stub

def resolve (topology : Topology) (site : FieldSite) (parent : Json) : Resolution :=
  match topology.schema.delegation? site.parentType site.fieldName with
  | none => .settled (.ok ((parent.member? site.responseKey).getD .null))
  | some delegation =>
    match topology.registry.find? delegation.service with
    | none => .settled (.error (.unknownService delegation.service))
    | some service =>
      match delegation.kind with
      | .rootDelegate => topology.resolveRoot service site
      | .entityReference => topology.resolveEntity service site parent
      | .fieldResolver => topology.resolveContributed service site parent

end Topology

end Supergraph
