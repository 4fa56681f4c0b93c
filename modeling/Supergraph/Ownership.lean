import Supergraph.Service

/-!
Ownership: which service defines a type, a field of a root type, or a field added by extension.

`Ownership.ofServices` enters the services in order. Two services that claim the same thing are a
conflict under the policy `failFast`; under `lastWins` the later one replaces the earlier one.

Correspondence (gateway ↔ Lean):
  `OwnershipIndex.build`                       ↔ `Ownership.ofServicesBy`
  its loops over type map, extensions and keys ↔ `claimType`, `claimExtension`, `addKeys`
  `claim_field`                                ↔ `ClaimTable.claim`
  `Owner`                                      ↔ `Owner`
  `owner`, `owner_of`, `is_split`              ↔ `owner?`, `ownerOf?`, `isSplit`
  `root_field_owner`, `contributor_of`         ↔ `rootFieldOwner?`, `contributorOf?`
  `entity_keys`, `owned_types`                 ↔ `keysOf`, `ownedTypes`
-/

namespace Supergraph

/-- What happens when two services claim the same type or field. -/
inductive CollisionPolicy where
  | failFast
  | lastWins
  deriving DecidableEq, Inhabited, Repr

/-- Two services that claim the same type or field. -/
inductive OwnershipError where
  | conflict (type first second : String)
  | fieldConflict (type field first second : String)
  deriving DecidableEq, Repr

def OwnershipError.message : OwnershipError → String
  | conflict type first second =>
    "type '" ++ type ++ "' is declared by both '" ++ first ++ "' and '" ++ second ++ "'"
  | fieldConflict type field first second =>
    "field '" ++ type ++ "." ++ field ++ "' is declared by both '" ++ first ++ "' and '" ++
      second ++ "'"

/-- The owner of a type. A root type has none of its own: its fields are owned one by one. -/
inductive Owner where
  | split
  | service (name : String)
  deriving DecidableEq, Repr

/-- Fields with the services that claimed them. -/
abbrev ClaimTable := NameMap (NameMap String)

namespace ClaimTable

def claimant? (table : ClaimTable) (type field : String) : Option String :=
  (table.find? type).bind fun fields => fields.find? field

def claim (policy : CollisionPolicy) (service type : String) (table : ClaimTable) (field : String) :
    Except OwnershipError ClaimTable :=
  let claims := (table.find? type).getD .empty
  let claimed := table.insert type (claims.insert field service)
  match policy, claims.find? field with
  | .failFast, some first =>
    if first = service then .ok claimed else .error (.fieldConflict type field first service)
  | _, _ => .ok claimed

end ClaimTable

/-- In which order the fields of a type are taken: each of them once. -/
structure FieldOrder where
  list : String → NameSet → List String
  perm : ∀ type fields, (list type fields).Perm fields.names

def FieldOrder.increasing : FieldOrder := ⟨fun _ fields => fields.names, fun _ _ => .refl _⟩

/-- Who owns what among the services. -/
structure Ownership where
  owners : NameMap Owner
  rootFields : ClaimTable
  contributors : ClaimTable
  keys : KeyTable
  deriving DecidableEq

namespace Ownership

/-- Ownership without any service: the root types are split. -/
def initial : Ownership :=
  ⟨.ofList [("Query", .split), ("Mutation", .split), ("Subscription", .split)],
    .empty, .empty, .empty⟩

/-- Enters a type that a service defines, with its fields if it is a root type. -/
def claimType (order : FieldOrder) (policy : CollisionPolicy) (service : String) (index : Ownership)
    (declared : String × NameSet) : Except OwnershipError Ownership := do
  let (type, fields) := declared
  if isRootType type then
    let rootFields ←
      (order.list type fields).foldlM (ClaimTable.claim policy service type) index.rootFields
    return { index with rootFields }
  else
    let claimed := { index with owners := index.owners.insert type (.service service) }
    match policy, index.owners.find? type with
    | .failFast, some (.service first) =>
      if first = service then return claimed else throw (.conflict type first service)
    | _, _ => return claimed

/-- Enters the fields that a service adds to a type. -/
def claimExtension (order : FieldOrder) (policy : CollisionPolicy) (service : String) (index : Ownership)
    (contributed : String × NameSet) : Except OwnershipError Ownership := do
  let (type, fields) := contributed
  let contributors ←
    (order.list type fields).foldlM (ClaimTable.claim policy service type) index.contributors
  return { index with contributors }

def addKeys (index : Ownership) (entry : String × List String) : Ownership :=
  { index with keys := index.keys.record entry.1 entry.2 }

/-- Enters a service: its types in increasing order of their names, its extensions likewise, then its keys. -/
def addService (order : FieldOrder) (policy : CollisionPolicy) (index : Ownership) (service : Service) :
    Except OwnershipError Ownership := do
  let shape := service.shape
  let index ← shape.declared.entries.foldlM (claimType order policy service.name) index
  let index ← shape.contributed.entries.foldlM (claimExtension order policy service.name) index
  return shape.keys.entries.foldl addKeys index

/-- The ownership among services, in their order, where each may have its own order of fields. -/
def ofServicesBy (order : Service → FieldOrder) (policy : CollisionPolicy) (services : List Service) :
    Except OwnershipError Ownership :=
  services.foldlM (fun index service => addService (order service) policy index service) initial

/-- The ownership among services whose fields are taken in increasing order. -/
def ofServices (policy : CollisionPolicy) (services : List Service) :
    Except OwnershipError Ownership :=
  ofServicesBy (fun _ => .increasing) policy services

def owner? (index : Ownership) (type : String) : Option Owner := index.owners.find? type

/-- The service that owns a type; root types and unknown types have none. -/
def ownerOf? (index : Ownership) (type : String) : Option String :=
  match index.owner? type with
  | some (.service name) => some name
  | _ => none

def isSplit (index : Ownership) (type : String) : Bool := index.owner? type = some .split

def rootFieldOwner? (index : Ownership) (type field : String) : Option String :=
  index.rootFields.claimant? type field

def contributorOf? (index : Ownership) (type field : String) : Option String :=
  index.contributors.claimant? type field

def keysOf (index : Ownership) (type : String) : List String := index.keys.keysOf type

/-- The types that a service owns as a whole, with that service. -/
def ownedTypes (index : Ownership) : List (String × String) :=
  index.owners.entries.filterMap fun
    | (type, .service name) => some (type, name)
    | (_, .split) => none

end Ownership

end Supergraph
