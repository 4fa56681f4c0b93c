import Supergraph.Configuration
import Supergraph.Yaml.Document.Reader

/-!
Reading the configuration of a gateway from YAML.

Every setting has a key of its own. Keys that name no setting are passed over with whatever they
hold; a setting that is given twice makes the text unusable.

Correspondence (gateway ↔ Lean):
  `GatewayConfig.from_yaml` ↔ `GatewayConfig.ofText`
-/

namespace Supergraph

namespace Yaml

/-- A reader of nodes. Its state is how many references it may still follow. -/
abbrev NodeReader := StateT Nat Option

namespace Document

/-- The node that a node stands for. -/
def resolve (document : Document) (node : Node) : NodeReader Node := do
  if let .reference _ := node then
    let left ← get
    guard (0 < left)
    set (left - 1)
  document.resolve? node

/-- The entries of a mapping, whose keys are all scalars. -/
def entries (document : Document) (node : Node) : NodeReader (List (String × Node)) := do
  match ← document.resolve node with
  | .mapping entries =>
    entries.mapM fun (key, value) => do
      return (← (← document.resolve key).text?, value)
  | _ => failure

/-- The value of a setting, if it is given; it must not be given more than once. -/
def value (document : Document) (entries : List (String × Node)) (key : String) :
    NodeReader (Option Node) :=
  match entries.filter fun (name, _) => name = key with
  | [] => return none
  | [(_, node)] => some <$> document.resolve node
  | _ => failure

def required {α : Type} (document : Document) (entries : List (String × Node)) (key : String)
    (read : Node → Option α) : NodeReader α := do
  match ← document.value entries key with
  | none => failure
  | some node => read node

/-- A setting read by `read`, or what holds if it is not given. -/
def setting {α : Type} (document : Document) (entries : List (String × Node)) (key : String)
    (read : Node → Option α) (unset : α) : NodeReader α := do
  match ← document.value entries key with
  | none => return unset
  | some node => read node

end Document

namespace Node

/-- The items of a sequence; nothing at all is the empty one. -/
def items? (node : Node) : Option (List Node) :=
  match node with
  | .sequence items => some items
  | _ => if node.isBlank then some [] else none

def naturalOrAbsent? (node : Node) : Option (Option Nat) := do
  if ← node.absent? then return none else return some (← node.natural?)

end Node

end Yaml

open Yaml (Document Node NodeReader)

def ServiceConfig.ofNode (document : Document) (node : Node) : NodeReader ServiceConfig := do
  let entries ← document.entries node
  let name ← document.required entries "name" Node.text?
  let url ← document.required entries "url" Node.text?
  let unset := ofAddress name url
  let keepAlive ← document.setting entries "keepAliveMsecs" Node.natural? unset.keepAlive
  let maxSockets ← document.setting entries "maxSockets" Node.naturalOrAbsent? unset.maxSockets
  let maxFreeSockets ←
    document.setting entries "maxFreeSockets" Node.natural? unset.maxFreeSockets
  let rejectUnauthorized ←
    document.setting entries "rejectUnauthorized" Node.truth? unset.rejectUnauthorized
  return ⟨name, url, keepAlive, maxSockets, maxFreeSockets, rejectUnauthorized⟩

def CollisionPolicy.ofNode? (node : Node) : Option CollisionPolicy :=
  match node.choice? with
  | some "failFast" => some .failFast
  | some "lastWins" => some .lastWins
  | _ => none

namespace GatewayConfig

/-- Reads the configuration of a gateway, as far as a single setting can be wrong. -/
def ofRoot (document : Document) : NodeReader GatewayConfig := do
  let entries ← document.entries document.root
  let items ← document.required entries "services" Node.items?
  let services ← items.mapM (ServiceConfig.ofNode document)
  let unset := ofServices services
  let bootstrapConcurrency ←
    document.setting entries "bootstrapConcurrency" Node.natural? unset.bootstrapConcurrency
  let collisions ←
    document.setting entries "ownershipCollisions" CollisionPolicy.ofNode? unset.collisions
  let requestTimeout ←
    document.setting entries "requestTimeoutMsecs" Node.naturalOrAbsent? unset.requestTimeout
  return ⟨services, bootstrapConcurrency, collisions, requestTimeout⟩

/-- Reads the configuration of a gateway from a document, within the limit on references. -/
def ofDocument? (document : Document) : Option GatewayConfig :=
  (ofRoot document).run' document.referenceLimit

/-- Reads and checks the configuration of a gateway. -/
def ofText (text : String) : Except ConfigError GatewayConfig :=
  match (Document.ofText? text).bind ofDocument? with
  | none => .error .malformed
  | some config => config.validate.map fun _ => config

end GatewayConfig

end Supergraph
