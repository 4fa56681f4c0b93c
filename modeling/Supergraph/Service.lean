import Supergraph.Service.Config
import Supergraph.Service.Shape
import Supergraph.GraphQL.Schema.Reader

/-!
Services and the registry of them. A service is its configuration, its schema as text and as
declarations, and the shape of the schema.

Correspondence (gateway ↔ Lean):
  `ServiceRuntime`, `ServiceRuntime.from_sdl` ↔ `Service`, `Service.ofSdl?`
  `ServiceRegistry`, `ServiceRegistry.get`    ↔ `Registry`, `Registry.find?`
-/

namespace Supergraph

open GraphQL

/-- A service whose schema is known: its text has been read, and its shape is that of what was read. -/
structure Service where
  config : ServiceConfig
  sdl : String
  schema : SchemaDocument
  shape : ServiceShape
  parsed : SchemaDocument.ofText? sdl = some schema
  shaped : shape = .ofSchema schema

namespace Service

def name (service : Service) : String := service.config.name

def ofSdl? (config : ServiceConfig) (sdl : String) : Option Service :=
  match h : SchemaDocument.ofText? sdl with
  | some schema => some ⟨config, sdl, schema, .ofSchema schema, h, rfl⟩
  | none => none

end Service

/-- Services in the order of their configuration. -/
structure Registry where
  services : List Service

namespace Registry

/-- The service of a name; of several the last. -/
def find? (registry : Registry) (name : String) : Option Service :=
  registry.services.reverse.find? fun service => service.name = name

def names (registry : Registry) : List String := registry.services.map Service.name

end Registry

end Supergraph
