import Supergraph.Bootstrap
import Supergraph.Bootstrap.Window
import Supergraph.ClientOperation
import Supergraph.CommandLine
import Supergraph.Composition
import Supergraph.Configuration
import Supergraph.Configuration.Reader
import Supergraph.Double
import Supergraph.Double.Shortest
import Supergraph.Gateway
import Supergraph.GraphQL.Document
import Supergraph.GraphQL.Document.Printer
import Supergraph.GraphQL.Document.Reader
import Supergraph.GraphQL.Reader
import Supergraph.GraphQL.Schema
import Supergraph.GraphQL.Schema.Reader
import Supergraph.GraphQL.Token
import Supergraph.GraphQL.Value
import Supergraph.Http.Pool
import Supergraph.Http.Status
import Supergraph.Http.Traffic
import Supergraph.Json
import Supergraph.Json.Printer
import Supergraph.Json.Reader
import Supergraph.Main
import Supergraph.NameMap
import Supergraph.Ownership
import Supergraph.Proofs.Bootstrap
import Supergraph.Proofs.Claims
import Supergraph.Proofs.CollisionPolicies
import Supergraph.Proofs.ComposedTypes
import Supergraph.Proofs.Composition
import Supergraph.Proofs.Declarers
import Supergraph.Proofs.Delivery
import Supergraph.Proofs.Documents
import Supergraph.Proofs.Gateway
import Supergraph.Proofs.Holders
import Supergraph.Proofs.Isolation
import Supergraph.Proofs.LoneReferences
import Supergraph.Proofs.Outcome
import Supergraph.Proofs.Ownership
import Supergraph.Proofs.Pool
import Supergraph.Proofs.Pruning.Exactness
import Supergraph.Proofs.Pruning.Expansion
import Supergraph.Proofs.Pruning.Fragments
import Supergraph.Proofs.Pruning.Idempotence
import Supergraph.Proofs.Pruning.KeyCompletion
import Supergraph.Proofs.Pruning.Level
import Supergraph.Proofs.Pruning.Remnant
import Supergraph.Proofs.Pruning.ResponseKeys
import Supergraph.Proofs.Pruning.Selecting
import Supergraph.Proofs.Pruning.Typename
import Supergraph.Proofs.RecordedFields
import Supergraph.Proofs.ReferenceLists
import Supergraph.Proofs.Representations
import Supergraph.Proofs.Resolution
import Supergraph.Proofs.ResponsePaths
import Supergraph.Proofs.RootFields
import Supergraph.Proofs.Routing
import Supergraph.Proofs.ServiceOrder
import Supergraph.Proofs.Sessions
import Supergraph.Proofs.Shape
import Supergraph.Proofs.SpreadGraph
import Supergraph.Proofs.Startup
import Supergraph.Proofs.Synthesis
import Supergraph.Proofs.Totality
import Supergraph.Proofs.Traffic
import Supergraph.Proofs.UpstreamErrors
import Supergraph.Proofs.Variables
import Supergraph.Proofs.Wiring
import Supergraph.Proofs.WiringReport
import Supergraph.Pruning
import Supergraph.Report
import Supergraph.Request
import Supergraph.Resolution
import Supergraph.Response
import Supergraph.Schema
import Supergraph.Service
import Supergraph.Service.Config
import Supergraph.Service.Shape
import Supergraph.Synthesis
import Supergraph.Text
import Supergraph.Transport
import Supergraph.Wiring
import Supergraph.Yaml.Cursor
import Supergraph.Yaml.Document
import Supergraph.Yaml.Document.Reader
import Supergraph.Yaml.Scalar
import Supergraph.Yaml.Tag
import Supergraph.Yaml.Token
