import Supergraph.NameMap
import Supergraph.Json

/-!
Requests to services, and the limits that a caller sets for one.

Correspondence (gateway ↔ Lean):
  `SubgraphRequest` ↔ `Request`
-/

namespace Supergraph

/-- A request to a service. Its body is the query and the variables; the name of the operation goes
along for reports. -/
structure Request where
  query : String
  values : NameMap Json
  operationName : Option String

def Request.body (request : Request) : Json :=
  .ofMembers [("query", .string request.query), ("variables", .object request.values.entries)]

/-- The limits of a request, in milliseconds from its start: when it is too late, and when the
caller cancels it. -/
structure RequestContext where
  timeout : Option Nat
  cancellation : Option Nat
  deriving DecidableEq, Inhabited

def RequestContext.unlimited : RequestContext := ⟨none, none⟩

end Supergraph
