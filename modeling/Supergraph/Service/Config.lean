/-!
What a gateway is told about a service: its name, its address, and how to treat its connections.

Correspondence (gateway ↔ Lean):
  `ServiceConfig.new` ↔ `ServiceConfig.ofAddress`
-/

namespace Supergraph

/-- The configuration of a service. Durations are in milliseconds; no bound on the sockets means
that any number of requests may be in flight. -/
structure ServiceConfig where
  name : String
  url : String
  keepAlive : Nat
  maxSockets : Option Nat
  maxFreeSockets : Nat
  rejectUnauthorized : Bool
  deriving DecidableEq, Inhabited, Repr

/-- The configuration of a service of which only name and address are given. -/
def ServiceConfig.ofAddress (name url : String) : ServiceConfig :=
  ⟨name, url, 1000, none, 256, true⟩

end Supergraph
