import Supergraph.Gateway

/-!
The report on a gateway: which service owns each type, and where each delegated field goes.
-/

namespace Supergraph

namespace Gateway

def ownershipLines (gateway : Gateway) : List String :=
  gateway.topology.index.ownedTypes.map fun (type, service) =>
    "  " ++ Text.padded 30 type ++ " " ++ service

def delegationLines (gateway : Gateway) : List String :=
  gateway.wiring.map fun crossing =>
    "  " ++ Text.padded 30 (crossing.type ++ "." ++ crossing.field) ++ " " ++
      Text.padded 16 crossing.delegation.kind.label ++ " -> " ++ crossing.delegation.service

def reportLines (gateway : Gateway) : List String :=
  ["Type ownership:"] ++ gateway.ownershipLines ++ ["Delegated fields:"] ++ gateway.delegationLines

end Gateway

end Supergraph
