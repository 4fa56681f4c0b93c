import Supergraph.CommandLine

/-!
The program. It reads the file that the command line names and has no network, so no service can be
reached from it.
-/

namespace Supergraph

def contentsOf? (path : String) : IO (Option String) := do
  try return some (← IO.FS.readFile path)
  catch _ => return none

/-- A connection to a service without a network. -/
def connectOffline (service : ServiceConfig) : Except TransportError Connection :=
  .ok (.unreachable service.name)

end Supergraph

open Supergraph

def main (arguments : List String) : IO UInt32 := do
  let outcome ← CommandLine.run contentsOf? connectOffline arguments
  IO.print outcome.output
  if ¬outcome.complaint.isEmpty then IO.eprintln ("error: " ++ outcome.complaint)
  return UInt32.ofNat outcome.exitCode
