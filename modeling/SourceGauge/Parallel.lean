namespace SourceGauge

/-- How a batch is divided. Job count zero leaves the choice to the machine. -/
structure Parallel where
  enabled : Bool := true
  jobs : Nat := 0
  batchSize : Option Nat := some 100
deriving DecidableEq, Repr

namespace Parallel

def sequential : Parallel := { enabled := false }

/-- A chunk is never empty. -/
def chunkSize (p : Parallel) : Nat := max 1 (p.batchSize.getD 100)

end Parallel
end SourceGauge
