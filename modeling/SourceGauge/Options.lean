import SourceGauge.Report

namespace SourceGauge

/-- What the command line says about an analysis. -/
structure Options where
  paths : List String := ["."]
  format : Option Report.Format := none
  output : Option String := none
  extensions : List String := []
  allFiles : Bool := false
  jobs : Option Nat := none
  noParallel : Bool := false
  plain : Bool := false
  config : Option String := none
  verbosity : Nat := 0
  quiet : Bool := false
deriving DecidableEq, Repr

end SourceGauge
